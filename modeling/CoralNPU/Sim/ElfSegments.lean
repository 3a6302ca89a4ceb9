import CoralNPU.Sim.ElfSymbols

namespace CoralNPU.Sim

open Lib

/-!
# What the ELF loader writes

* `Write.InDevice`, `applyWrites` — a write inside device memory, and the memory after writes.
* `loadHeaders`, `Phdr.contents` — the loaded segments of a file, and what each has in memory.
* `copySegment_writes`, `zeroFill_writes`, `loadSegment_ok` — the writes of the parts.
* `Loaded`, `loadElf_writes` — what a file leaves in device memory.
-/

/-! ### Device memory -/

/-- The `length` addresses from `first` on lie in one of the three memories. -/
def InDevice (first length : Nat) : Prop :=
  (itcmStart.toNat ≤ first ∧ first + length ≤ itcmStart.toNat + itcmSize.toNat) ∨
  (dtcmStart.toNat ≤ first ∧ first + length ≤ dtcmStart.toNat + dtcmSize.toNat) ∨
  (ddrStart.toNat ≤ first ∧ first + length ≤ ddrStart.toNat + ddrSize.toNat)

/-- The whole write lies in one of the three memories. -/
def Write.InDevice (w : Write) : Prop := Sim.InDevice w.address.toNat w.bytes.length

/-- The memory after some writes. -/
def applyWrites (m : Memory) (writes : List Write) : Memory :=
  writes.foldl (fun m w => writeMem m w.address.toNat w.bytes) m

/-- Two sequences of writes, one after the other. -/
theorem applyWrites_append (m : Memory) (ws ws' : List Write) :
    applyWrites m (ws ++ ws') = applyWrites (applyWrites m ws) ws' :=
  List.foldl_append

/-- A part of a range in device memory lies in device memory. -/
theorem InDevice.mono {first length : Nat} (h : InDevice first length) {length' : Nat}
    (hle : length' ≤ length) : InDevice first length' := by
  unfold InDevice at h ⊢
  omega

/-- Device memory ends at `2 ^ 32`. -/
theorem InDevice.le {first length : Nat} (h : InDevice first length) :
    first + length ≤ 2 ^ 32 := by
  have hitcm : itcmStart.toNat + itcmSize.toNat ≤ 2 ^ 32 := by decide
  have hdtcm : dtcmStart.toNat + dtcmSize.toNat ≤ 2 ^ 32 := by decide
  have hddr : ddrStart.toNat + ddrSize.toNat ≤ 2 ^ 32 := by decide
  unfold InDevice at h
  omega

/-- The test that both `validate_segment` and `copy_segment` make. -/
theorem inDevice_of_rangeFits {address : UInt32} {size : UInt64} (hsize : size.toNat < 2 ^ 32)
    (h : rangeFits itcmStart itcmSize address size = true ∨
      rangeFits dtcmStart dtcmSize address size = true ∨
      rangeFits ddrStart ddrSize address size = true) : InDevice address.toNat size.toNat :=
  h.imp (rangeFits_true hsize) (Or.imp (rangeFits_true hsize) (rangeFits_true hsize))

/-! ### Copies -/

/-- A copy writes inside device memory, or not at all. -/
theorem copySegment_inDevice {address : UInt32} {source : List UInt8} {offset : Nat}
    {size : UInt64} (hsize : size.toNat < 2 ^ 32) :
    Traced.AllEvents Write.InDevice (copySegment address source offset size) := by
  have hwrite : InDevice address.toNat size.toNat →
      Traced.AllEvents Write.InDevice (writeFrom address source offset size.toNat) := by
    intro hrange
    refine Traced.AllEvents.bind (Traced.AllEvents.lift _) fun bytes hread =>
      Traced.AllEvents.emit (hrange.mono ?_)
    -- at most `size` bytes are read
    have hread : readAt source offset size.toNat = .ok bytes := hread
    unfold readAt at hread
    split at hread
    · obtain rfl := Except.ok.inj hread
      exact List.length_take_le _ _
    · cases hread
  unfold copySegment
  split
  · exact Traced.AllEvents.lift _
  split
  next h => exact hwrite (inDevice_of_rangeFits hsize (.inl h))
  split
  next h => exact hwrite (inDevice_of_rangeFits hsize (.inr (.inl h)))
  split
  next h => exact hwrite (inDevice_of_rangeFits hsize (.inr (.inr h)))
  · exact Traced.AllEvents.lift _

/-- **A copy that succeeds** writes the bytes of the buffer. -/
theorem copySegment_writes {address : UInt32} {source : List UInt8} {offset : Nat}
    {size : UInt64} (hsource : offset + size.toNat ≤ source.length)
    (h : (copySegment address source offset size).result = .ok ()) (m : Memory) :
    applyWrites m (copySegment address source offset size).events
      = writeMem m address.toNat ((source.drop offset).take size.toNat) := by
  have hwrite : applyWrites m (writeFrom address source offset size.toNat).events
      = writeMem m address.toNat ((source.drop offset).take size.toNat) := by
    rw [writeFrom, readAt_eq hsource, Traced.bind_of_ok rfl]
    rfl
  unfold copySegment at h ⊢
  split
  next hzero =>
    rw [hzero]
    exact (writeMem_nil m address.toNat).symm
  next hzero =>
  rw [if_neg hzero] at h
  split
  · exact hwrite
  next hitcm =>
  rw [if_neg hitcm] at h
  split
  · exact hwrite
  next hdtcm =>
  rw [if_neg hdtcm] at h
  split
  · exact hwrite
  next hddr =>
  rw [if_neg hddr] at h
  cases h

/-- The zeros are written inside device memory, or not at all. -/
theorem zeroFill_inDevice (zeroAddress : UInt32) (remaining : UInt64) :
    Traced.AllEvents Write.InDevice (zeroFill zeroAddress remaining) := by
  induction zeroAddress, remaining using zeroFill.induct with
  | case1 zeroAddress =>
    rw [zeroFill, if_pos rfl]
    exact Traced.AllEvents.lift _
  | case2 zeroAddress remaining hne ih =>
    rw [zeroFill, if_neg hne]
    have hle := (zeroChunk_le remaining).2
    exact Traced.AllEvents.bind (copySegment_inDevice (by omega)) fun _ _ => ih

/-- **The zero fill**, chunk by chunk, when it ends by the end of the address space: the address
    of the next chunk wraps only after the last one. -/
theorem zeroFill_writes (zeroAddress : UInt32) (remaining : UInt64) :
    zeroAddress.toNat + remaining.toNat ≤ 2 ^ 32 →
      (zeroFill zeroAddress remaining).result = .ok () → ∀ m,
        applyWrites m (zeroFill zeroAddress remaining).events
          = writeMem m zeroAddress.toNat (List.replicate remaining.toNat 0) := by
  induction zeroAddress, remaining using zeroFill.induct with
  | case1 zeroAddress =>
    intro _ _ m
    rw [zeroFill, if_pos rfl]
    exact (writeMem_nil m zeroAddress.toNat).symm
  | case2 zeroAddress remaining hne ih =>
    intro hend h m
    rw [zeroFill, if_neg hne] at h ⊢
    obtain ⟨u, hcopy, hrest, hevents⟩ := Traced.bind_result_eq_ok h
    have hpos := zeroChunk_pos hne
    obtain ⟨hle, hle'⟩ := zeroChunk_le remaining
    have hleft := toNat_sub_zeroChunk remaining
    have hchunk32 : (zeroChunk remaining).toUInt32.toNat = (zeroChunk remaining).toNat := by
      rw [UInt64.toNat_toUInt32]
      omega
    have hbuffer : (zeroBuffer.drop 0).take (zeroChunk remaining).toNat
        = List.replicate (zeroChunk remaining).toNat 0 := by
      rw [zeroBuffer, List.drop_zero, List.take_replicate, Nat.min_eq_left hle']
    have hsplit : List.replicate remaining.toNat (0 : UInt8)
        = List.replicate (zeroChunk remaining).toNat 0
          ++ List.replicate (remaining - zeroChunk remaining).toNat 0 := by
      rw [List.replicate_append_replicate, hleft, Nat.add_sub_cancel' hle]
    have hfirst := copySegment_writes
      (by rw [zeroBuffer, List.length_replicate]; omega) hcopy m
    rw [hevents, applyWrites_append, hfirst, hbuffer, hsplit, ← writeMem_append,
      List.length_replicate]
    by_cases hlast : zeroAddress.toNat + (zeroChunk remaining).toNat < 2 ^ 32
    · have haddress : (zeroAddress + (zeroChunk remaining).toUInt32).toNat
          = zeroAddress.toNat + (zeroChunk remaining).toNat := by
        rw [UInt32.toNat_add, hchunk32, Nat.mod_eq_of_lt hlast]
      rw [ih (by omega) hrest, haddress]
    · -- this was the last chunk
      have hnone : (remaining - zeroChunk remaining).toNat = 0 := by omega
      have hzero : remaining - zeroChunk remaining = 0 := UInt64.toNat_inj.mp hnone
      rw [hnone, hzero, zeroFill, if_pos rfl, List.replicate_zero, writeMem_nil]
      rfl

/-! ### Segments -/

/-- What a segment has in memory: its file bytes, and zeros up to `p_memsz`. -/
def Phdr.contents (image : List UInt8) (phdr : Phdr) : List UInt8 :=
  (image.drop phdr.offset.toNat).take phdr.filesz.toNat
    ++ List.replicate (phdr.memsz.toNat - phdr.filesz.toNat) 0

/-- The address lies in the segment. -/
def Phdr.Covers (phdr : Phdr) (p : Nat) : Prop :=
  phdr.paddr.toNat ≤ p ∧ p < phdr.paddr.toNat + phdr.memsz.toNat

/-- The header of a segment that can be loaded. -/
structure Phdr.Fits (image : List UInt8) (phdr : Phdr) : Prop where
  memsz : phdr.filesz.toNat ≤ phdr.memsz.toNat
  file : phdr.offset.toNat + phdr.filesz.toNat ≤ image.length
  device : phdr.memsz ≠ 0 → InDevice phdr.paddr.toNat phdr.memsz.toNat

/-- The headers of the segments that are loaded, in order. -/
def headersOf (image : List UInt8) (ehdr : Ehdr) (is : List Nat) : List Phdr :=
  (is.map (phdrAt image ehdr)).filter (·.type = ptLoad)

/-- The memory with a segment loaded. -/
def placeSegment (image : List UInt8) (m : Memory) (phdr : Phdr) : Memory :=
  writeMem m phdr.paddr.toNat (phdr.contents image)

/-- The contents of a segment fill its memory size. -/
theorem Phdr.Fits.length_contents {image : List UInt8} {phdr : Phdr} (h : phdr.Fits image) :
    (phdr.contents image).length = phdr.memsz.toNat := by
  rw [contents, List.length_append, length_part h.file, List.length_replicate]
  have := h.memsz
  omega

/-- The entry point lies in the segment. -/
theorem Phdr.hasEntry_true {phdr : Phdr} {entry : UInt32} (h : phdr.hasEntry entry = true) :
    phdr.flags &&& pfX ≠ 0 ∧ phdr.Covers entry.toNat := by
  obtain ⟨hflags, hge, hlt⟩ := of_decide_eq_true h
  rw [UInt64.lt_iff_toNat_lt, toNat_add_toUInt64, UInt32.toNat_toUInt64] at hlt
  exact ⟨hflags, UInt32.le_iff_toNat_le.mp hge, hlt⟩

/-- A segment that is accepted lies in the device. -/
theorem validateSegment_eq_ok {address : UInt32} {size : UInt32}
    (h : validateSegment address size.toUInt64 = .ok ()) (hne : size ≠ 0) :
    InDevice address.toNat size.toNat := by
  have hsize : size.toUInt64.toNat < 2 ^ 32 := by
    rw [UInt32.toNat_toUInt64]
    exact size.toNat_lt
  unfold validateSegment at h
  split at h
  next hzero =>
    have : size.toUInt64.toNat = 0 := by rw [hzero]; rfl
    rw [UInt32.toNat_toUInt64] at this
    exact absurd (UInt32.toNat_inj.mp this) hne
  split at h
  next hfits =>
    rw [Bool.or_eq_true, Bool.or_eq_true, or_assoc] at hfits
    have := inDevice_of_rangeFits hsize hfits
    rwa [UInt32.toNat_toUInt64] at this
  next => cases h

/-- The writes of a segment lie in the device. -/
theorem fillSegment_inDevice (phdr : Phdr) :
    Traced.AllEvents Write.InDevice (fillSegment phdr) := by
  unfold fillSegment
  split
  · exact zeroFill_inDevice _ _
  · exact Traced.AllEvents.lift _

/-- The zeros of a segment after its file bytes. -/
theorem fillSegment_writes {image : List UInt8} {phdr : Phdr} (hfits : phdr.Fits image)
    (h : (fillSegment phdr).result = .ok ()) (m : Memory) :
    applyWrites m (fillSegment phdr).events = writeMem m (phdr.paddr.toNat + phdr.filesz.toNat)
      (List.replicate (phdr.memsz.toNat - phdr.filesz.toNat) 0) := by
  unfold fillSegment at h ⊢
  split
  next hlt =>
    rw [if_pos hlt] at h
    have hlt' := UInt32.lt_iff_toNat_lt.mp hlt
    have hne : phdr.memsz ≠ 0 := by
      intro hzero
      rw [hzero] at hlt'
      exact absurd hlt' (Nat.not_lt_zero _)
    have hle := (hfits.device hne).le
    -- the file bytes end before the end of the address space
    have haddress : (phdr.paddr + phdr.filesz).toNat = phdr.paddr.toNat + phdr.filesz.toNat := by
      rw [UInt32.toNat_add, Nat.mod_eq_of_lt (by omega)]
    have hsize : (phdr.memsz - phdr.filesz).toUInt64.toNat
        = phdr.memsz.toNat - phdr.filesz.toNat := by
      rw [UInt32.toNat_toUInt64, UInt32.toNat_sub_of_le _ _ (UInt32.le_of_lt hlt)]
    rw [zeroFill_writes _ _ (by rw [haddress, hsize]; omega) h, haddress, hsize]
  next hge =>
    have hle := UInt32.le_iff_toNat_le.mp (UInt32.not_lt.mp hge)
    rw [Nat.sub_eq_zero_of_le hle, List.replicate_zero, writeMem_nil]
    rfl

/-- So do those of the segment with a number. -/
theorem loadSegment_inDevice (image : List UInt8) (ehdr : Ehdr) (executable : Bool) (i : Nat) :
    Traced.AllEvents Write.InDevice (loadSegment image ehdr executable i) := by
  refine Traced.AllEvents.bind (Traced.AllEvents.lift _) fun phdr _ => ?_
  split
  · exact Traced.AllEvents.lift _
  split
  · exact Traced.AllEvents.lift _
  split
  · exact Traced.AllEvents.lift _
  refine Traced.AllEvents.bind (Traced.AllEvents.lift _) fun _ _ => ?_
  refine Traced.AllEvents.bind (copySegment_inDevice ?_) fun _ _ => ?_
  · rw [UInt32.toNat_toUInt64]
    exact phdr.filesz.toNat_lt
  · exact Traced.AllEvents.bind (fillSegment_inDevice phdr) fun _ _ => Traced.AllEvents.lift _

/-- **One program header.** The segment is placed, if it is one to load. -/
theorem loadSegment_ok {image : List UInt8} {ehdr : Ehdr} {executable executable' : Bool} {i : Nat}
    (htable : ehdr.phoff.toNat + i * 32 + 32 ≤ image.length)
    (h : (loadSegment image ehdr executable i).result = .ok executable') :
    (∀ m, applyWrites m (loadSegment image ehdr executable i).events
      = (headersOf image ehdr [i]).foldl (placeSegment image) m) ∧
    (∀ phdr ∈ headersOf image ehdr [i], phdr.Fits image) ∧
    (executable' = true →
      executable = true ∨ ∃ phdr ∈ headersOf image ehdr [i], phdr.hasEntry ehdr.entry = true) := by
  have hread : (Traced.lift (readPhdr image ehdr i) : Loader Phdr).result
      = .ok (phdrAt image ehdr i) := readRecord_eq htable
  rw [loadSegment, Traced.bind_of_ok hread] at h ⊢
  simp only at h ⊢
  rw [show (Traced.lift (readPhdr image ehdr i) : Loader Phdr).events = [] from rfl,
    List.nil_append]
  have hheaders : headersOf image ehdr [i]
      = if (phdrAt image ehdr i).type = ptLoad then [phdrAt image ehdr i] else [] := by
    simp only [headersOf, List.map_singleton, List.filter_cons, List.filter_nil,
      decide_eq_true_eq]
  rw [hheaders]
  split at h
  next htype =>
    rw [if_pos htype, if_neg htype]
    refine ⟨fun m => rfl, fun _ hmem => absurd hmem List.not_mem_nil, fun he => .inl ?_⟩
    obtain rfl := Except.ok.inj h
    exact he
  next htype =>
  rw [if_neg htype, if_pos (not_not.mp htype)]
  split at h
  · cases h
  next hmemsz =>
  rw [if_neg hmemsz]
  split at h
  · cases h
  next hfile =>
  rw [if_neg hfile]
  rw [toNat_add_toUInt64] at hfile
  obtain ⟨_, hvalid, h, hevents⟩ := Traced.bind_result_eq_ok h
  rw [hevents]
  obtain ⟨_, hcopy, h, hevents⟩ := Traced.bind_result_eq_ok h
  rw [hevents]
  obtain ⟨_, hfill, h, hevents⟩ := Traced.bind_result_eq_ok h
  rw [hevents]
  obtain rfl := Except.ok.inj h
  have hfits : (phdrAt image ehdr i).Fits image :=
    ⟨UInt32.le_iff_toNat_le.mp (UInt32.not_lt.mp hmemsz), Nat.not_lt.mp hfile,
      validateSegment_eq_ok hvalid⟩
  refine ⟨fun m => ?_, fun phdr hmem => ?_, fun he => ?_⟩
  · have hcopied := copySegment_writes
      (by rw [UInt32.toNat_toUInt64]; exact Nat.not_lt.mp hfile) hcopy m
    rw [UInt32.toNat_toUInt64] at hcopied
    show applyWrites m ([] ++ (_ ++ (_ ++ []))) = writeMem m _ _
    rw [List.nil_append, List.append_nil, applyWrites_append, hcopied,
      fillSegment_writes hfits hfill, Phdr.contents, ← writeMem_append,
      length_part (Nat.not_lt.mp hfile)]
  · obtain rfl := List.mem_singleton.mp hmem
    exact hfits
  · by_cases hentry : (phdrAt image ehdr i).hasEntry ehdr.entry = true
    · exact .inr ⟨_, List.mem_singleton.mpr rfl, hentry⟩
    · rw [if_neg hentry] at he
      exact .inl he

/-- And those of several. -/
theorem loadSegments_inDevice (image : List UInt8) (ehdr : Ehdr) (is : List Nat) :
    ∀ executable, Traced.AllEvents Write.InDevice (loadSegments image ehdr executable is) := by
  induction is with
  | nil => exact fun _ => Traced.AllEvents.lift _
  | cons i is ih =>
    exact fun executable =>
      Traced.AllEvents.bind (loadSegment_inDevice image ehdr executable i) fun _ _ => ih _

/-- **The loop over the program headers** places the segments one after the other. -/
theorem loadSegments_ok {image : List UInt8} {ehdr : Ehdr}
    (htable : ehdr.phoff.toNat + ehdr.phnum.toNat * 32 ≤ image.length) {is : List Nat} :
    ∀ {executable executable' : Bool}, (∀ i ∈ is, i < ehdr.phnum.toNat) →
      (loadSegments image ehdr executable is).result = .ok executable' →
      (∀ m, applyWrites m (loadSegments image ehdr executable is).events
        = (headersOf image ehdr is).foldl (placeSegment image) m) ∧
      (∀ phdr ∈ headersOf image ehdr is, phdr.Fits image) ∧
      (executable' = true →
        executable = true ∨ ∃ phdr ∈ headersOf image ehdr is, phdr.hasEntry ehdr.entry = true) := by
  induction is with
  | nil =>
    intro executable executable' _ h
    obtain rfl := Except.ok.inj h
    exact ⟨fun m => rfl, fun _ hmem => absurd hmem List.not_mem_nil, .inl⟩
  | cons i is ih =>
    intro executable executable' his h
    have hi := his i List.mem_cons_self
    obtain ⟨executable₁, hone, hrest, hevents⟩ := Traced.bind_result_eq_ok h
    have hcons : headersOf image ehdr (i :: is)
        = headersOf image ehdr [i] ++ headersOf image ehdr is := by
      rw [headersOf, headersOf, headersOf, ← List.filter_append, ← List.map_append,
        List.singleton_append]
    obtain ⟨hwrites, hfits, hentry⟩ := loadSegment_ok (by omega) hone
    obtain ⟨hwrites', hfits', hentry'⟩ := ih (fun k hk => his k (List.mem_cons_of_mem i hk)) hrest
    rw [loadSegments, hevents, hcons]
    refine ⟨fun m => ?_, fun phdr hmem => ?_, fun he => ?_⟩
    · rw [applyWrites_append, hwrites, hwrites', List.foldl_append]
    · exact (List.mem_append.mp hmem).elim (hfits phdr) (hfits' phdr)
    · rcases hentry' he with he | ⟨phdr, hmem, he⟩
      · rcases hentry he with he | ⟨phdr, hmem, he⟩
        · exact .inl he
        · exact .inr ⟨phdr, List.mem_append_left _ hmem, he⟩
      · exact .inr ⟨phdr, List.mem_append_right _ hmem, he⟩

/-! ### The loaded file -/

/-- The headers of the loaded segments of a file. -/
def loadHeaders (image : List UInt8) : List Phdr :=
  headersOf image (ehdrOf image) (List.range (ehdrOf image).phnum.toNat)

/-- Segments change the addresses that they cover. -/
theorem foldl_placeSegment_unchanged {image : List UInt8} {phdrs : List Phdr} {p : Nat} :
    ∀ {m : Memory}, (∀ phdr ∈ phdrs, phdr.Fits image ∧ ¬ phdr.Covers p) →
      phdrs.foldl (placeSegment image) m p = m p := by
  induction phdrs with
  | nil => exact fun _ => rfl
  | cons phdr phdrs ih =>
    intro m h
    obtain ⟨hfits, hcovers⟩ := h phdr List.mem_cons_self
    rw [List.foldl_cons, ih fun q hq => h q (List.mem_cons_of_mem phdr hq)]
    have hlen := hfits.length_contents
    have hout : p + 1 ≤ phdr.paddr.toNat ∨ phdr.paddr.toNat + (phdr.contents image).length ≤ p := by
      rw [Phdr.Covers] at hcovers
      omega
    exact writeMem_agreeOn hout p (Nat.le_refl p) (Nat.lt_succ_self p)

/-- **What a loaded file leaves**: the segments in device memory, in the order of their headers,
    and a layout whose addresses lie where they should. -/
structure Loaded (image : List UInt8) (layout : ElfLayout) (writes : List Write) : Prop where
  memory : ∀ m, applyWrites m writes = (loadHeaders image).foldl (placeSegment image) m
  fits : ∀ phdr ∈ loadHeaders image, phdr.Fits image
  unchanged : ∀ m p, (∀ phdr ∈ loadHeaders image, ¬ phdr.Covers p) → applyWrites m writes p = m p
  startPc : layout.startPc = (ehdrOf image).entry
  entry : ∃ phdr ∈ loadHeaders image, phdr.flags &&& pfX ≠ 0 ∧ phdr.Covers layout.startPc.toNat
  request : dtcmStart.toNat ≤ layout.dispatchRequestAddr.toNat ∧
    layout.dispatchRequestAddr.toNat + layout.dispatchRequestSize.toNat
      ≤ dtcmStart.toNat + dtcmSize.toNat
  heap : dtcmStart.toNat ≤ layout.heapStartAddr.toNat ∧
    layout.heapStartAddr.toNat ≤ layout.heapEndAddr.toNat ∧
    layout.heapEndAddr.toNat ≤ dtcmStart.toNat + dtcmSize.toNat

/-- The layout has the start address of the file. -/
theorem findLayout_startPc {image : List UInt8} {startPc : UInt32} {layout : ElfLayout}
    (h : findLayout image startPc = .ok layout) : layout.startPc = startPc := by
  obtain ⟨_, -, h⟩ := bind_eq_ok.mp h
  obtain ⟨_, -, h⟩ := bind_eq_ok.mp h
  obtain ⟨_, -, h⟩ := bind_eq_ok.mp h
  obtain rfl := Except.ok.inj h
  rfl

/-- **Every write of the loader lies in the device.** -/
theorem loadElf_inDevice (image : List UInt8) :
    Traced.AllEvents Write.InDevice (loadElf image) := by
  refine Traced.AllEvents.bind ?_ fun layout _ => ?_
  · refine Traced.AllEvents.bind (Traced.AllEvents.lift _) fun _ _ => ?_
    split
    · exact Traced.AllEvents.lift _
    refine Traced.AllEvents.bind (Traced.AllEvents.lift _) fun ehdr _ => ?_
    split
    · exact Traced.AllEvents.lift _
    split
    · exact Traced.AllEvents.lift _
    split
    · exact Traced.AllEvents.lift _
    refine Traced.AllEvents.bind (loadSegments_inDevice image ehdr _ _) fun _ _ => ?_
    split
    · exact Traced.AllEvents.lift _
    · exact Traced.AllEvents.lift _
  · cases checkLayout layout with
    | ok u => exact Traced.AllEvents.lift _
    | error failure => exact Traced.AllEvents.lift _

/-- What the loader has done before its last checks. -/
theorem loadUnchecked_ok {image : List UInt8} {layout : ElfLayout}
    (h : (loadUnchecked image).result = .ok layout) :
    (∀ m, applyWrites m (loadUnchecked image).events
      = (loadHeaders image).foldl (placeSegment image) m) ∧
    (∀ phdr ∈ loadHeaders image, phdr.Fits image) ∧
    layout.startPc = (ehdrOf image).entry ∧
    ∃ phdr ∈ loadHeaders image, phdr.hasEntry layout.startPc = true := by
  obtain ⟨isElf, hisElf, h, hevents⟩ := Traced.bind_result_eq_ok h
  rw [loadUnchecked, hevents]
  split at h
  · cases h
  next hbang =>
  rw [if_neg hbang]
  obtain rfl : isElf = true := by simpa using hbang
  have hlen := isElf32_true hisElf
  have hehdr : (Traced.lift (readEhdr image) : Loader Ehdr).result = .ok (ehdrOf image) :=
    readEhdr_eq hlen
  rw [Traced.bind_of_ok hehdr] at h ⊢
  simp only at h ⊢
  split at h
  · cases h
  next hmachine =>
  rw [if_neg hmachine]
  split at h
  · cases h
  next hphentsize =>
  rw [if_neg hphentsize]
  split at h
  · cases h
  next htable =>
  rw [if_neg htable]
  rw [toNat_tableEnd _ _ (show (32 : UInt64).toNat ≤ 64 by decide)] at htable
  obtain ⟨executable, hsegments, h, hevents⟩ := Traced.bind_result_eq_ok h
  rw [hevents]
  split at h
  · cases h
  next hexecutable =>
  rw [if_neg hexecutable]
  obtain ⟨hwrites, hfits, hentry⟩ := loadSegments_ok (Nat.not_lt.mp htable)
    (fun i hi => List.mem_range.mp hi) hsegments
  have hpc := findLayout_startPc h
  refine ⟨fun m => ?_, hfits, hpc, ?_⟩
  · show applyWrites m ([] ++ ([] ++ (_ ++ []))) = _
    rw [List.nil_append, List.nil_append, List.append_nil]
    exact hwrites m
  · rw [hpc]
    exact (hentry (by simpa using hexecutable)).resolve_left Bool.false_ne_true

/-- **The loader writes what the file says, and only to device memory.** Every write, also before
    an error, lies in the ITCM, the DTCM or the DDR memory; and what a file that is accepted
    leaves is `Loaded`. -/
theorem loadElf_writes (image : List UInt8) :
    (∀ w ∈ (loadElf image).events, w.InDevice) ∧
      ∀ layout, (loadElf image).result = .ok layout →
        Loaded image layout (loadElf image).events := by
  refine ⟨loadElf_inDevice image, fun layout h => ?_⟩
  obtain ⟨layout', hunchecked, h, hevents⟩ := Traced.bind_result_eq_ok h
  cases hcheck : checkLayout layout' with
  | error failure =>
    rw [hcheck] at h
    cases h
  | ok u =>
    rw [hcheck] at h hevents
    obtain rfl := Except.ok.inj h
    obtain ⟨hmemory, hfits, hpc, phdr, hmem, hentry⟩ := loadUnchecked_ok hunchecked
    obtain ⟨hrequest, hheap⟩ := checkLayout_eq_ok hcheck
    have hmemory' : ∀ m, applyWrites m (loadElf image).events
        = (loadHeaders image).foldl (placeSegment image) m := by
      intro m
      rw [loadElf, hevents, applyWrites_append]
      exact hmemory m
    refine ⟨hmemory', hfits, fun m p hp => ?_, hpc, ?_, hrequest, hheap⟩
    · rw [hmemory' m]
      exact foldl_placeSegment_unchanged fun q hq => ⟨hfits q hq, hp q hq⟩
    · exact ⟨phdr, hmem, Phdr.hasEntry_true hentry⟩

/-- The small executable is loaded. -/
theorem loadElf_writes_smallElf : Loaded smallElf smallLayout (loadElf smallElf).events :=
  (loadElf_writes smallElf).2 smallLayout (by decide +kernel)

end CoralNPU.Sim
