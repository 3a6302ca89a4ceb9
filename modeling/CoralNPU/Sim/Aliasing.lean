import CoralNPU.Sim.Placement

namespace CoralNPU.Sim

open Lib

/-!
# Bindings that share bytes

* `KernelWrite`, `directWrites` — the writes of a kernel, and what they would do to the bound
  buffers in host memory.
* `deviceWrites`, `RunsKernel` — what they do to the copies in device memory, and a simulator
  that makes them.
* `SameEffect` — a dispatch through the simulator does what the writes would do directly.
* `sameEffect_iff` — it does exactly when no byte belongs to two writeable bindings.
-/

variable {wz : Nat}

/-! ### The writes of a kernel -/

/-- A byte that a kernel writes through a binding. -/
structure KernelWrite where
  binding : Nat
  offset : Nat
  value : UInt8

/-- The write stays inside of a writeable binding. -/
def KernelWrite.Valid (ranges : List HostRange) (bindingWriteable : Option (List Bool))
    (w : KernelWrite) : Prop :=
  isWriteable bindingWriteable w.binding = true ∧
    ∃ range, ranges[w.binding]? = some range ∧ w.offset < range.2.toNat

/-- The write, to the bound range of host memory. -/
def directWrite (ranges : List HostRange) (host : Memory) (w : KernelWrite) : Memory :=
  match (ranges[w.binding]?).bind Prod.fst with
  | some a => writeMem host (a + w.offset) [w.value]
  | none => host

/-- All writes, in order. -/
def directWrites (ranges : List HostRange) (host : Memory) (writes : List KernelWrite) : Memory :=
  writes.foldl (directWrite ranges) host

/-- The write, to the copy of the binding in device memory. -/
def deviceWrite (addresses : List UInt32) (m : Memory) (w : KernelWrite) : Memory :=
  match addresses[w.binding]? with
  | some address => writeMem m (address.toNat + w.offset) [w.value]
  | none => m

/-- All writes, in order. -/
def deviceWrites (addresses : List UInt32) (m : Memory) (writes : List KernelWrite) : Memory :=
  writes.foldl (deviceWrite addresses) m

/-- From `m` to `m'` the copies of the bindings change by the writes of the kernel only. -/
def RunsKernel (ranges : List HostRange) (addresses : List UInt32) (writes : List KernelWrite)
    (m m' : Memory) : Prop :=
  ∀ (i : Nat) (range : HostRange) (address : UInt32) (o : Nat), ranges[i]? = some range →
    addresses[i]? = some address → o < range.2.toNat →
    m' (address.toNat + o) = deviceWrites addresses m writes (address.toNat + o)

/-- **The simulator has the effect of the kernel**: whatever host memory holds and whatever the
    kernel writes inside its writeable bindings, a dispatch that succeeds leaves what the writes
    to the bound ranges would leave. -/
def SameEffect (file : List UInt8) (device : Memory) (state : InlineDispatchState wz)
    (bindingWriteable : Option (List Bool)) (ordinal localMemoryLength : UInt64) : Prop :=
  ∀ (host : Memory) (simulate : UInt32 → Memory → Memory) (writes : List KernelWrite),
    (∀ w ∈ writes, w.Valid state.ranges bindingWriteable) →
    (∀ layout m addresses,
      prepareInline file device state ordinal localMemoryLength host = .ok (layout, m) →
      ddrAddresses 0x80000000 (state.ranges.map Prod.snd) = .ok addresses →
      RunsKernel state.ranges addresses writes m (simulate layout.startPc m)) →
    (issueInline file device simulate state bindingWriteable ordinal localMemoryLength host).1
      = .ok () →
    (issueInline file device simulate state bindingWriteable ordinal localMemoryLength host).2
      = directWrites state.ranges host writes

/-- No byte belongs to two writeable bindings. -/
def Unshared (ranges : List HostRange) (bindingWriteable : Option (List Bool)) : Prop :=
  ∀ (i j : Nat) (range range' : HostRange), i ≠ j → ranges[i]? = some range → ranges[j]? = some range' →
    isWriteable bindingWriteable i = true → isWriteable bindingWriteable j = true →
    ∀ p, range.Covers p → ¬ range'.Covers p

/-! ### One write -/

/-- A write of one byte. -/
theorem writeMem_singleton (m : Memory) (a p : Nat) (v : UInt8) :
    writeMem m a [v] p = if p = a then v else m p := by
  split
  next h =>
    subst h
    show (if p ≤ p then [v].getD (p - p) (m p) else m p) = v
    rw [if_pos (Nat.le_refl p), Nat.sub_self]
    rfl
  next h =>
    apply writeMem_of_not_has
    rintro ⟨hlo, hhi⟩
    simp only [List.length_singleton] at hlo hhi
    omega

theorem directWrite_apply {ranges : List HostRange} {host : Memory} {w : KernelWrite} {p : Nat} :
    directWrite ranges host w p
      = if (∃ a, (ranges[w.binding]?).bind Prod.fst = some a ∧ p = a + w.offset) then w.value
        else host p := by
  unfold directWrite
  cases (ranges[w.binding]?).bind Prod.fst with
  | none => simp
  | some a => simp [writeMem_singleton]

theorem deviceWrite_apply {addresses : List UInt32} {m : Memory} {w : KernelWrite} {p : Nat} :
    deviceWrite addresses m w p
      = if (∃ address, addresses[w.binding]? = some address ∧ p = address.toNat + w.offset)
        then w.value else m p := by
  unfold deviceWrite
  cases addresses[w.binding]? with
  | none => simp
  | some address => simp [writeMem_singleton]

/-- Writes that all miss an address keep it. -/
theorem directWrites_unchanged {ranges : List HostRange} {writes : List KernelWrite} {p : Nat} :
    ∀ {host : Memory}, (∀ w ∈ writes, ∀ a, (ranges[w.binding]?).bind Prod.fst = some a →
      p ≠ a + w.offset) → directWrites ranges host writes p = host p := by
  induction writes with
  | nil => exact fun _ => rfl
  | cons w writes ih =>
    intro host h
    rw [directWrites, List.foldl_cons, ← directWrites,
      ih fun w' hw' => h w' (List.mem_cons_of_mem w hw'), directWrite_apply, if_neg]
    rintro ⟨a, ha, hp⟩
    exact h w List.mem_cons_self a ha hp

theorem deviceWrites_unchanged {addresses : List UInt32} {writes : List KernelWrite} {p : Nat} :
    ∀ {m : Memory}, (∀ w ∈ writes, ∀ address, addresses[w.binding]? = some address →
      p ≠ address.toNat + w.offset) → deviceWrites addresses m writes p = m p := by
  induction writes with
  | nil => exact fun _ => rfl
  | cons w writes ih =>
    intro m h
    rw [deviceWrites, List.foldl_cons, ← deviceWrites,
      ih fun w' hw' => h w' (List.mem_cons_of_mem w hw'), deviceWrite_apply, if_neg]
    rintro ⟨address, ha, hp⟩
    exact h w List.mem_cons_self address ha hp

/-- The two kinds of writes keep an address of host memory and its copy equal, when each write
    meets both or neither. -/
theorem deviceWrites_eq_directWrites {ranges : List HostRange} {addresses : List UInt32}
    {writes : List KernelWrite} {p q : Nat} :
    ∀ {host m : Memory}, m q = host p →
      (∀ w ∈ writes, (∃ address, addresses[w.binding]? = some address ∧
          q = address.toNat + w.offset) ↔
        ∃ a, (ranges[w.binding]?).bind Prod.fst = some a ∧ p = a + w.offset) →
      deviceWrites addresses m writes q = directWrites ranges host writes p := by
  induction writes with
  | nil => exact fun h _ => h
  | cons w writes ih =>
    intro host m h hboth
    rw [deviceWrites, directWrites, List.foldl_cons, List.foldl_cons, ← deviceWrites,
      ← directWrites]
    apply ih
    · rw [deviceWrite_apply, directWrite_apply, h]
      simp only [hboth w List.mem_cons_self]
    · exact fun w' hw' => hboth w' (List.mem_cons_of_mem w hw')

/-! ### Copying back -/

/-- A byte of several writeable bindings is copied from the last of them. -/
theorem copyBack_last {bindingWriteable : Option (List Bool)} {device : Memory} {p : Nat}
    {ranges : List (HostRange × UInt32)} :
    ∀ {i k : Nat} {host : Memory} {range : HostRange} {address : UInt32} {a : Nat},
      ranges[k]? = some (range, address) → isWriteable bindingWriteable (i + k) = true →
      range.1 = some a → a ≤ p → p < a + range.2.toNat →
      (∀ j entry, k < j → ranges[j]? = some entry →
        isWriteable bindingWriteable (i + j) = true → ¬ entry.1.Covers p) →
      copyBack bindingWriteable device i ranges host p = device (address.toNat + (p - a)) := by
  induction ranges with
  | nil => intro i k host range address a hk; cases hk
  | cons entry ranges ih =>
    intro i k host range address a hk hwriteable ha hlo hhi hlast
    cases k with
    | zero =>
      obtain rfl := Option.some.inj hk
      have hne : range.2 ≠ 0 := by
        intro hzero
        rw [hzero] at hhi
        exact absurd hhi (Nat.not_lt.mpr hlo)
      rw [copyBack, copyBack_unchanged, if_pos ⟨hne, hwriteable⟩]
      · have hread : ∀ o, o < range.2.toNat →
            (readMem device address.toNat range.2.toNat)[o]? = some (device (address.toNat + o)) := by
          intro o ho
          rw [readMem, List.getElem?_map, List.getElem?_range ho]
          rfl
        rw [readInto, ha]
        show (if a ≤ p then _ else _) = _
        rw [if_pos hlo, List.getD_eq_getElem?_getD, hread _ (by omega)]
        rfl
      · intro j entry hj hw
        exact hlast (j + 1) entry (Nat.succ_pos j) hj
          (by rwa [show i + (j + 1) = i + 1 + j by omega])
    | succ k =>
      obtain ⟨range₀, address₀⟩ := entry
      rw [copyBack]
      apply ih (k := k) hk (by rwa [show i + 1 + k = i + (k + 1) by omega]) ha hlo hhi
      intro j entry hj hget hw
      exact hlast (j + 1) entry (Nat.succ_lt_succ hj) hget
        (by rwa [show i + (j + 1) = i + 1 + j by omega])

/-- The addresses of the allocator are the starts of the planned blocks. -/
theorem ddrAddresses_bump {lengths : List UInt64} :
    ∀ {cursor : UInt32} {addresses : List UInt32}, ddrAddresses cursor lengths = .ok addresses →
      addresses.map UInt32.toNat
        = (bump 64 cursor.toNat (lengths.map UInt64.toNat)).map Region.first := by
  induction lengths with
  | nil =>
    intro cursor addresses h
    obtain rfl := Except.ok.inj h
    rfl
  | cons length lengths ih =>
    intro cursor addresses h
    obtain ⟨⟨address, cursor'⟩, halloc, h⟩ := bind_eq_ok.mp h
    obtain ⟨rest, hrest, h⟩ := bind_eq_ok.mp h
    obtain rfl := Except.ok.inj h
    obtain ⟨haddress, hend, -⟩ :=
      allocate_eq_ok_alignUp (by omega) ddr_alignment (by decide) halloc
    rw [List.map_cons, List.map_cons, bump, List.map_cons, ih hrest,
      show alignUp 64 cursor.toNat = address.toNat from haddress.symm, hend]

/-- The block of a binding starts at its address. -/
theorem block_of_address {ranges : List HostRange} {addresses : List UInt32}
    (haddresses : ddrAddresses 0x80000000 (ranges.map Prod.snd) = .ok addresses)
    {i : Nat} {range : HostRange} {address : UInt32} (hi : ranges[i]? = some range)
    (ha : addresses[i]? = some address) :
    (bump 64 0x80000000 ((ranges.map Prod.snd).map UInt64.toNat))[i]?
      = some ⟨address.toNat, range.2.toNat⟩ := by
  have hfirst := congrArg (fun firsts => firsts[i]?) (ddrAddresses_bump haddresses)
  simp only [List.getElem?_map, ha, Option.map_some] at hfirst
  obtain ⟨block, hblock, hfirst⟩ := Option.map_eq_some_iff.mp hfirst.symm
  have hlength := length_of_getElem?_bump hblock
  rw [List.map_map, List.getElem?_map, hi] at hlength
  have hlength : range.2.toNat = block.length := Option.some.inj hlength
  rw [← hfirst, hlength]
  exact hblock

/-- Every binding has an address. -/
theorem exists_address {ranges : List HostRange} {addresses : List UInt32}
    (haddresses : ddrAddresses 0x80000000 (ranges.map Prod.snd) = .ok addresses)
    {i : Nat} {range : HostRange} (hi : ranges[i]? = some range) :
    ∃ address, addresses[i]? = some address := by
  have hlt : i < addresses.length := by
    rw [length_of_ddrAddresses haddresses, List.length_map]
    exact (List.getElem?_eq_some_iff.mp hi).1
  exact ⟨_, List.getElem?_eq_getElem hlt⟩

/-- The addresses in the blocks of two bindings are different. -/
theorem address_ne {ranges : List HostRange} {addresses : List UInt32}
    (haddresses : ddrAddresses 0x80000000 (ranges.map Prod.snd) = .ok addresses)
    {i j : Nat} (hij : i ≠ j) {range range' : HostRange} {address address' : UInt32}
    (hi : ranges[i]? = some range) (hj : ranges[j]? = some range')
    (ha : addresses[i]? = some address) (ha' : addresses[j]? = some address') {o o' : Nat}
    (ho : o < range.2.toNat) (ho' : o' < range'.2.toNat) :
    address.toNat + o ≠ address'.toNat + o' := by
  intro heq
  apply Region.apart_of_pairwise (bump_pairwise (by decide)) hij
    (block_of_address haddresses hi ha) (block_of_address haddresses hj ha') (address.toNat + o)
  · exact ⟨Nat.le_add_right _ _, Nat.add_lt_add_left ho _⟩
  · rw [heq]
    exact ⟨Nat.le_add_right _ _, Nat.add_lt_add_left ho' _⟩

/-! ### Without shared bytes -/

section Unshared

variable {file : List UInt8} {device : Memory} {state : InlineDispatchState wz}
  {bindingWriteable : Option (List Bool)} {ordinal localMemoryLength : UInt64}

/-- The writes of a kernel meet a byte of a writeable binding and its copy together. -/
theorem write_meets_iff (hunshared : Unshared state.ranges bindingWriteable)
    {addresses : List UInt32}
    (haddresses : ddrAddresses 0x80000000 (state.ranges.map Prod.snd) = .ok addresses)
    {i a p : Nat} {range : HostRange} {address : UInt32} (hi : state.ranges[i]? = some range)
    (hwriteable : isWriteable bindingWriteable i = true) (ha : addresses[i]? = some address)
    (hptr : range.1 = some a) (hlo : a ≤ p) (hhi : p < a + range.2.toNat) {w : KernelWrite}
    (hw : w.Valid state.ranges bindingWriteable) :
    (∃ address', addresses[w.binding]? = some address' ∧
        address.toNat + (p - a) = address'.toNat + w.offset) ↔
      ∃ a', (state.ranges[w.binding]?).bind Prod.fst = some a' ∧ p = a' + w.offset := by
  obtain ⟨hwriteable', range', hj, hoffset⟩ := hw
  rw [hj]
  show _ ↔ ∃ a', range'.1 = some a' ∧ p = a' + w.offset
  by_cases hij : w.binding = i
  · -- through the binding itself
    rw [hij] at hj ⊢
    obtain rfl : range = range' := Option.some.inj (hi.symm.trans hj)
    rw [ha, hptr]
    simp only [Option.some.injEq, exists_eq_left']
    omega
  · constructor
    · rintro ⟨address', ha', heq⟩
      exact absurd heq (address_ne haddresses (Ne.symm hij) hi hj ha ha' (by omega) hoffset)
    · rintro ⟨a', hptr', hp⟩
      have hcovers : range.Covers p := ⟨a, hptr, hlo, hhi⟩
      have hcovers' : range'.Covers p := ⟨a', hptr', by omega, by omega⟩
      exact absurd hcovers'
        (hunshared i w.binding range range' (Ne.symm hij) hi hj hwriteable hwriteable' p hcovers)

/-- Without shared bytes the copies do not matter. -/
theorem sameEffect_of_unshared (hunshared : Unshared state.ranges bindingWriteable) :
    SameEffect file device state bindingWriteable ordinal localMemoryLength := by
  intro host simulate writes hvalid hkernel hok
  rcases issueInline_cases file device simulate state bindingWriteable ordinal localMemoryLength
    host with ⟨failure, h⟩ | ⟨layout, m, addresses, hprep, -, haddresses, h⟩
  · rw [h] at hok
    cases hok
  rw [h]
  funext p
  show copyBack bindingWriteable _ 0 _ host p = _
  by_cases hcovered : ∃ i range, state.ranges[i]? = some range ∧
      isWriteable bindingWriteable i = true ∧ range.Covers p
  · obtain ⟨i, range, hi, hwriteable, a, hptr, hlo, hhi⟩ := hcovered
    obtain ⟨address, ha⟩ := exists_address haddresses hi
    have hblock : (state.plan layout localMemoryLength).blocks[i]? = _ :=
      block_of_address haddresses hi ha
    have hlast : copyBack bindingWriteable (simulate layout.startPc m) 0
        (state.ranges.zip addresses) host p
          = simulate layout.startPc m (address.toNat + (p - a)) := copyBack_last
      (List.getElem?_zip_eq_some.mpr ⟨hi, ha⟩) (by rwa [Nat.zero_add]) hptr hlo hhi
      (fun j entry hj hget hw => hunshared i j range entry.1 (Nat.ne_of_lt hj) hi
        (List.getElem?_zip_eq_some.mp hget).1 hwriteable (by rwa [Nat.zero_add] at hw) p
        ⟨a, hptr, hlo, hhi⟩)
    rw [hlast, hkernel layout m addresses hprep haddresses i range address (p - a) hi ha (by omega)]
    apply deviceWrites_eq_directWrites
    · have hcontents := prepareInline_contents hprep hi hblock hptr (o := p - a) (by omega)
      rw [Nat.add_sub_cancel' hlo] at hcontents
      exact hcontents
    · exact fun w hw =>
        write_meets_iff hunshared haddresses hi hwriteable ha hptr hlo hhi (hvalid w hw)
  · rw [copyBack_unchanged, directWrites_unchanged]
    · intro w hw a ha hp
      obtain ⟨hwriteable, range, hi, hoffset⟩ := hvalid w hw
      rw [hi] at ha
      exact hcovered ⟨w.binding, range, hi, hwriteable, a, ha, by omega, by omega⟩
    · intro j entry hj hw hcovers
      rw [List.getElem?_zip_eq_some] at hj
      exact hcovered ⟨j, entry.1, hj.1, by rwa [Nat.zero_add] at hw, hcovers⟩

end Unshared

/-! ### With shared bytes -/

/-- The host takes a request that is complete for a success. -/
theorem checkResult_setStatus {layout : ElfLayout} {m : Memory}
    (hmagic : (loadRequest m layout.dispatchRequestAddr.toNat).magic = dispatchMagic)
    (hversion : (loadRequest m layout.dispatchRequestAddr.toNat).version = dispatchVersion)
    (hcode : (loadRequest m layout.dispatchRequestAddr.toNat).returnCode = 0) :
    checkResult layout (setStatus m layout.dispatchRequestAddr.toNat .complete) = .ok () := by
  simp only [checkResult, loadRequest_setStatus]
  rw [if_neg (by simp [hmagic, hversion]), if_neg (by simp), if_neg (by simp [hcode])]

/-- A property of some index below a bound has a last one. -/
theorem exists_last {P : Nat → Prop} {n j : Nat} (hj : P j) (hlt : ∀ k, P k → k < n) :
    ∃ k, j ≤ k ∧ P k ∧ ∀ k', k < k' → ¬ P k' := by
  classical
  have hle := Nat.le_of_lt (hlt j hj)
  refine ⟨Nat.findGreatest P n, Nat.le_findGreatest hle hj, Nat.findGreatest_spec hle hj, ?_⟩
  intro k' hk hP
  exact Nat.findGreatest_is_greatest hk (Nat.le_of_lt (hlt k' hP)) hP

section Shared

variable {file : List UInt8} {device : Memory} {state : InlineDispatchState wz}
  {bindingWriteable : Option (List Bool)} {ordinal localMemoryLength : UInt64} {host : Memory}
  {layout : ElfLayout} {m : Memory}

/-- The device memory is below the bindings what it was, whatever a kernel writes to them. -/
theorem deviceWrites_below {addresses : List UInt32}
    (haddresses : ddrAddresses 0x80000000 (state.ranges.map Prod.snd) = .ok addresses)
    (writes : List KernelWrite) {p : Nat} (hp : p < ddrFirst) :
    deviceWrites addresses m writes p = m p := by
  apply deviceWrites_unchanged
  intro w _ address ha hpaddress
  have hfirst := List.mem_map_of_mem (f := UInt32.toNat) (List.mem_of_getElem? ha)
  rw [ddrAddresses_bump haddresses] at hfirst
  obtain ⟨block, hblock, hfirst⟩ := List.mem_map.mp hfirst
  have hle := bump_first_le (by decide) block hblock
  have hddr : (0x80000000 : UInt32).toNat = ddrFirst := rfl
  omega

/-- A simulator that makes the writes of a kernel and completes the request. -/
def kernelRun (layout : ElfLayout) (addresses : List UInt32) (writes : List KernelWrite)
    (_ : UInt32) (m : Memory) : Memory :=
  setStatus (deviceWrites addresses m writes) layout.dispatchRequestAddr.toNat .complete

/-- The copies of the bindings after that run. -/
theorem kernelRun_block (hlayout : checkLayout layout = .ok ())
    (hsize : layout.dispatchRequestSize.toNat = requestSize) (addresses : List UInt32)
    (writes : List KernelWrite) (pc : UInt32) {p : Nat} (hp : ddrFirst ≤ p) :
    kernelRun layout addresses writes pc m p = deviceWrites addresses m writes p := by
  obtain ⟨⟨-, hend⟩, -⟩ := checkLayout_eq_ok hlayout
  have hdtcm : dtcmStart.toNat + dtcmSize.toNat ≤ ddrFirst := by decide
  have hrequest : requestSize = 60 := rfl
  exact store_agreeOn (b := p) (k := 1) (by omega) p (Nat.le_refl p) (Nat.lt_succ_self p)

/-- The dispatch with that run succeeds. -/
theorem issueInline_kernelRun
    (h : prepareInline file device state ordinal localMemoryLength host = .ok (layout, m))
    {addresses : List UInt32}
    (haddresses : ddrAddresses 0x80000000 (state.ranges.map Prod.snd) = .ok addresses)
    (writes : List KernelWrite) :
    issueInline file device (kernelRun layout addresses writes) state bindingWriteable ordinal
        localMemoryLength host
      = (.ok (), copyBack bindingWriteable (kernelRun layout addresses writes layout.startPc m) 0
          (state.ranges.zip addresses) host) := by
  obtain ⟨-, hlayout, hsize, m₃, -, hm⟩ := prepareInline_placed h
  obtain ⟨⟨-, hend⟩, -⟩ := checkLayout_eq_ok hlayout
  have hdtcm : dtcmStart.toNat + dtcmSize.toNat ≤ ddrFirst := by decide
  -- the kernel leaves the request alone
  have hrequest : loadRequest (deviceWrites addresses m writes) layout.dispatchRequestAddr.toNat
      = loadRequest m layout.dispatchRequestAddr.toNat := by
    apply loadRequest_congr
    intro p _ hp
    exact deviceWrites_below haddresses writes (by omega)
  have hready : (loadRequest m layout.dispatchRequestAddr.toNat).magic = dispatchMagic ∧
      (loadRequest m layout.dispatchRequestAddr.toNat).version = dispatchVersion ∧
      (loadRequest m layout.dispatchRequestAddr.toNat).returnCode = 0 := by
    rw [hm, loadRequest_storeRequest]
    exact ⟨rfl, rfl, rfl⟩
  have hcheck : checkResult layout (kernelRun layout addresses writes layout.startPc m) = .ok () :=
    checkResult_setStatus (by rw [hrequest, hready.1]) (by rw [hrequest, hready.2.1])
      (by rw [hrequest, hready.2.2])
  simp only [issueInline, h, hcheck]
  exact readBackInline_addresses haddresses

/-- A byte that two writeable bindings share keeps the stale copy of the later one. -/
theorem not_sameEffect_of_shared
    (h : prepareInline file device state ordinal localMemoryLength host = .ok (layout, m))
    {i j p : Nat} (hij : i < j) {range range' : HostRange} (hi : state.ranges[i]? = some range)
    (hj : state.ranges[j]? = some range') (hwi : isWriteable bindingWriteable i = true)
    (hwj : isWriteable bindingWriteable j = true) (hp : range.Covers p) (hp' : range'.Covers p) :
    ¬ SameEffect file device state bindingWriteable ordinal localMemoryLength := by
  intro hsame
  obtain ⟨-, hlayout, hsize, m₃, -, -⟩ := prepareInline_placed h
  obtain ⟨addresses, -, -, -, -, -, haddresses, -⟩ := prepareInline_addresses h
  obtain ⟨k, hjk, ⟨last, hk, hwk, a', hptr', hlo', hhi'⟩, hlast⟩ :=
    exists_last (P := fun k => ∃ r, state.ranges[k]? = some r ∧
      isWriteable bindingWriteable k = true ∧ r.Covers p) (n := state.ranges.length)
      ⟨range', hj, hwj, hp'⟩ (fun k hk => (List.getElem?_eq_some_iff.mp hk.choose_spec.1).1)
  obtain ⟨a, hptr, hlo, hhi⟩ := hp
  obtain ⟨address, ha⟩ := exists_address haddresses hk
  have hblocks : ∀ (j : Nat) (r : HostRange) (b : UInt32) (o : Nat),
      state.ranges[j]? = some r → addresses[j]? = some b → ddrFirst ≤ b.toNat + o := by
    intro j r b o hj hb
    have hle := bump_first_le (by decide) _
      (List.mem_of_getElem? (block_of_address haddresses hj hb))
    exact Nat.le_trans hle (Nat.le_add_right _ _)
  -- the kernel changes the byte through binding `i`
  have heffect := hsame host
    (kernelRun layout addresses [⟨i, p - a, if host p = 0 then 1 else 0⟩])
    [⟨i, p - a, if host p = 0 then 1 else 0⟩]
    (List.forall_mem_singleton.mpr ⟨hwi, range, hi, by simp only; omega⟩)
    (by
      intro layout' m' addresses' hprep' haddresses' j r b o hj hb _
      obtain ⟨rfl, rfl⟩ := Prod.mk.inj (Except.ok.inj (h.symm.trans hprep'))
      obtain rfl := Except.ok.inj (haddresses.symm.trans haddresses')
      exact kernelRun_block hlayout hsize addresses _ _ (hblocks j r b o hj hb))
    (by rw [issueInline_kernelRun h haddresses])
  have hbyte := congrFun heffect p
  have hdirect : directWrites state.ranges host [⟨i, p - a, if host p = 0 then 1 else 0⟩] p
      = if host p = 0 then 1 else 0 := by
    show directWrite state.ranges host _ p = _
    rw [directWrite_apply, if_pos]
    rw [hi]
    exact ⟨a, hptr, by simp only; omega⟩
  rw [issueInline_kernelRun h haddresses, hdirect] at hbyte
  -- it is copied back from binding `k`, where it has its old value
  have hback : copyBack bindingWriteable
      (kernelRun layout addresses [⟨i, p - a, if host p = 0 then 1 else 0⟩] layout.startPc m) 0
      (state.ranges.zip addresses) host p
        = kernelRun layout addresses [⟨i, p - a, if host p = 0 then 1 else 0⟩] layout.startPc m
          (address.toNat + (p - a')) := copyBack_last
    (List.getElem?_zip_eq_some.mpr ⟨hk, ha⟩)
    (by rwa [Nat.zero_add]) hptr' hlo' hhi' (by
      intro j entry hj hget hw hcovers
      exact hlast j hj ⟨entry.1, (List.getElem?_zip_eq_some.mp hget).1,
        by rwa [Nat.zero_add] at hw, hcovers⟩)
  have hstale : deviceWrites addresses m [⟨i, p - a, if host p = 0 then 1 else 0⟩]
      (address.toNat + (p - a')) = m (address.toNat + (p - a')) := by
    apply deviceWrites_unchanged
    intro w hw b hb
    obtain rfl := List.mem_singleton.mp hw
    exact address_ne haddresses (by omega : k ≠ i) hk hi ha hb (by omega) (by simp only; omega)
  have hcontents := prepareInline_contents h hk (block_of_address haddresses hk ha) hptr'
    (o := p - a') (by omega)
  have hbyte : copyBack bindingWriteable _ 0 (state.ranges.zip addresses) host p = _ := hbyte
  rw [hback, kernelRun_block hlayout hsize _ _ _ (hblocks k last address _ hk ha), hstale] at hbyte
  have hcontents : m (address.toNat + (p - a')) = host (a' + (p - a')) := hcontents
  rw [hcontents, Nat.add_sub_cancel' hlo'] at hbyte
  split at hbyte
  next hzero =>
    rw [hzero] at hbyte
    exact absurd hbyte (by decide)
  next hne => exact hne hbyte

/-- **When the simulator has the effect of the kernel**: exactly when no byte belongs to two
    writeable bindings. -/
theorem sameEffect_iff
    (h : prepareInline file device state ordinal localMemoryLength host = .ok (layout, m)) :
    SameEffect file device state bindingWriteable ordinal localMemoryLength ↔
      Unshared state.ranges bindingWriteable := by
  refine ⟨fun hsame i j range range' hij hi hj hwi hwj p hp hp' => ?_, sameEffect_of_unshared⟩
  rcases Nat.lt_or_gt_of_ne hij with hlt | hlt
  · exact not_sameEffect_of_shared h hlt hi hj hwi hwj hp hp' hsame
  · exact not_sameEffect_of_shared h hlt hj hi hwj hwi hp' hp hsame

end Shared

/-! ### Two bindings -/

/-- A dispatch of one workgroup with bindings of four bytes at `a` and at `b`. -/
def twoBindings (a b : Nat) : InlineDispatchState 16 where
  workgroupSizeX := 1
  workgroupSizeY := 1
  workgroupSizeZ := 1
  constantCount := 0
  workgroupCountX := 1
  workgroupCountY := 1
  workgroupCountZ := 1
  maxConcurrency := 1
  bindingCount := 2
  constants := none
  bindingPtrs := some [some a, some b]
  bindingLengths := some [4, 4]

theorem exists_prepared_twoBindings {a b : Nat}
    (h : (prepareInline smallElf (fun _ => 0) (twoBindings a b) 0 0 (fun _ => 0)).isOk = true) :
    ∃ layout m, prepareInline smallElf (fun _ => 0) (twoBindings a b) 0 0 (fun _ => 0)
      = .ok (layout, m) := by
  cases hprep : prepareInline smallElf (fun _ => 0) (twoBindings a b) 0 0 (fun _ => 0) with
  | error failure =>
    rw [hprep] at h
    cases h
  | ok prepared => exact ⟨prepared.1, prepared.2, rfl⟩

/-- Bindings side by side. -/
theorem sameEffect_iff_sideBySide :
    SameEffect smallElf (fun _ => 0) (twoBindings 4096 4100) none 0 0 := by
  obtain ⟨layout, m, h⟩ := exists_prepared_twoBindings (a := 4096) (b := 4100) (by decide +kernel)
  apply (sameEffect_iff h).mpr
  have hranges : ∀ k range, (twoBindings 4096 4100).ranges[k]? = some range →
      range = (some (4096 + 4 * k), 4) := by
    intro k range hk
    rcases k with _ | _ | k
    · exact (Option.some.inj hk).symm
    · exact (Option.some.inj hk).symm
    · cases hk
  rintro i j range range' hij hi hj - - p ⟨a, ha, hlo, hhi⟩ ⟨a', ha', hlo', hhi'⟩
  rw [hranges i range hi] at ha hhi
  rw [hranges j range' hj] at ha' hhi'
  have hfour : (4 : UInt64).toNat = 4 := rfl
  simp only [Option.some.injEq, hfour] at ha ha' hhi hhi'
  omega

/-- Bindings that overlap in two bytes, both writeable. -/
theorem overlap_not_sameEffect :
    ¬ SameEffect smallElf (fun _ => 0) (twoBindings 4096 4098) none 0 0 := by
  obtain ⟨layout, m, h⟩ := exists_prepared_twoBindings (a := 4096) (b := 4098) (by decide +kernel)
  exact not_sameEffect_of_shared h (i := 0) (j := 1) (p := 4098) (by decide) rfl rfl rfl rfl
    ⟨4096, rfl, by decide, by decide⟩ ⟨4098, rfl, by decide, by decide⟩

end CoralNPU.Sim
