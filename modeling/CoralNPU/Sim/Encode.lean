import CoralNPU.Sim.Host

namespace CoralNPU.Sim

open Lib

/-!
# What encoding a dispatch guarantees

One lemma for each part of `encodeDispatch`, and the two that the proofs about whole
dispatches use:

* `placeConstants_eq_ok`, `allocateBindingTables_eq_ok`, `placeLocalMemory_agreeOn`,
  `placeBindings_eq_ok` — where a part puts its data, and what it leaves alone;
* `encodeDispatch_request` — the request in the resulting memory;
* `encodeDispatch_eq_ok` — the request together with the arrays and buffers it refers to.
-/

variable {wz : Nat}

/-! ### What encoding guarantees to the firmware -/

/-- The alignment of the heap is a power of two. -/
theorem dtcm_alignment : (4 : UInt32).toNat = 2 ^ 2 := rfl

/-- So is that of the bindings. -/
theorem ddr_alignment : (64 : UInt32).toNat = 2 ^ 6 := rfl

/-- A value of 32 bits, in 64. -/
theorem toUInt64_toNat_lt (v : UInt32) : v.toUInt64.toNat < 2 ^ 32 := by
  rw [UInt32.toNat_toUInt64]
  exact v.toNat_lt

/-- Four times a small value does not wrap around. -/
theorem toUInt64_mul_four_toNat {v : UInt64} (hv : v.toNat < 2 ^ 16) :
    (v * 4).toNat = 4 * v.toNat := by
  rw [UInt64.toNat_mul, show (4 : UInt64).toNat = 4 from rfl]
  omega

/-- So the constants have four bytes each. -/
theorem constants_bytes (state : HostDispatchState wz) :
    (state.constantCount.toUInt64 * 4).toNat = 4 * state.constantCount.toNat := by
  rw [toUInt64_mul_four_toNat (by simpa using state.constantCount.toNat_lt), UInt16.toNat_toUInt64]

/-- And the entries of a binding table. -/
theorem bindings_bytes (state : HostDispatchState wz) :
    (state.bindingCount.toUInt64 * 4).toNat = 4 * state.bindingCount.toNat := by
  have hlt : state.bindingCount.toUInt64.toNat < 2 ^ 16 := by
    have := state.bindingCount.toNat_lt
    rw [UInt8.toNat_toUInt64]
    omega
  rw [toUInt64_mul_four_toNat hlt, UInt8.toNat_toUInt64]

/-- The two ways through `placeConstants`. -/
theorem placeConstants_cases {layout : ElfLayout} {state : HostDispatchState wz}
    {m m' : Memory} {cursor cursor' address : UInt32}
    (h : placeConstants layout state m cursor = .ok (m', cursor', address)) :
    (state.constantCount ≠ 0 ∧
      allocateDtcm cursor layout.heapEndAddr 4 (state.constantCount.toUInt64 * 4)
        = .ok (address, cursor') ∧
      m' = storeArray 4 m address.toNat
        (((state.constants.getD []).take state.constantCount.toNat).map UInt32.toNat)) ∨
    (state.constantCount = 0 ∧ m' = m ∧ cursor' = cursor ∧ address = 0) := by
  unfold placeConstants at h
  split at h
  next hcount =>
    obtain ⟨⟨a, c⟩, halloc, hrest⟩ := bind_eq_ok.mp h
    simp only [pure_eq_ok, Except.ok.injEq, Prod.mk.injEq] at hrest
    obtain ⟨rfl, rfl, rfl⟩ := hrest
    exact Or.inl ⟨hcount, halloc, rfl⟩
  next hcount =>
    simp only [pure_eq_ok, Except.ok.injEq, Prod.mk.injEq] at h
    obtain ⟨rfl, rfl, rfl⟩ := h
    exact Or.inr ⟨not_not.mp hcount, rfl, rfl, rfl⟩

/-- The two ways through `allocateBindingTables`. -/
theorem allocateBindingTables_cases {layout : ElfLayout} {state : HostDispatchState wz}
    {cursor cursor' ptrs lengths : UInt32}
    (h : allocateBindingTables layout state cursor = .ok (cursor', ptrs, lengths)) :
    (state.bindingCount ≠ 0 ∧ ∃ border,
      allocateDtcm cursor layout.heapEndAddr 4 (state.bindingCount.toUInt64 * 4)
        = .ok (ptrs, border) ∧
      allocateDtcm border layout.heapEndAddr 4 (state.bindingCount.toUInt64 * 4)
        = .ok (lengths, cursor')) ∨
    (state.bindingCount = 0 ∧ cursor' = cursor ∧ ptrs = 0 ∧ lengths = 0) := by
  unfold allocateBindingTables at h
  split at h
  next hcount =>
    obtain ⟨⟨p, border⟩, hptrs, hrest⟩ := bind_eq_ok.mp h
    obtain ⟨⟨l, c⟩, hlengths, hrest⟩ := bind_eq_ok.mp hrest
    simp only [pure_eq_ok, Except.ok.injEq, Prod.mk.injEq] at hrest
    obtain ⟨rfl, rfl, rfl⟩ := hrest
    exact Or.inl ⟨hcount, border, hptrs, hlengths⟩
  next hcount =>
    simp only [pure_eq_ok, Except.ok.injEq, Prod.mk.injEq] at h
    obtain ⟨rfl, rfl, rfl⟩ := h
    exact Or.inr ⟨not_not.mp hcount, rfl, rfl, rfl⟩

/-- The array of the constants, `cursor` before and `cursor'` after it. -/
structure ConstantsPlaced (layout : ElfLayout) (state : HostDispatchState wz)
    (cursor cursor' address : UInt32) : Prop where
  /-- The heap grows up to its end at most. -/
  cursor_le : cursor.toNat ≤ cursor'.toNat
  limit : cursor'.toNat ≤ max cursor.toNat layout.heapEndAddr.toNat
  /-- The array lies between the cursors. -/
  block : state.constantCount ≠ 0 →
    cursor.toNat ≤ address.toNat ∧ address.toNat + 4 * state.constantCount.toNat ≤ cursor'.toNat

/-- Constants that are placed lie in the heap. -/
theorem placeConstants_eq_ok {layout : ElfLayout} {state : HostDispatchState wz}
    {m m' : Memory} {cursor cursor' address : UInt32}
    (h : placeConstants layout state m cursor = .ok (m', cursor', address)) :
    ConstantsPlaced layout state cursor cursor' address := by
  rcases placeConstants_cases h with ⟨-, halloc, -⟩ | ⟨hcount, -, rfl, -⟩
  · obtain ⟨hlo, hend, hlim⟩ :=
      allocate_eq_ok (by omega) dtcm_alignment (toUInt64_toNat_lt _) halloc
    rw [constants_bytes] at hend
    rw [UInt32.toNat_toUInt64] at hlim
    exact ⟨by omega, by omega, fun _ => ⟨hlo, by omega⟩⟩
  · exact ⟨Nat.le_refl _, by omega, fun hne => absurd hcount hne⟩

/-- The constants can be read back. -/
theorem placeConstants_holds {layout : ElfLayout} {state : HostDispatchState wz} {m m' : Memory}
    {cursor cursor' address : UInt32}
    (h : placeConstants layout state m cursor = .ok (m', cursor', address)) :
    loadArray 4 m' address.toNat ((state.constants.getD []).take state.constantCount.toNat).length
      = ((state.constants.getD []).take state.constantCount.toNat).map UInt32.toNat := by
  rcases placeConstants_cases h with ⟨-, -, hm⟩ | ⟨hcount, -⟩
  · -- 32-bit values survive the store unchanged
    have hload := loadArray_storeArray 4
      (((state.constants.getD []).take state.constantCount.toNat).map UInt32.toNat) m address.toNat
    rw [List.length_map, List.map_map] at hload
    rw [hm, hload]
    apply List.map_congr_left
    intro v _
    exact Nat.mod_eq_of_lt v.toNat_lt
  · rw [hcount]
    rfl

/-- The two binding tables, `cursor` before and `cursor'` after them, in this order. -/
structure TablesAllocated (layout : ElfLayout) (state : HostDispatchState wz)
    (cursor cursor' ptrs lengths : UInt32) : Prop where
  cursor_le : cursor.toNat ≤ cursor'.toNat
  limit : cursor'.toNat ≤ max cursor.toNat layout.heapEndAddr.toNat
  block : state.bindingCount ≠ 0 →
    cursor.toNat ≤ ptrs.toNat ∧ ptrs.toNat + 4 * state.bindingCount.toNat ≤ lengths.toNat ∧
      lengths.toNat + 4 * state.bindingCount.toNat ≤ cursor'.toNat

/-- So do binding tables that are allocated. -/
theorem allocateBindingTables_eq_ok {layout : ElfLayout} {state : HostDispatchState wz}
    {cursor cursor' ptrs lengths : UInt32}
    (h : allocateBindingTables layout state cursor = .ok (cursor', ptrs, lengths)) :
    TablesAllocated layout state cursor cursor' ptrs lengths := by
  rcases allocateBindingTables_cases h with ⟨-, border, hptrs, hlengths⟩ | ⟨hcount, rfl, -⟩
  · obtain ⟨hlo, hend, hlim⟩ :=
      allocate_eq_ok (by omega) dtcm_alignment (toUInt64_toNat_lt _) hptrs
    obtain ⟨hlo', hend', hlim'⟩ :=
      allocate_eq_ok (by omega) dtcm_alignment (toUInt64_toNat_lt _) hlengths
    rw [UInt32.toNat_toUInt64] at hlim hlim'
    rw [bindings_bytes] at hend hend'
    exact ⟨by omega, by omega, fun _ => ⟨hlo, by omega, by omega⟩⟩
  · exact ⟨Nat.le_refl _, by omega, fun hne => absurd hcount hne⟩

/-- Zeroing writes zeros. -/
theorem zeroMem_eq (size : Nat) :
    ∀ (m : Memory) (address : Nat),
      zeroMem m address size = writeMem m address (List.replicate size 0) := by
  induction size using Nat.strongRecOn with
  | ind size ih =>
    intro m address
    rw [zeroMem]
    split
    next hzero => rw [hzero, List.replicate_zero, writeMem_nil]
    next hsize =>
      simp only
      have hle : (if size < 256 then size else 256) ≤ size := by split <;> omega
      have hwrite := writeMem_append m address
        (List.replicate (if size < 256 then size else 256) 0)
        (List.replicate (size - if size < 256 then size else 256) 0)
      rw [List.length_replicate, List.replicate_append_replicate, Nat.add_sub_cancel' hle] at hwrite
      rw [ih _ (by split <;> omega), hwrite]

/-- Zeroing the local memory leaves everything below the heap cursor alone. -/
theorem placeLocalMemory_agreeOn {layout : ElfLayout} {localMemoryLength : UInt64}
    {m m' : Memory} {cursor address : UInt32}
    (h : placeLocalMemory layout localMemoryLength m cursor = .ok (m', address)) {b k : Nat}
    (hb : b + k ≤ cursor.toNat) : AgreeOn m' m b k := by
  unfold placeLocalMemory at h
  split at h
  · obtain ⟨⟨a, c⟩, halloc, hrest⟩ := bind_eq_ok.mp h
    simp only [pure_eq_ok, Except.ok.injEq, Prod.mk.injEq] at hrest
    obtain ⟨hlo, -, -⟩ := allocate_eq_ok (by omega) ddr_alignment (toUInt64_toNat_lt _) halloc
    rw [← hrest.1]
    rw [zeroMem_eq]
    exact writeMem_agreeOn (Or.inl (by omega))
  · simp only [pure_eq_ok, Except.ok.injEq, Prod.mk.injEq] at h
    rw [h.1]
    exact AgreeOn.refl m' b k

/-- Row `i` of the binding tables at `ptrs` and `lengths` names the block at `address`, which
    holds the contents of the binding. -/
structure BindingAt (m : Memory) (ptrs lengths i address : Nat)
    (binding : Option (List UInt8) × UInt64) : Prop where
  ptr : load 4 m (ptrs + 4 * i) = address
  length : load 4 m (lengths + 4 * i) = binding.2.toNat
  contents : readMem m address binding.2.toNat = binding.1.getD []

/-- A binding stays where it is while its row and its block do. -/
theorem BindingAt.congr {m m' : Memory} {ptrs lengths i address : Nat}
    {binding : Option (List UInt8) × UInt64} (h : BindingAt m ptrs lengths i address binding)
    (hptrs : AgreeOn m' m (ptrs + 4 * i) 4) (hlengths : AgreeOn m' m (lengths + 4 * i) 4)
    (hblock : AgreeOn m' m address binding.2.toNat) :
    BindingAt m' ptrs lengths i address binding :=
  ⟨hptrs.load.trans h.ptr, hlengths.load.trans h.length, hblock.readMem.trans h.contents⟩

/-- The first address of a binding, and the first address after all of them. -/
def ddrFirst : Nat := 0x80000000

/-- See `ddrFirst`. -/
def ddrLimit : Nat := 0xC0000000

/-- The binding of row `i` is placed within the DDR memory. -/
def BindingPlaced (m : Memory) (ptrs lengths i : Nat)
    (binding : Option (List UInt8) × UInt64) : Prop :=
  ∃ address, ddrFirst ≤ address ∧ address + binding.2.toNat ≤ ddrLimit ∧
    BindingAt m ptrs lengths i address binding

/-- The buffers of the bindings are as long as the lengths say. -/
def WellSized (bindings : List (Option (List UInt8) × UInt64)) : Prop :=
  ∀ ptr length, (ptr, length) ∈ bindings → ∀ bytes, ptr = some bytes → bytes.length = length.toNat

/-- The memory after one iteration of the loop over the bindings. -/
def placeBinding (ptrsAddr lengthsAddr : UInt32) (m : Memory) (i : Nat) (address : UInt32)
    (bytes : List UInt8) : Memory :=
  let m := store 4 m (ptrsAddr.toNat + 4 * i) address.toNat
  let m := store 4 m (lengthsAddr.toNat + 4 * i) bytes.length
  writeMem m address.toNat bytes

/-- **One iteration.** It allocates a block for the binding and goes on after the block. -/
theorem placeBindings_cons_eq_ok {ptrsAddr lengthsAddr : UInt32} {m m' : Memory}
    {cursor : UInt32} {i : Nat} {ptr : Option (List UInt8)} {length : UInt64}
    {bindings : List (Option (List UInt8) × UInt64)}
    (hsized : ∀ bytes, ptr = some bytes → bytes.length = length.toNat)
    (h : placeBindings ptrsAddr lengthsAddr m cursor i ((ptr, length) :: bindings) = .ok m') :
    ∃ address cursor' : UInt32, address.toNat = alignUp 64 cursor.toNat ∧
      address.toNat + length.toNat = cursor'.toNat ∧ cursor'.toNat ≤ 0xC0000000 ∧
      (ptr.getD []).length = length.toNat ∧
      placeBindings ptrsAddr lengthsAddr
        (placeBinding ptrsAddr lengthsAddr m i address (ptr.getD [])) cursor' (i + 1) bindings
          = .ok m' := by
  simp only [placeBindings] at h
  split at h
  · cases h
  next hlength =>
  split at h
  · cases h
  next hnull =>
  obtain ⟨⟨address, cursor'⟩, halloc, hrest⟩ := bind_eq_ok.mp h
  simp only at hrest
  obtain ⟨haddress, hend, hlimit⟩ :=
    allocate_eq_ok_alignUp (by omega) ddr_alignment (by decide) halloc
  have hlen : (ptr.getD []).length = length.toNat := by
    cases ptr with
    | some bytes => exact hsized bytes rfl
    | none =>
      simp only [Option.isNone_none, and_true, not_not] at hnull
      rw [hnull]
      rfl
  have hlen32 : length.toUInt32.toNat = (ptr.getD []).length := by
    have hle := UInt64.not_lt.mp hlength
    rw [UInt64.le_iff_toNat_le, show (0xFFFFFFFF : UInt64).toNat = 2 ^ 32 - 1 from rfl] at hle
    rw [UInt64.toNat_toUInt32, hlen]
    omega
  refine ⟨address, cursor', haddress, hend, hlimit, hlen, ?_⟩
  rw [hlen32, ← hlen, List.take_length] at hrest
  split at hrest
  · exact hrest
  next hzero =>
    -- an empty binding writes nothing
    have hnil : ptr.getD [] = [] := by
      apply List.eq_nil_of_length_eq_zero
      rw [hlen, not_not.mp hzero]
      rfl
    rw [hnil] at hrest ⊢
    rw [placeBinding, writeMem_nil]
    exact hrest

section PlaceBindings

variable {ptrsAddr lengthsAddr : UInt32} {total : Nat}

/-- One iteration changes row `i` of the tables and the block of the binding. -/
theorem placeBinding_agreeOn {m : Memory} {i : Nat} {address : UInt32} {bytes : List UInt8}
    {b k : Nat} (hptr : b + k ≤ ptrsAddr.toNat + 4 * i ∨ ptrsAddr.toNat + 4 * i + 4 ≤ b)
    (hlength : b + k ≤ lengthsAddr.toNat + 4 * i ∨ lengthsAddr.toNat + 4 * i + 4 ≤ b)
    (hblock : b + k ≤ address.toNat ∨ address.toNat + bytes.length ≤ b) :
    AgreeOn (placeBinding ptrsAddr lengthsAddr m i address bytes) m b k :=
  (writeMem_agreeOn hblock).trans ((store_agreeOn hlength).trans (store_agreeOn hptr))

/-- One iteration places its binding. -/
theorem placeBinding_at {m : Memory} {i : Nat} {address : UInt32} {ptr : Option (List UInt8)}
    {length : UInt64} (hptrs : ptrsAddr.toNat + 4 * total ≤ lengthsAddr.toNat)
    (hlengths : lengthsAddr.toNat + 4 * total ≤ address.toNat) (hi : i < total)
    (hlimit : address.toNat + length.toNat ≤ ddrLimit)
    (hlen : (ptr.getD []).length = length.toNat) :
    BindingAt (placeBinding ptrsAddr lengthsAddr m i address (ptr.getD []))
      ptrsAddr.toNat lengthsAddr.toNat i address.toNat (ptr, length) := by
  have hlen32 : length.toNat < 256 ^ 4 :=
    Nat.lt_of_le_of_lt (Nat.le_trans (Nat.le_add_left _ _) hlimit) (by decide)
  constructor
  · rw [placeBinding, (writeMem_agreeOn (by omega)).load, load_store_of_disjoint (by omega),
      load_store]
    exact Nat.mod_eq_of_lt address.toNat_lt
  · rw [placeBinding, (writeMem_agreeOn (by omega)).load, load_store, hlen,
      Nat.mod_eq_of_lt hlen32]
  · show readMem (placeBinding ptrsAddr lengthsAddr m i address (ptr.getD [])) address.toNat
      length.toNat = ptr.getD []
    rw [← hlen, placeBinding, readMem_writeMem]

/-- The blocks that the allocator gives to the bindings. -/
def blocksOf (cursor : Nat) (bindings : List (Option (List UInt8) × UInt64)) : List Region :=
  bump 64 cursor (bindings.map fun b => b.2.toNat)

/-- **What the loop over the bindings leaves behind**, from row `i` on: every binding is in its
    block, and nothing outside the rows from `i` on and the blocks has changed. -/
theorem placeBindings_blocks (hptrs : ptrsAddr.toNat + 4 * total ≤ lengthsAddr.toNat)
    (hlengths : lengthsAddr.toNat + 4 * total ≤ ddrFirst)
    {bindings : List (Option (List UInt8) × UInt64)} :
    ∀ {m m' : Memory} {cursor : UInt32} {i : Nat}, WellSized bindings →
      ddrFirst ≤ cursor.toNat → i + bindings.length ≤ total →
      placeBindings ptrsAddr lengthsAddr m cursor i bindings = .ok m' →
      (∀ j binding block, bindings[j]? = some binding →
        (blocksOf cursor.toNat bindings)[j]? = some block →
        block.first + block.length ≤ ddrLimit ∧
          BindingAt m' ptrsAddr.toNat lengthsAddr.toNat (i + j) block.first binding) ∧
      ∀ p, ¬ Region.Has ⟨ptrsAddr.toNat + 4 * i, 4 * (total - i)⟩ p →
        ¬ Region.Has ⟨lengthsAddr.toNat + 4 * i, 4 * (total - i)⟩ p →
        (∀ block ∈ blocksOf cursor.toNat bindings, ¬ block.Has p) → m' p = m p := by
  induction bindings with
  | nil =>
    intro m m' cursor i _ _ _ h
    obtain rfl := Except.ok.inj h
    exact ⟨by simp, fun p _ _ _ => rfl⟩
  | cons binding bindings ih =>
    obtain ⟨ptr, length⟩ := binding
    intro m m' cursor i hsized hcursor htotal h
    rw [List.length_cons] at htotal
    obtain ⟨address, cursor', haddress, hend, hlimit, hlen, hrest⟩ :=
      placeBindings_cons_eq_ok (hsized ptr length List.mem_cons_self) h
    have hlo : cursor.toNat ≤ address.toNat := by
      rw [haddress]
      exact le_alignUp (by decide) _
    obtain ⟨hplaced, hframe⟩ := ih (fun p l hpl => hsized p l (List.mem_cons_of_mem _ hpl))
      (by omega) (by omega) hrest
    have hblocks : blocksOf cursor.toNat ((ptr, length) :: bindings)
        = ⟨address.toNat, length.toNat⟩ :: blocksOf cursor'.toNat bindings := by
      rw [blocksOf, List.map_cons, bump, ← haddress, hend]
      rfl
    have hlater : ∀ block ∈ blocksOf cursor'.toNat bindings, cursor'.toNat ≤ block.first :=
      fun block hblock => bump_first_le (by decide) block hblock
    have hlimit' : address.toNat + length.toNat ≤ ddrLimit := by
      rw [hend]
      exact hlimit
    rw [hblocks]
    refine ⟨fun j b block hj hblock => ?_, fun p hp hl hb => ?_⟩
    · cases j with
      | zero =>
        -- the later iterations keep row `i` and the block before their cursor
        obtain rfl : (ptr, length) = b := by simpa using hj
        obtain rfl := Option.some.inj hblock
        have hat := placeBinding_at (m := m) hptrs (by omega) (show i < total by omega) hlimit' hlen
        have hkeep : ∀ b k, b + k ≤ cursor'.toNat →
            b + k ≤ ptrsAddr.toNat + 4 * (i + 1) ∨ ptrsAddr.toNat + 4 * total ≤ b →
            b + k ≤ lengthsAddr.toNat + 4 * (i + 1) ∨ lengthsAddr.toNat + 4 * total ≤ b →
            AgreeOn m' (placeBinding ptrsAddr lengthsAddr m i address (ptr.getD [])) b k := by
          intro b k hbk hp hl p hlo hhi
          apply hframe p
          · rintro ⟨h₁, h₂⟩
            simp only at h₁ h₂
            omega
          · rintro ⟨h₁, h₂⟩
            simp only at h₁ h₂
            omega
          · rintro block hblock ⟨h₁, -⟩
            have := hlater block hblock
            omega
        refine ⟨hlimit', hat.congr ?_ ?_ ?_⟩
        · exact hkeep _ 4 (by omega) (by omega) (by omega)
        · exact hkeep _ 4 (by omega) (by omega) (by omega)
        · exact hkeep _ _ (by simp only; omega) (by omega) (by omega)
      | succ j =>
        have hplace := hplaced j b block (by simpa using hj) (by simpa using hblock)
        rwa [show i + 1 + j = i + (j + 1) by omega] at hplace
    · obtain ⟨hfirst, hrestBlocks⟩ := List.forall_mem_cons.mp hb
      rw [hframe p ?_ ?_ hrestBlocks]
      · have hone : AgreeOn (placeBinding ptrsAddr lengthsAddr m i address (ptr.getD [])) m p 1 := by
          unfold Region.Has at hp hl hfirst
          simp only at hp hl hfirst
          exact placeBinding_agreeOn (by omega) (by omega) (by omega)
        exact hone p (Nat.le_refl p) (Nat.lt_succ_self p)
      · rintro ⟨h₁, h₂⟩
        simp only at h₁ h₂
        exact hp ⟨by simp only; omega, by simp only; omega⟩
      · rintro ⟨h₁, h₂⟩
        simp only at h₁ h₂
        exact hl ⟨by simp only; omega, by simp only; omega⟩

/-- Every binding is placed, and nothing below the DDR cursor and outside the rows from `i` on has
    changed. -/
theorem placeBindings_eq_ok (hptrs : ptrsAddr.toNat + 4 * total ≤ lengthsAddr.toNat)
    (hlengths : lengthsAddr.toNat + 4 * total ≤ ddrFirst)
    {bindings : List (Option (List UInt8) × UInt64)} {m m' : Memory} {cursor : UInt32} {i : Nat}
    (hsized : WellSized bindings) (hcursor : ddrFirst ≤ cursor.toNat)
    (htotal : i + bindings.length ≤ total)
    (h : placeBindings ptrsAddr lengthsAddr m cursor i bindings = .ok m') :
    (∀ j binding, bindings[j]? = some binding →
      BindingPlaced m' ptrsAddr.toNat lengthsAddr.toNat (i + j) binding) ∧
    ∀ b k, b + k ≤ cursor.toNat →
      b + k ≤ ptrsAddr.toNat + 4 * i ∨ ptrsAddr.toNat + 4 * total ≤ b →
      b + k ≤ lengthsAddr.toNat + 4 * i ∨ lengthsAddr.toNat + 4 * total ≤ b →
      AgreeOn m' m b k := by
  obtain ⟨hplaced, hframe⟩ := placeBindings_blocks hptrs hlengths hsized hcursor htotal h
  have hfirst : ∀ block ∈ blocksOf cursor.toNat bindings, cursor.toNat ≤ block.first :=
    fun block hblock => bump_first_le (by decide) block hblock
  refine ⟨fun j binding hj => ?_, fun b k hddr hp hl p hlo hhi => ?_⟩
  · have hlt : j < (blocksOf cursor.toNat bindings).length := by
      rw [blocksOf, length_bump, List.length_map]
      exact (List.getElem?_eq_some_iff.mp hj).1
    have hblock : (blocksOf cursor.toNat bindings)[j]?
        = some (blocksOf cursor.toNat bindings)[j] := List.getElem?_eq_getElem hlt
    obtain ⟨hlimit, hat⟩ := hplaced j binding _ hj hblock
    have hlength : (blocksOf cursor.toNat bindings)[j].length = binding.2.toNat := by
      have := length_of_getElem?_bump hblock
      rw [List.getElem?_map, hj] at this
      exact (Option.some.inj this).symm
    have := hfirst _ (List.getElem_mem hlt)
    rw [hlength] at hlimit
    exact ⟨_, by omega, hlimit, hat⟩
  · apply hframe p
    · rintro ⟨h₁, h₂⟩
      simp only at h₁ h₂
      omega
    · rintro ⟨h₁, h₂⟩
      simp only at h₁ h₂
      omega
    · rintro block hblock ⟨h₁, -⟩
      have := hfirst block hblock
      omega

end PlaceBindings

/-! ### The encoded dispatch -/

/-- **The request of an encoded dispatch.** It is READY, and a non-zero count comes with
    non-null addresses. -/
theorem encodeDispatch_request {layout : ElfLayout} {state : HostDispatchState wz}
    {ordinal : UInt32} {localMemoryLength : UInt64} {m m' : Memory}
    (hlayout : checkLayout layout = .ok ())
    (h : encodeDispatch layout state ordinal localMemoryLength m = .ok m') :
    ∃ constants ptrs lengths localMemory,
      loadRequest m' layout.dispatchRequestAddr.toNat
        = makeRequest state ordinal constants ptrs lengths localMemory ∧
      (state.constantCount ≠ 0 → constants ≠ 0) ∧
      (state.bindingCount ≠ 0 → ptrs ≠ 0 ∧ lengths ≠ 0) := by
  obtain ⟨-, hheap, -⟩ := checkLayout_eq_ok hlayout
  have hstart : 0 < layout.heapStartAddr.toNat := Nat.lt_of_lt_of_le (by decide) hheap
  have hpos : ∀ v : UInt32, 0 < v.toNat → v ≠ 0 := by
    rintro v hv rfl
    exact absurd hv (by decide)
  obtain ⟨⟨m₁, c₁, constants⟩, hconstants, h⟩ := bind_eq_ok.mp h
  obtain ⟨⟨c₂, ptrs, lengths⟩, htables, h⟩ := bind_eq_ok.mp h
  obtain ⟨⟨m₂, localMemory⟩, -, h⟩ := bind_eq_ok.mp h
  obtain ⟨m₃, -, h⟩ := bind_eq_ok.mp h
  obtain rfl := Except.ok.inj h
  have hc := placeConstants_eq_ok hconstants
  have ht := allocateBindingTables_eq_ok htables
  refine ⟨constants, ptrs, lengths, localMemory, loadRequest_storeRequest _ _ _, fun hne => ?_,
    fun hne => ?_⟩
  · have := hc.block hne
    exact hpos _ (by omega)
  · have := ht.block hne
    have := hc.cursor_le
    exact ⟨hpos _ (by omega), hpos _ (by omega)⟩

/-- The arrays and buffers of a dispatch, where its request says they are. -/
structure DispatchPlaced (layout : ElfLayout) (state : HostDispatchState wz) (m : Memory)
    (constants ptrs lengths : UInt32) : Prop where
  /-- The constants lie in the heap. -/
  constantsRange : state.constantCount ≠ 0 → layout.heapStartAddr.toNat ≤ constants.toNat ∧
    constants.toNat + 4 * state.constantCount.toNat ≤ layout.heapEndAddr.toNat
  constantsContents : state.constantCount ≠ 0 →
    loadArray 4 m constants.toNat ((state.constants.getD []).take state.constantCount.toNat).length
      = ((state.constants.getD []).take state.constantCount.toNat).map UInt32.toNat
  /-- The binding tables lie in the heap. -/
  tablesRange : state.bindingCount ≠ 0 → layout.heapStartAddr.toNat ≤ ptrs.toNat ∧
    ptrs.toNat + 4 * state.bindingCount.toNat ≤ lengths.toNat ∧
    lengths.toNat + 4 * state.bindingCount.toNat ≤ layout.heapEndAddr.toNat
  bindings : ∀ i binding, (hostBindings state)[i]? = some binding →
    BindingPlaced m ptrs.toNat lengths.toNat i binding

/-- There are no more bindings than the count. -/
theorem length_hostBindings_le (state : HostDispatchState wz) :
    (hostBindings state).length ≤ state.bindingCount.toNat :=
  List.length_take_le _ _

/-- Without bindings the loop does nothing. -/
theorem hostBindings_eq_nil {state : HostDispatchState wz} (hcount : state.bindingCount = 0) :
    hostBindings state = [] := by
  rw [hostBindings, hcount]
  exact List.take_zero

/-- A dispatch stays placed while the heap and the DDR memory do. -/
theorem DispatchPlaced.congr {layout : ElfLayout} {state : HostDispatchState wz} {m m' : Memory}
    {constants ptrs lengths : UInt32} (h : DispatchPlaced layout state m constants ptrs lengths)
    (hheap : AgreeOn m' m layout.heapStartAddr.toNat
      (layout.heapEndAddr.toNat - layout.heapStartAddr.toNat))
    (hddr : AgreeOn m' m ddrFirst (ddrLimit - ddrFirst)) :
    DispatchPlaced layout state m' constants ptrs lengths := by
  refine ⟨h.constantsRange, fun hne => ?_, h.tablesRange, fun i binding hi => ?_⟩
  · obtain ⟨hlo, hhi⟩ := h.constantsRange hne
    have hlen := List.length_take_le state.constantCount.toNat (state.constants.getD [])
    rw [(hheap.mono hlo (by omega)).loadArray, h.constantsContents hne]
  · obtain ⟨address, hfirst, hlimit, hat⟩ := h.bindings i binding hi
    have hlt : i < state.bindingCount.toNat :=
      Nat.lt_of_lt_of_le (List.getElem?_eq_some_iff.mp hi).1 (length_hostBindings_le state)
    have hne : state.bindingCount ≠ 0 := by
      intro hzero
      rw [hzero] at hlt
      exact absurd hlt (Nat.not_lt_zero i)
    obtain ⟨hptrs, hmid, hlengths⟩ := h.tablesRange hne
    exact ⟨address, hfirst, hlimit, hat.congr (hheap.mono (by omega) (by omega))
      (hheap.mono (by omega) (by omega)) (hddr.mono hfirst (by omega))⟩

/-- **An encoded dispatch.** The memory holds the request, and the arrays and buffers that the
    request refers to. -/
theorem encodeDispatch_eq_ok {layout : ElfLayout} {state : HostDispatchState wz}
    {ordinal : UInt32} {localMemoryLength : UInt64} {m m' : Memory}
    (hlayout : checkLayout layout = .ok ())
    (hdisjoint : layout.dispatchRequestAddr.toNat + requestSize ≤ layout.heapStartAddr.toNat)
    (hsized : WellSized (hostBindings state))
    (h : encodeDispatch layout state ordinal localMemoryLength m = .ok m') :
    ∃ constants ptrs lengths localMemory,
      loadRequest m' layout.dispatchRequestAddr.toNat
        = makeRequest state ordinal constants ptrs lengths localMemory ∧
      DispatchPlaced layout state m' constants ptrs lengths := by
  obtain ⟨-, -, hheap, hend⟩ := checkLayout_eq_ok hlayout
  have hdtcm : dtcmStart.toNat + dtcmSize.toNat ≤ ddrFirst := by decide
  obtain ⟨⟨m₁, c₁, constants⟩, hconstants, h⟩ := bind_eq_ok.mp h
  obtain ⟨⟨c₂, ptrs, lengths⟩, htables, h⟩ := bind_eq_ok.mp h
  obtain ⟨⟨m₂, localMemory⟩, hlocal, h⟩ := bind_eq_ok.mp h
  obtain ⟨m₃, hbindings, h⟩ := bind_eq_ok.mp h
  obtain rfl := Except.ok.inj h
  have hc := placeConstants_eq_ok hconstants
  have ht := allocateBindingTables_eq_ok htables
  have hc₁ := hc.cursor_le
  have hc₁' := hc.limit
  have hc₂ := ht.cursor_le
  have hc₂' := ht.limit
  refine ⟨constants, ptrs, lengths, localMemory, loadRequest_storeRequest _ _ _, ?_⟩
  -- the request itself lies before everything that has been placed
  have hrequest : ∀ b k, layout.heapStartAddr.toNat ≤ b →
      AgreeOn (storeRequest m₃ layout.dispatchRequestAddr.toNat
        (makeRequest state ordinal constants ptrs lengths localMemory)) m₃ b k :=
    fun b k hb => storeRequest_agreeOn (Or.inr (by omega))
  by_cases hcount : state.bindingCount = 0
  · have hnil := hostBindings_eq_nil hcount
    rw [hnil] at hbindings
    obtain rfl := Except.ok.inj hbindings
    refine ⟨fun hne => ?_, fun hne => ?_, fun hne => absurd hcount hne, by simp [hnil]⟩
    · have := hc.block hne
      omega
    · have hblock := hc.block hne
      have hlen := List.length_take_le state.constantCount.toNat (state.constants.getD [])
      rw [((hrequest _ _ (by omega)).trans (placeLocalMemory_agreeOn hlocal (by omega))).loadArray,
        placeConstants_holds hconstants]
  · obtain ⟨htlo, htmid, hthi⟩ := ht.block hcount
    obtain ⟨hplaced, hframe⟩ := placeBindings_eq_ok htmid (by omega) hsized
      (show ddrFirst ≤ (0x80000000 : UInt32).toNat by decide)
      (by simpa using length_hostBindings_le state) hbindings
    rw [show (0x80000000 : UInt32).toNat = ddrFirst from rfl] at hframe
    refine ⟨fun hne => ?_, fun hne => ?_, fun _ => ⟨by omega, htmid, by omega⟩,
      fun i binding hi => ?_⟩
    · have := hc.block hne
      omega
    · have hblock := hc.block hne
      have hlen := List.length_take_le state.constantCount.toNat (state.constants.getD [])
      rw [((hrequest _ _ (by omega)).trans ((hframe _ _ (by omega) (by omega) (by omega)).trans
        (placeLocalMemory_agreeOn hlocal (by omega)))).loadArray, placeConstants_holds hconstants]
    · obtain ⟨address, hfirst, hlimit, hat⟩ := hplaced i binding hi
      rw [Nat.zero_add] at hat
      exact ⟨address, hfirst, hlimit, hat.congr (hrequest _ _ (by omega)) (hrequest _ _ (by omega))
        (hrequest _ _ (by omega))⟩

/-! ### Reading back after encoding -/

/-- The second pass over the bindings allocates what the first did, so that it cannot fail. -/
theorem readBack_ok_of_placeBindings {ptrsAddr lengthsAddr : UInt32}
    (bindingWriteable : Option (List Bool)) (mfinal : Memory)
    {bindings : List (Option (List UInt8) × UInt64)} :
    ∀ {m m' : Memory} {cursor : UInt32} {i : Nat},
      placeBindings ptrsAddr lengthsAddr m cursor i bindings = .ok m' →
      (readBack bindingWriteable mfinal cursor i bindings).1 = .ok () := by
  induction bindings with
  | nil => intro m m' cursor i _; rfl
  | cons binding bindings ih =>
    obtain ⟨ptr, length⟩ := binding
    intro m m' cursor i h
    simp only [placeBindings] at h
    split at h
    · cases h
    split at h
    · cases h
    obtain ⟨⟨address, cursor'⟩, halloc, hrest⟩ := bind_eq_ok.mp h
    simp only [readBack, halloc]
    exact ih hrest

end CoralNPU.Sim
