import CoralNPU.Sim.Inline

namespace CoralNPU.Sim

open Lib

/-!
# Where the host puts the data of a dispatch

* `heapRegion`, `heapCursor` — one allocation from the DTCM heap; a region of no bytes is not
  allocated.
* `Placement`, `plan` — the regions of a dispatch, by arithmetic on the counts, the lengths and
  the start of the heap.
* `Placed` — device memory holds the data in these regions, and is unchanged outside of them;
  the regions lie in the heap and in the DDR memory, and are apart.
* `encodeDispatch_placed` — encoding a dispatch places its data by plan, and writes the request
  last.
-/

variable {wz : Nat}

/-! ### The plan -/

/-- The region of an allocation of `size` bytes from the heap. -/
def heapRegion (align cursor size : Nat) : Region :=
  if size = 0 then ⟨0, 0⟩ else ⟨alignUp align cursor, size⟩

/-- The heap cursor after the allocation of a region. -/
def heapCursor (cursor : Nat) (r : Region) : Nat :=
  if r.length = 0 then cursor else r.first + r.length

/-- The regions of the constants, of the two binding tables, of the local memory and of the
    bindings. -/
structure Placement where
  constants : Region
  ptrs : Region
  lengths : Region
  localMemory : Region
  blocks : List Region

/-- The regions in the heap. -/
def Placement.heap (place : Placement) : List Region :=
  [place.constants, place.ptrs, place.lengths, place.localMemory]

/-- The plan for a dispatch with bindings of the given lengths. -/
def plan (layout : ElfLayout) (constantCount : UInt16) (bindingCount : UInt8)
    (localMemoryLength : UInt64) (lengths : List UInt64) : Placement :=
  let cursor := layout.heapStartAddr.toNat
  let constants := heapRegion 4 cursor (4 * constantCount.toNat)
  let cursor := heapCursor cursor constants
  let ptrs := heapRegion 4 cursor (4 * bindingCount.toNat)
  let cursor := heapCursor cursor ptrs
  let lengthTable := heapRegion 4 cursor (4 * bindingCount.toNat)
  let cursor := heapCursor cursor lengthTable
  { constants := constants
    ptrs := ptrs
    lengths := lengthTable
    localMemory := heapRegion 64 cursor localMemoryLength.toNat
    blocks := bump 64 0x80000000 (lengths.map UInt64.toNat) }

/-- The plan for a dispatch state. -/
def planOf (layout : ElfLayout) (state : HostDispatchState wz) (localMemoryLength : UInt64) :
    Placement :=
  plan layout state.constantCount state.bindingCount localMemoryLength
    ((hostBindings state).map Prod.snd)

@[simp] theorem heapRegion_length (align cursor size : Nat) :
    (heapRegion align cursor size).length = size := by
  unfold heapRegion
  split
  next h => rw [h]
  next => rfl

/-- An allocation that succeeds. -/
theorem allocateDtcm_region {cursor heapEnd alignment address cursor' : UInt32} {size : UInt64}
    {k : Nat} (hk : k < 32) (halign : alignment.toNat = 2 ^ k) (hsize : size.toNat ≠ 0)
    (h : allocateDtcm cursor heapEnd alignment size = .ok (address, cursor')) :
    heapRegion (2 ^ k) cursor.toNat size.toNat = ⟨address.toNat, size.toNat⟩ ∧
      heapCursor cursor.toNat ⟨address.toNat, size.toNat⟩ = cursor'.toNat ∧
      cursor.toNat ≤ address.toNat ∧ cursor'.toNat ≤ heapEnd.toNat := by
  obtain ⟨haddress, hend, hlimit⟩ := allocate_eq_ok_alignUp hk halign (toUInt64_toNat_lt _) h
  rw [UInt32.toNat_toUInt64] at hlimit
  refine ⟨?_, ?_, ?_, hlimit⟩
  · rw [heapRegion, if_neg hsize, haddress]
  · rw [heapCursor, if_neg hsize, hend]
  · rw [haddress]
    exact le_alignUp (Nat.two_pow_pos k) _

/-! ### The parts of the heap -/

/-- The region lies between two addresses, if it has bytes. -/
def Within (lo : Nat) (r : Region) (hi : Nat) : Prop :=
  r.length ≠ 0 → lo ≤ r.first ∧ r.first + r.length ≤ hi

theorem Within.mono {lo lo' hi hi' : Nat} {r : Region} (h : Within lo r hi) (hlo : lo' ≤ lo)
    (hhi : hi ≤ hi') : Within lo' r hi' := by
  intro hne
  have := h hne
  omega

/-- Regions on two sides of an address are apart. -/
theorem Within.apart {lo mid hi : Nat} {r s : Region} (h : Within lo r mid)
    (h' : Within mid s hi) : r.Apart s := by
  rintro p ⟨hr₁, hr₂⟩ ⟨hs₁, hs₂⟩
  have hr := h (by omega)
  have hs := h' (by omega)
  omega

/-- The constants of the state. -/
def constantsOf (state : HostDispatchState wz) : List UInt32 :=
  (state.constants.getD []).take state.constantCount.toNat

/-- The constants are placed by plan. -/
theorem placeConstants_region {layout : ElfLayout} {state : HostDispatchState wz} {m m' : Memory}
    {cursor cursor' address : UInt32}
    (h : placeConstants layout state m cursor = .ok (m', cursor', address)) :
    heapRegion 4 cursor.toNat (4 * state.constantCount.toNat)
      = ⟨address.toNat, 4 * state.constantCount.toNat⟩ ∧
    heapCursor cursor.toNat ⟨address.toNat, 4 * state.constantCount.toNat⟩ = cursor'.toNat ∧
    m' = storeArray 4 m address.toNat ((constantsOf state).map UInt32.toNat) := by
  rcases placeConstants_cases h with ⟨hcount, halloc, hm⟩ | ⟨hcount, rfl, rfl, rfl⟩
  · have hsize := constants_bytes state
    have hne : state.constantCount.toNat ≠ 0 := fun hzero => hcount (UInt16.toNat_inj.mp hzero)
    obtain ⟨hregion, hcursor, -⟩ :=
      allocateDtcm_region (by omega) dtcm_alignment (by omega) halloc
    rw [hsize] at hregion hcursor
    exact ⟨hregion, hcursor, hm⟩
  · rw [constantsOf, hcount]
    exact ⟨rfl, rfl, rfl⟩

/-- The binding tables are allocated by plan. -/
theorem allocateBindingTables_region {layout : ElfLayout} {state : HostDispatchState wz}
    {cursor cursor' ptrs lengths : UInt32}
    (h : allocateBindingTables layout state cursor = .ok (cursor', ptrs, lengths)) :
    ∃ border, heapRegion 4 cursor.toNat (4 * state.bindingCount.toNat)
        = ⟨ptrs.toNat, 4 * state.bindingCount.toNat⟩ ∧
      heapCursor cursor.toNat ⟨ptrs.toNat, 4 * state.bindingCount.toNat⟩ = border ∧
      heapRegion 4 border (4 * state.bindingCount.toNat)
        = ⟨lengths.toNat, 4 * state.bindingCount.toNat⟩ ∧
      heapCursor border ⟨lengths.toNat, 4 * state.bindingCount.toNat⟩ = cursor'.toNat := by
  rcases allocateBindingTables_cases h with ⟨hcount, border, hptrs, hlengths⟩ | ⟨hcount, rfl, rfl, rfl⟩
  · have hsize := bindings_bytes state
    have hne : state.bindingCount.toNat ≠ 0 := fun hzero => hcount (UInt8.toNat_inj.mp hzero)
    obtain ⟨hregion, hcursor, -⟩ :=
      allocateDtcm_region (by omega) dtcm_alignment (by omega) hptrs
    obtain ⟨hregion', hcursor', -⟩ :=
      allocateDtcm_region (by omega) dtcm_alignment (by omega) hlengths
    rw [hsize] at hregion hcursor hregion' hcursor'
    exact ⟨border.toNat, hregion, hcursor, hregion', hcursor'⟩
  · rw [hcount]
    exact ⟨cursor'.toNat, rfl, rfl, rfl, rfl⟩

/-- The local memory is placed by plan, and filled with zeros. -/
theorem placeLocalMemory_region {layout : ElfLayout} {localMemoryLength : UInt64} {m m' : Memory}
    {cursor address : UInt32}
    (h : placeLocalMemory layout localMemoryLength m cursor = .ok (m', address)) :
    heapRegion 64 cursor.toNat localMemoryLength.toNat
      = ⟨address.toNat, localMemoryLength.toNat⟩ ∧
    m' = writeMem m address.toNat (List.replicate localMemoryLength.toNat 0) ∧
    Within cursor.toNat ⟨address.toNat, localMemoryLength.toNat⟩ layout.heapEndAddr.toNat := by
  unfold placeLocalMemory at h
  split at h
  next hlength =>
    obtain ⟨⟨a, c⟩, halloc, hrest⟩ := bind_eq_ok.mp h
    simp only [pure_eq_ok, Except.ok.injEq, Prod.mk.injEq] at hrest
    obtain ⟨rfl, rfl⟩ := hrest
    have hne : localMemoryLength.toNat ≠ 0 := fun hzero => hlength (UInt64.toNat_inj.mp hzero)
    obtain ⟨hregion, hcursor, hlo, hhi⟩ :=
      allocateDtcm_region (by omega) ddr_alignment hne halloc
    rw [heapCursor, if_neg hne] at hcursor
    exact ⟨hregion, zeroMem_eq _ _ _, fun _ => ⟨hlo, Nat.le_trans (Nat.le_of_eq hcursor) hhi⟩⟩
  next hlength =>
    simp only [pure_eq_ok, Except.ok.injEq, Prod.mk.injEq] at h
    obtain ⟨rfl, rfl⟩ := h
    rw [not_not.mp hlength]
    exact ⟨rfl, (writeMem_nil m _).symm, fun hne => absurd rfl hne⟩

/-! ### The encoded dispatch -/

/-- **The data of a dispatch is in its place.** `m₀` is the memory before. -/
structure Placed (layout : ElfLayout) (state : HostDispatchState wz) (place : Placement)
    (m₀ m : Memory) : Prop where
  /-- The regions lie in the heap and in the DDR memory, and are apart. -/
  heap : ∀ r ∈ place.heap, Within layout.heapStartAddr.toNat r layout.heapEndAddr.toNat
  heapApart : place.heap.Pairwise Region.Apart
  blocks : ∀ r ∈ place.blocks, ddrFirst ≤ r.first ∧ r.first + r.length ≤ ddrLimit
  blocksApart : place.blocks.Pairwise Region.Apart
  /-- The regions hold the data. -/
  constants : loadArray 4 m place.constants.first (constantsOf state).length
    = (constantsOf state).map UInt32.toNat
  localMemory : ∀ p, place.localMemory.Has p → m p = 0
  bindings : ∀ i binding block, (hostBindings state)[i]? = some binding →
    place.blocks[i]? = some block →
    BindingAt m place.ptrs.first place.lengths.first i block.first binding
  /-- Nothing else has changed. -/
  frame : ∀ p, (∀ r ∈ place.heap ++ place.blocks, ¬ r.Has p) → m p = m₀ p

/-- The three parts of the heap, in the order of their allocation. -/
theorem heap_of_parts {layout : ElfLayout} {state : HostDispatchState wz}
    {c₁ c₂ constants ptrs lengths : UInt32} {localMemory : Region}
    (hheap : layout.heapStartAddr.toNat ≤ layout.heapEndAddr.toNat)
    (hc : ConstantsPlaced layout state layout.heapStartAddr c₁ constants)
    (ht : TablesAllocated layout state c₁ c₂ ptrs lengths)
    (hl : Within c₂.toNat localMemory layout.heapEndAddr.toNat) :
    (∀ r ∈ [⟨constants.toNat, 4 * state.constantCount.toNat⟩,
        ⟨ptrs.toNat, 4 * state.bindingCount.toNat⟩,
        ⟨lengths.toNat, 4 * state.bindingCount.toNat⟩, localMemory],
      Within layout.heapStartAddr.toNat r layout.heapEndAddr.toNat) ∧
    [⟨constants.toNat, 4 * state.constantCount.toNat⟩,
      ⟨ptrs.toNat, 4 * state.bindingCount.toNat⟩,
      ⟨lengths.toNat, 4 * state.bindingCount.toNat⟩, localMemory].Pairwise Region.Apart := by
  have hc₁ := hc.cursor_le
  have hc₁' := hc.limit
  have hc₂ := ht.cursor_le
  have hc₂' := ht.limit
  have hconstants : Within layout.heapStartAddr.toNat
      ⟨constants.toNat, 4 * state.constantCount.toNat⟩ c₁.toNat := by
    intro hne
    apply hc.block
    rintro hzero
    rw [hzero] at hne
    exact hne rfl
  -- the border between the two tables
  obtain ⟨border, hborder₁, hborder₂, hptrs, hlengths⟩ : ∃ border, c₁.toNat ≤ border ∧
      border ≤ c₂.toNat ∧
      Within c₁.toNat ⟨ptrs.toNat, 4 * state.bindingCount.toNat⟩ border ∧
      Within border ⟨lengths.toNat, 4 * state.bindingCount.toNat⟩ c₂.toNat := by
    by_cases hcount : state.bindingCount = 0
    · rw [hcount]
      exact ⟨c₁.toNat, Nat.le_refl _, hc₂, fun hne => absurd rfl hne, fun hne => absurd rfl hne⟩
    · obtain ⟨h₁, h₂, h₃⟩ := ht.block hcount
      exact ⟨lengths.toNat, by omega, by omega, fun _ => ⟨h₁, h₂⟩, fun _ => ⟨Nat.le_refl _, h₃⟩⟩
  constructor
  · simp only [List.forall_mem_cons]
    exact ⟨hconstants.mono (Nat.le_refl _) (by omega), hptrs.mono (by omega) (by omega),
      hlengths.mono (by omega) (by omega), hl.mono (by omega) (Nat.le_refl _),
      fun r hr => absurd hr List.not_mem_nil⟩
  · simp only [List.pairwise_cons, List.forall_mem_cons]
    refine ⟨⟨hconstants.apart (hptrs.mono (Nat.le_refl _) (Nat.le_refl _)),
      hconstants.apart (hlengths.mono hborder₁ (Nat.le_refl _)),
      hconstants.apart (hl.mono hc₂ (Nat.le_refl _)), ?_⟩,
      ⟨hptrs.apart hlengths, hptrs.apart (hl.mono hborder₂ (Nat.le_refl _)), ?_⟩,
      ⟨hlengths.apart hl, ?_⟩, ?_, List.Pairwise.nil⟩
    all_goals exact fun r hr => absurd hr List.not_mem_nil

/-- The loop over the bindings, for a state with or without bindings. -/
theorem placeBindings_state {layout : ElfLayout} {state : HostDispatchState wz} {m m' : Memory}
    {c₁ c₂ ptrs lengths : UInt32} (ht : TablesAllocated layout state c₁ c₂ ptrs lengths)
    (hc₂ : c₂.toNat ≤ ddrFirst) (hsized : WellSized (hostBindings state))
    (h : placeBindings ptrs lengths m 0x80000000 0 (hostBindings state) = .ok m') :
    (∀ i binding block, (hostBindings state)[i]? = some binding →
      (blocksOf ddrFirst (hostBindings state))[i]? = some block →
      block.first + block.length ≤ ddrLimit ∧
        BindingAt m' ptrs.toNat lengths.toNat i block.first binding) ∧
    ∀ p, ¬ Region.Has ⟨ptrs.toNat, 4 * state.bindingCount.toNat⟩ p →
      ¬ Region.Has ⟨lengths.toNat, 4 * state.bindingCount.toNat⟩ p →
      (∀ block ∈ blocksOf ddrFirst (hostBindings state), ¬ block.Has p) → m' p = m p := by
  by_cases hcount : state.bindingCount = 0
  · rw [hostBindings_eq_nil hcount] at h ⊢
    obtain rfl := Except.ok.inj h
    exact ⟨by simp, fun p _ _ _ => rfl⟩
  · obtain ⟨htlo, htmid, hthi⟩ := ht.block hcount
    obtain ⟨hplaced, hframe⟩ := placeBindings_blocks htmid (by omega) hsized
      (show ddrFirst ≤ (0x80000000 : UInt32).toNat by decide)
      (by simpa using length_hostBindings_le state) h
    simp only [Nat.zero_add] at hplaced
    exact ⟨hplaced, hframe⟩

/-- The plan has the addresses that the allocations return. -/
theorem planOf_eq {layout : ElfLayout} {state : HostDispatchState wz} {localMemoryLength : UInt64}
    {m₀ m₁ m₂ : Memory} {c₁ c₂ constants ptrs lengths localMemory : UInt32}
    (hconstants : placeConstants layout state m₀ layout.heapStartAddr = .ok (m₁, c₁, constants))
    (htables : allocateBindingTables layout state c₁ = .ok (c₂, ptrs, lengths))
    (hlocal : placeLocalMemory layout localMemoryLength m₁ c₂ = .ok (m₂, localMemory)) :
    planOf layout state localMemoryLength =
      { constants := ⟨constants.toNat, 4 * state.constantCount.toNat⟩
        ptrs := ⟨ptrs.toNat, 4 * state.bindingCount.toNat⟩
        lengths := ⟨lengths.toNat, 4 * state.bindingCount.toNat⟩
        localMemory := ⟨localMemory.toNat, localMemoryLength.toNat⟩
        blocks := blocksOf ddrFirst (hostBindings state) } := by
  obtain ⟨hcregion, hc₁, -⟩ := placeConstants_region hconstants
  obtain ⟨border, hpregion, hborder, hlregion, hc₂⟩ := allocateBindingTables_region htables
  obtain ⟨hmregion, -, -⟩ := placeLocalMemory_region hlocal
  simp only [planOf, plan, hcregion, hc₁, hpregion, hborder, hlregion, hc₂, hmregion, List.map_map]
  rfl

/-- Placing the constants leaves the rest of memory alone. -/
theorem placeConstants_frame {layout : ElfLayout} {state : HostDispatchState wz} {m m' : Memory}
    {cursor cursor' address : UInt32}
    (h : placeConstants layout state m cursor = .ok (m', cursor', address)) {p : Nat}
    (hp : ¬ Region.Has ⟨address.toNat, 4 * state.constantCount.toNat⟩ p) : m' p = m p := by
  have hlength : (constantsOf state).length ≤ state.constantCount.toNat := List.length_take_le _ _
  rw [(placeConstants_region h).2.2]
  apply Region.frame (fun b k hbk => storeArray_agreeOn ?_) hp
  rw [List.length_map]
  simp only at hbk
  omega

/-- Placing the local memory leaves the rest of memory alone. -/
theorem placeLocalMemory_frame {layout : ElfLayout} {localMemoryLength : UInt64} {m m' : Memory}
    {cursor address : UInt32}
    (h : placeLocalMemory layout localMemoryLength m cursor = .ok (m', address)) {p : Nat}
    (hp : ¬ Region.Has ⟨address.toNat, localMemoryLength.toNat⟩ p) : m' p = m p := by
  rw [(placeLocalMemory_region h).2.1]
  exact writeMem_of_not_has (by rwa [List.length_replicate])

/-- The local memory is zero. -/
theorem placeLocalMemory_zero {layout : ElfLayout} {localMemoryLength : UInt64} {m m' : Memory}
    {cursor address : UInt32}
    (h : placeLocalMemory layout localMemoryLength m cursor = .ok (m', address)) {p : Nat}
    (hp : Region.Has ⟨address.toNat, localMemoryLength.toNat⟩ p) : m' p = 0 := by
  obtain ⟨hlo, hhi⟩ := hp
  simp only at hlo hhi
  rw [(placeLocalMemory_region h).2.1]
  show (if address.toNat ≤ p then _ else _) = _
  rw [if_pos hlo, List.getD_eq_getElem _ _ (by rw [List.length_replicate]; omega),
    List.getElem_replicate]

/-- The heap lies below the blocks of the bindings. -/
theorem heap_apart_blocks {layout : ElfLayout} (hend : layout.heapEndAddr.toNat ≤ ddrFirst)
    {bindings : List (Option (List UInt8) × UInt64)} {r : Region}
    (hr : Within layout.heapStartAddr.toNat r layout.heapEndAddr.toNat) :
    ∀ block ∈ blocksOf ddrFirst bindings, r.Apart block := by
  intro block hblock
  have hfirst : ddrFirst ≤ block.first := bump_first_le (by decide) block hblock
  have hwithin : Within layout.heapEndAddr.toNat block (block.first + block.length) := by
    intro _
    omega
  exact hr.apart hwithin

/-- The blocks lie in the DDR memory, if those of the bindings do. -/
theorem blocks_inDdr {bindings : List (Option (List UInt8) × UInt64)}
    (hlimit : ∀ (i : Nat) binding (block : Region), bindings[i]? = some binding →
      (blocksOf ddrFirst bindings)[i]? = some block → block.first + block.length ≤ ddrLimit) :
    ∀ r ∈ blocksOf ddrFirst bindings, ddrFirst ≤ r.first ∧ r.first + r.length ≤ ddrLimit := by
  intro r hr
  obtain ⟨j, hj⟩ := List.mem_iff_getElem?.mp hr
  -- a block belongs to a binding
  have hlt : j < bindings.length := by
    have := (List.getElem?_eq_some_iff.mp hj).1
    rwa [blocksOf, length_bump, List.length_map] at this
  exact ⟨bump_first_le (by decide) r hr, hlimit j _ r (List.getElem?_eq_getElem hlt) hj⟩

/-- **Encoding places the data by plan**, and then writes the request. -/
theorem encodeDispatch_placed {layout : ElfLayout} {state : HostDispatchState wz}
    {ordinal : UInt32} {localMemoryLength : UInt64} {m₀ m : Memory}
    (hlayout : checkLayout layout = .ok ()) (hsized : WellSized (hostBindings state))
    (h : encodeDispatch layout state ordinal localMemoryLength m₀ = .ok m) :
    ∃ m₃, Placed layout state (planOf layout state localMemoryLength) m₀ m₃ ∧
      m = storeRequest m₃ layout.dispatchRequestAddr.toNat (makeRequest state ordinal
        (UInt32.ofNat (planOf layout state localMemoryLength).constants.first)
        (UInt32.ofNat (planOf layout state localMemoryLength).ptrs.first)
        (UInt32.ofNat (planOf layout state localMemoryLength).lengths.first)
        (UInt32.ofNat (planOf layout state localMemoryLength).localMemory.first)) := by
  obtain ⟨-, -, hheap, hend⟩ := checkLayout_eq_ok hlayout
  have hdtcm : dtcmStart.toNat + dtcmSize.toNat ≤ ddrFirst := by decide
  obtain ⟨⟨m₁, c₁, constants⟩, hconstants, h⟩ := bind_eq_ok.mp h
  obtain ⟨⟨c₂, ptrs, lengths⟩, htables, h⟩ := bind_eq_ok.mp h
  obtain ⟨⟨m₂, localMemory⟩, hlocal, h⟩ := bind_eq_ok.mp h
  obtain ⟨m₃, hbindings, h⟩ := bind_eq_ok.mp h
  obtain rfl := Except.ok.inj h
  have hc := placeConstants_eq_ok hconstants
  have ht := allocateBindingTables_eq_ok htables
  have hlimit : c₂.toNat ≤ ddrFirst := by
    have := hc.limit
    have := ht.limit
    omega
  obtain ⟨hwithin, hapart⟩ := heap_of_parts hheap hc ht (placeLocalMemory_region hlocal).2.2
  obtain ⟨hplaced, hframe⟩ := placeBindings_state ht hlimit hsized hbindings
  have hbelow : ∀ {r : Region}, Within layout.heapStartAddr.toNat r layout.heapEndAddr.toNat →
      ∀ block ∈ blocksOf ddrFirst (hostBindings state), r.Apart block :=
    heap_apart_blocks (by omega)
  have hwithin' := hwithin
  have hapart' := hapart
  simp only [List.forall_mem_cons, List.pairwise_cons] at hwithin' hapart'
  obtain ⟨hwc, hwp, hwl, hwm, -⟩ := hwithin'
  obtain ⟨⟨hcp, hcl, hcm, -⟩, ⟨hpl, hpm, -⟩, ⟨hlm, -⟩, -⟩ := hapart'
  rw [planOf_eq hconstants htables hlocal]
  simp only [UInt32.ofNat_toNat]
  refine ⟨m₃, ⟨hwithin, hapart,
    blocks_inDdr fun i binding block hi hb => (hplaced i binding block hi hb).1,
    bump_pairwise (by decide), ?_, fun p hp => ?_,
    fun i binding block hi hb => (hplaced i binding block hi hb).2, fun p hp => ?_⟩, rfl⟩
  · -- the later steps leave the constants alone
    have hlength : (constantsOf state).length ≤ state.constantCount.toNat := List.length_take_le _ _
    have hagree : AgreeOn m₃ m₁ constants.toNat (4 * (constantsOf state).length) := by
      apply Region.agreeOn_part (r := ⟨constants.toNat, 4 * state.constantCount.toNat⟩) _
        (Nat.le_refl _) (by simp only; omega)
      intro p hp
      rw [hframe p (hcp p hp) (hcl p hp) fun block hblock => hbelow hwc block hblock p hp,
        placeLocalMemory_frame hlocal (hcm p hp)]
    rw [hagree.loadArray]
    exact placeConstants_holds hconstants
  · rw [hframe p (fun h => hpm p h hp) (fun h => hlm p h hp)
      fun block hblock => hbelow hwm block hblock p hp]
    exact placeLocalMemory_zero hlocal hp
  · simp only [Placement.heap, List.cons_append, List.nil_append, List.forall_mem_cons] at hp
    obtain ⟨hpc, hpp, hpl, hpm, hpb⟩ := hp
    rw [hframe p hpp hpl hpb, placeLocalMemory_frame hlocal hpm,
      placeConstants_frame hconstants hpc]

/-! ### Dispatches of files -/

/-- The plan for a dispatch state with its bindings in host memory. -/
def InlineDispatchState.plan (state : InlineDispatchState wz) (layout : ElfLayout)
    (localMemoryLength : UInt64) : Placement :=
  Sim.plan layout state.constantCount state.bindingCount localMemoryLength
    (state.ranges.map Prod.snd)

/-- The plan does not depend on the contents of the bindings. -/
theorem planOf_contents (layout : ElfLayout) (state : InlineDispatchState wz) (host : Memory)
    (localMemoryLength : UInt64) :
    planOf layout (state.contents host) localMemoryLength
      = state.plan layout localMemoryLength := by
  rw [planOf, hostBindings_contents, List.map_map]
  rfl

theorem wellSized_contents (state : InlineDispatchState wz) (host : Memory) :
    WellSized (hostBindings (state.contents host)) := by
  intro ptr length hmem bytes hptr
  rw [hostBindings_contents] at hmem
  obtain ⟨range, -, hrange⟩ := List.mem_map.mp hmem
  obtain ⟨hcontents, rfl⟩ := Prod.mk.inj hrange
  rw [hptr] at hcontents
  obtain ⟨a, -, rfl⟩ := Option.map_eq_some_iff.mp hcontents
  exact length_readMem host a range.2.toNat

/-- The memory that the loader leaves for the dispatch of a file. -/
def loadedMemory (file : List UInt8) (device : Memory) : Memory :=
  applyWrites device (loadElf file).events

/-- **What a preparation that succeeds gives**: the file is loaded, the data is placed by plan, and
    the request is written last. -/
theorem prepareInline_placed {file : List UInt8} {device : Memory}
    {state : InlineDispatchState wz} {ordinal localMemoryLength : UInt64} {host : Memory}
    {layout : ElfLayout} {m : Memory}
    (h : prepareInline file device state ordinal localMemoryLength host = .ok (layout, m)) :
    (loadElf file).result = .ok layout ∧ checkLayout layout = .ok () ∧
    layout.dispatchRequestSize.toNat = requestSize ∧
    ∃ m₃, Placed layout (state.contents host) (state.plan layout localMemoryLength)
        (loadedMemory file device) m₃ ∧
      m = storeRequest m₃ layout.dispatchRequestAddr.toNat
        (makeRequest (state.contents host) ordinal.toUInt32
          (UInt32.ofNat (state.plan layout localMemoryLength).constants.first)
          (UInt32.ofNat (state.plan layout localMemoryLength).ptrs.first)
          (UInt32.ofNat (state.plan layout localMemoryLength).lengths.first)
          (UInt32.ofNat (state.plan layout localMemoryLength).localMemory.first)) := by
  obtain ⟨m₀, helf, hcheck, hsize, hencode⟩ := prepareDispatch_eq_ok h
  have hload : loadElfWithLayout (Image.ofElf file device (⟨[], none⟩ : Firmware Unit wz))
      = .ok (m₀, layout) := by
    rw [loadElfWithLayout, helf, ok_bind]
    simp only [hcheck, ok_bind, pure_eq_ok]
  obtain ⟨hresult, hm₀⟩ := loadElfWithLayout_ofElf hload
  obtain ⟨m₃, hplaced, hm⟩ :=
    encodeDispatch_placed hcheck (wellSized_contents state host) hencode
  rw [planOf_contents] at hplaced hm
  rw [hm₀] at hplaced
  exact ⟨hresult, hcheck, hsize, m₃, hplaced, hm⟩

/-- The request in device memory. -/
def requestRegion (layout : ElfLayout) : Region :=
  ⟨layout.dispatchRequestAddr.toNat, requestSize⟩

/-- Storing the request keeps every other byte. -/
theorem storeRequest_of_not_has {layout : ElfLayout} {m : Memory} {r : Request} {p : Nat}
    (hp : ¬ (requestRegion layout).Has p) :
    storeRequest m layout.dispatchRequestAddr.toNat r p = m p :=
  Region.frame (fun _ _ hbk => storeRequest_agreeOn hbk) hp

/-- The request lies in the DTCM, below the bindings. -/
theorem requestRegion_apart_blocks {layout : ElfLayout} (hlayout : checkLayout layout = .ok ())
    (hsize : layout.dispatchRequestSize.toNat = requestSize) {r : Region}
    (hr : ddrFirst ≤ r.first) : (requestRegion layout).Apart r := by
  obtain ⟨⟨-, hend⟩, -⟩ := checkLayout_eq_ok hlayout
  have hdtcm : dtcmStart.toNat + dtcmSize.toNat ≤ ddrFirst := by decide
  apply Region.apart_of_le
  show layout.dispatchRequestAddr.toNat + requestSize ≤ r.first
  omega

/-- The contents of a binding are in its block when the simulator starts. -/
theorem prepareInline_contents {file : List UInt8} {device : Memory}
    {state : InlineDispatchState wz} {ordinal localMemoryLength : UInt64} {host : Memory}
    {layout : ElfLayout} {m : Memory}
    (h : prepareInline file device state ordinal localMemoryLength host = .ok (layout, m))
    {i a o : Nat} {range : HostRange} {block : Region} (hi : state.ranges[i]? = some range)
    (hb : (state.plan layout localMemoryLength).blocks[i]? = some block)
    (ha : range.1 = some a) (ho : o < range.2.toNat) : m (block.first + o) = host (a + o) := by
  obtain ⟨-, hlayout, hsize, m₃, hplaced, rfl⟩ := prepareInline_placed h
  have hbinding : (hostBindings (state.contents host))[i]? = some (range.binding host) := by
    rw [hostBindings_contents, List.getElem?_map, hi]
    rfl
  have hcontents := (hplaced.bindings i _ block hbinding hb).contents
  have hhost : (range.binding host).1.getD [] = readMem host a range.2.toNat := by
    rw [HostRange.binding, HostRange.contents, ha]
    rfl
  rw [hhost] at hcontents
  have hlength : range.2.toNat = block.length := by
    have := length_of_getElem?_bump hb
    rw [List.map_map, List.getElem?_map, hi] at this
    exact Option.some.inj this
  -- the request lies elsewhere
  have hblock := (hplaced.blocks block (List.mem_of_getElem? hb)).1
  have hout : ¬ (requestRegion layout).Has (block.first + o) := fun hhas =>
    requestRegion_apart_blocks hlayout hsize hblock _ hhas
      ⟨Nat.le_add_right _ _, Nat.add_lt_add_left (by omega) _⟩
  rw [storeRequest_of_not_has hout]
  have hentry := congrArg (fun bytes => bytes[o]?) hcontents
  have hread : ∀ (m : Memory) (b : Nat), (readMem m b range.2.toNat)[o]? = some (m (b + o)) := by
    intro m b
    rw [readMem, List.getElem?_map, List.getElem?_range ho]
    rfl
  exact Option.some.inj ((hread m₃ block.first).symm.trans (hentry.trans (hread host a)))

end CoralNPU.Sim
