import CoralNPU.Lib.Except
import CoralNPU.Lib.Region
import CoralNPU.Sim.Request

namespace CoralNPU.Sim

open Lib

/-!
# The host side of a simulator dispatch

What `iree_hal_simulator_issue_dispatch_inline` does before and after it runs the simulator.

* `ElfLayout`, `checkLayout` — the addresses the ELF loader finds, and its last checks on them.
* `allocateDtcm`, `allocateDdr` — the two bump allocators; `allocate_eq_ok` is the one lemma
  the proofs use of them.
* `encodeDispatch` — places constants, binding tables, local memory, bindings and the request.
* `checkResult`, `readBack` — what the host does with the memory the simulator leaves.

What encoding guarantees is proved in `Encode`.
-/

/-! ### The layout of a loaded executable -/

/-- `coralnpu_dtcm_start` -/
def dtcmStart : UInt32 := 0x00010000

/-- `coralnpu_dtcm_size` -/
def dtcmSize : UInt32 := 0x00008000

/-- `iree_hal_coralnpu_simulator_elf_layout_t` -/
structure ElfLayout where
  startPc : UInt32
  dispatchRequestAddr : UInt32
  dispatchRequestSize : UInt32
  heapStartAddr : UInt32
  heapEndAddr : UInt32
  deriving DecidableEq

/-- `iree_hal_coralnpu_range_fits` -/
def rangeFits (base size address : UInt32) (length : UInt64) : Bool :=
  let first := address.toUInt64
  let last := first + length
  let regionFirst := base.toUInt64
  let regionLast := regionFirst + size.toUInt64
  decide (first ≥ regionFirst ∧ last ≥ first ∧ last ≤ regionLast)

/-- The checks at the end of `iree_hal_coralnpu_simulator_load_elf_with_layout`. -/
def checkLayout (layout : ElfLayout) : Except Status Unit :=
  if !rangeFits dtcmStart dtcmSize layout.dispatchRequestAddr
      layout.dispatchRequestSize.toUInt64 then
    .error ⟨.outOfRange, "CoralNPU dispatch request is outside DTCM"⟩
  else if layout.heapEndAddr < layout.heapStartAddr ∨
      !rangeFits dtcmStart dtcmSize layout.heapStartAddr
        (layout.heapEndAddr - layout.heapStartAddr).toUInt64 then
    .error ⟨.outOfRange, "ELF heap is outside DTCM"⟩
  else
    .ok ()

theorem rangeFits_true {base size address : UInt32} {length : UInt64}
    (hlength : length.toNat < 2 ^ 32) (h : rangeFits base size address length = true) :
    base.toNat ≤ address.toNat ∧ address.toNat + length.toNat ≤ base.toNat + size.toNat := by
  have hbase := base.toNat_lt
  have hsize := size.toNat_lt
  have haddr := address.toNat_lt
  simp only [rangeFits, decide_eq_true_eq, ge_iff_le, UInt64.le_iff_toNat_le, UInt64.toNat_add,
    UInt32.toNat_toUInt64] at h
  omega

/-- A layout that passes the loader's checks has its request and its heap in the DTCM. -/
theorem checkLayout_eq_ok {layout : ElfLayout} (h : checkLayout layout = .ok ()) :
    (dtcmStart.toNat ≤ layout.dispatchRequestAddr.toNat ∧
      layout.dispatchRequestAddr.toNat + layout.dispatchRequestSize.toNat
        ≤ dtcmStart.toNat + dtcmSize.toNat) ∧
    dtcmStart.toNat ≤ layout.heapStartAddr.toNat ∧
      layout.heapStartAddr.toNat ≤ layout.heapEndAddr.toNat ∧
      layout.heapEndAddr.toNat ≤ dtcmStart.toNat + dtcmSize.toNat := by
  simp only [checkLayout] at h
  split at h
  · cases h
  next hrequest =>
  split at h
  · cases h
  next hheap =>
  simp only [Bool.not_eq_eq_eq_not, Bool.not_true, Bool.not_eq_false, not_or,
    UInt32.not_lt] at hrequest hheap
  have hwide : ∀ v : UInt32, v.toUInt64.toNat < 2 ^ 32 := fun v => by
    rw [UInt32.toNat_toUInt64]
    exact v.toNat_lt
  have hr := rangeFits_true (hwide _) hrequest
  have hlen := UInt32.toNat_sub_of_le _ _ hheap.1
  have hh := rangeFits_true (hwide _) hheap.2
  simp only [UInt32.toNat_toUInt64] at hr hh
  have hle := UInt32.le_iff_toNat_le.mp hheap.1
  exact ⟨hr, hh.1, hle, by omega⟩

/-! ### The allocators -/

/-- The body of both allocators: align the cursor up, and fail past `limit`. -/
def allocate (limit : UInt64) (failure : Status) (cursor alignment : UInt32) (size : UInt64) :
    Except Status (UInt32 × UInt32) :=
  let aligned := (cursor.toUInt64 + alignment.toUInt64 - 1) &&& ~~~(alignment.toUInt64 - 1)
  let allocationEnd := aligned + size
  if allocationEnd < aligned ∨ allocationEnd > limit then
    .error failure
  else
    .ok (aligned.toUInt32, allocationEnd.toUInt32)

/-- `iree_hal_coralnpu_allocate_dtcm`.  Returns the address and the new cursor. -/
def allocateDtcm (cursor heapEnd alignment : UInt32) (size : UInt64) :
    Except Status (UInt32 × UInt32) :=
  allocate heapEnd.toUInt64
    ⟨.resourceExhausted, "dispatch data exceeds the firmware heap"⟩ cursor alignment size

/-- `iree_hal_coralnpu_allocate_ddr`.  Returns the address and the new cursor. -/
def allocateDdr (cursor alignment : UInt32) (size : UInt64) : Except Status (UInt32 × UInt32) :=
  allocate 0xC0000000
    ⟨.resourceExhausted, "dispatch data exceeds the DDR limit"⟩ cursor alignment size

/-- The mask of the allocators rounds down to a multiple of the alignment. -/
theorem toNat_and_not_mask {x : UInt64} {alignment : UInt32} {k : Nat} (hk : k < 32)
    (halign : alignment.toNat = 2 ^ k) :
    (x &&& ~~~(alignment.toUInt64 - 1)).toNat = x.toNat / 2 ^ k * 2 ^ k := by
  have hpos : 0 < 2 ^ k := Nat.two_pow_pos k
  have hle : (1 : UInt64) ≤ alignment.toUInt64 := by
    rw [UInt64.le_iff_toNat_le, UInt32.toNat_toUInt64, halign]
    exact hpos
  have hmask : UInt64.size - 1 - (2 ^ k - 1) = 2 ^ 64 - 2 ^ k := by
    show 2 ^ 64 - 1 - (2 ^ k - 1) = 2 ^ 64 - 2 ^ k
    omega
  rw [UInt64.toNat_and, UInt64.toNat_not, UInt64.toNat_sub_of_le _ _ hle, UInt32.toNat_toUInt64,
    halign, show (1 : UInt64).toNat = 1 from rfl, hmask,
    and_two_pow_sub x.toNat_lt (by omega)]

/-- **What an allocation gives.** The block starts at the cursor, aligned up, and the new cursor
    is the end of the block, within the limit. -/
theorem allocate_eq_ok_alignUp {limit : UInt64} {failure : Status} {cursor alignment : UInt32}
    {size : UInt64} {address cursor' : UInt32} {k : Nat} (hk : k < 32)
    (halign : alignment.toNat = 2 ^ k) (hlimit : limit.toNat < 2 ^ 32)
    (h : allocate limit failure cursor alignment size = .ok (address, cursor')) :
    address.toNat = alignUp (2 ^ k) cursor.toNat ∧ address.toNat + size.toNat = cursor'.toNat ∧
      cursor'.toNat ≤ limit.toNat := by
  have hc := cursor.toNat_lt
  have hs := size.toNat_lt
  have hpow : 2 ^ k ≤ 2 ^ 31 := Nat.pow_le_pow_right (by omega) (by omega)
  have hpos : 0 < 2 ^ k := Nat.two_pow_pos k
  simp only [allocate] at h
  -- the cursor, rounded up
  have hsum : (cursor.toUInt64 + alignment.toUInt64 - 1).toNat = cursor.toNat + (2 ^ k - 1) := by
    have hadd : (cursor.toUInt64 + alignment.toUInt64).toNat = cursor.toNat + 2 ^ k := by
      rw [UInt64.toNat_add, UInt32.toNat_toUInt64, UInt32.toNat_toUInt64, halign,
        Nat.mod_eq_of_lt (by omega)]
    rw [UInt64.toNat_sub_of_le _ _ (UInt64.le_iff_toNat_le.mpr (by rw [hadd]; show 1 ≤ _; omega)),
      hadd, show (1 : UInt64).toNat = 1 from rfl]
    omega
  have haligned := toNat_and_not_mask (x := cursor.toUInt64 + alignment.toUInt64 - 1) hk halign
  rw [hsum, ← alignUp] at haligned
  generalize (cursor.toUInt64 + alignment.toUInt64 - 1) &&& ~~~(alignment.toUInt64 - 1) = aligned
    at h haligned
  split at h
  · cases h
  next hfits =>
  simp only [UInt64.lt_iff_toNat_lt, gt_iff_lt, not_or, Nat.not_lt, UInt64.toNat_add] at hfits
  obtain ⟨rfl, rfl⟩ := Prod.mk.inj (Except.ok.inj h)
  rw [UInt64.toNat_toUInt32, UInt64.toNat_toUInt32, UInt64.toNat_add]
  omega

/-- The block lies between the old and the new cursor, and the new cursor within the limit. -/
theorem allocate_eq_ok {limit : UInt64} {failure : Status} {cursor alignment : UInt32}
    {size : UInt64} {address cursor' : UInt32} {k : Nat} (hk : k < 32)
    (halign : alignment.toNat = 2 ^ k) (hlimit : limit.toNat < 2 ^ 32)
    (h : allocate limit failure cursor alignment size = .ok (address, cursor')) :
    cursor.toNat ≤ address.toNat ∧ address.toNat + size.toNat = cursor'.toNat ∧
      cursor'.toNat ≤ limit.toNat := by
  obtain ⟨haddress, hend⟩ := allocate_eq_ok_alignUp hk halign hlimit h
  rw [haddress]
  rw [haddress] at hend
  exact ⟨le_alignUp (Nat.two_pow_pos k) _, hend⟩

/-! ### Encoding a dispatch -/

variable {wz : Nat}

/-- `iree_hal_coralnpu_zero_mem`, in chunks of at most 256 bytes. -/
def zeroMem (m : Memory) (address size : Nat) : Memory :=
  if size = 0 then
    m
  else
    let chunk := if size < 256 then size else 256
    zeroMem (writeMem m address (List.replicate chunk 0)) (address + chunk) (size - chunk)
termination_by size
decreasing_by grind

/-- The push constants in the DTCM heap.  Returns the memory, the heap cursor and
    `push_constants_addr`. -/
def placeConstants (layout : ElfLayout) (state : HostDispatchState wz) (m : Memory)
    (cursor : UInt32) : Except Status (Memory × UInt32 × UInt32) :=
  if state.constantCount ≠ 0 then do
    let (address, cursor) ← allocateDtcm cursor layout.heapEndAddr 4
      (state.constantCount.toUInt64 * 4)
    let constants := (state.constants.getD []).take state.constantCount.toNat
    return (storeArray 4 m address.toNat (constants.map UInt32.toNat), cursor, address)
  else
    return (m, cursor, 0)

/-- Room for the binding tables in the DTCM heap.  Returns the heap cursor,
    `binding_ptrs_addr` and `binding_lengths_addr`. -/
def allocateBindingTables (layout : ElfLayout) (state : HostDispatchState wz) (cursor : UInt32) :
    Except Status (UInt32 × UInt32 × UInt32) :=
  if state.bindingCount ≠ 0 then do
    let (ptrs, cursor) ← allocateDtcm cursor layout.heapEndAddr 4
      (state.bindingCount.toUInt64 * 4)
    let (lengths, cursor) ← allocateDtcm cursor layout.heapEndAddr 4
      (state.bindingCount.toUInt64 * 4)
    return (cursor, ptrs, lengths)
  else
    return (cursor, 0, 0)

/-- The workgroup-local memory in the DTCM heap, zeroed.  Returns the memory and
    `local_memory_addr`. -/
def placeLocalMemory (layout : ElfLayout) (localMemoryLength : UInt64) (m : Memory)
    (cursor : UInt32) : Except Status (Memory × UInt32) :=
  if localMemoryLength ≠ 0 then do
    let (address, _) ← allocateDtcm cursor layout.heapEndAddr 64 localMemoryLength
    return (zeroMem m address.toNat localMemoryLength.toNat, address)
  else
    return (m, 0)

/-- The pointer and the length of each binding that the state announces. -/
def hostBindings (state : HostDispatchState wz) : List (Option (List UInt8) × UInt64) :=
  ((state.bindingPtrs.getD []).zip (state.bindingLengths.getD [])).take state.bindingCount.toNat

/-- The loop over the bindings: the contents of binding `i` go to DDR memory, and row `i` of the
    two tables names the place. -/
def placeBindings (ptrsAddr lengthsAddr : UInt32) :
    Memory → UInt32 → Nat → List (Option (List UInt8) × UInt64) → Except Status Memory
  | m, _, _, [] => .ok m
  | m, cursor, i, (ptr, length) :: bindings => do
    if length > 0xFFFFFFFF then
      throw ⟨.resourceExhausted, "binding " ++ toString i ++ " is too large"⟩
    if length ≠ 0 ∧ ptr.isNone then
      throw ⟨.invalidArgument, "binding " ++ toString i ++ " has a null pointer"⟩
    let (address, cursor) ← allocateDdr cursor 64 length
    let m := store 4 m (ptrsAddr.toNat + 4 * i) address.toNat
    let m := store 4 m (lengthsAddr.toNat + 4 * i) length.toUInt32.toNat
    let m := if length ≠ 0 then writeMem m address.toNat ((ptr.getD []).take length.toNat) else m
    placeBindings ptrsAddr lengthsAddr m cursor (i + 1) bindings

/-- The request of a dispatch whose data lies at the given addresses. -/
def makeRequest (state : HostDispatchState wz) (ordinal pushConstantsAddr bindingPtrsAddr
    bindingLengthsAddr localMemoryAddr : UInt32) : Request where
  magic := dispatchMagic
  version := dispatchVersion
  status := DispatchStatus.ready.toUInt16
  returnCode := 0
  workgroupSizeX := state.workgroupSizeX
  workgroupSizeY := state.workgroupSizeY
  workgroupSizeZ := UInt32.ofBitVec (state.workgroupSizeZ.setWidth 32)
  workgroupCountX := state.workgroupCountX
  workgroupCountY := state.workgroupCountY
  workgroupCountZ := state.workgroupCountZ.toUInt32
  maxConcurrency := state.maxConcurrency.toUInt16
  -- the conversions that lose bits: 16-bit counts into 8-bit fields
  pushConstantCount := state.constantCount.toUInt8
  bindingCount := state.bindingCount
  ordinal := ordinal
  pushConstantsAddr := pushConstantsAddr
  bindingPtrsAddr := bindingPtrsAddr
  bindingLengthsAddr := bindingLengthsAddr
  localMemoryAddr := localMemoryAddr

/-- Everything the host puts into device memory before it runs the simulator. -/
def encodeDispatch (layout : ElfLayout) (state : HostDispatchState wz) (ordinal : UInt32)
    (localMemoryLength : UInt64) (m : Memory) : Except Status Memory := do
  let (m, cursor, pushConstantsAddr) ← placeConstants layout state m layout.heapStartAddr
  let (cursor, bindingPtrsAddr, bindingLengthsAddr) ← allocateBindingTables layout state cursor
  let (m, localMemoryAddr) ← placeLocalMemory layout localMemoryLength m cursor
  let m ← placeBindings bindingPtrsAddr bindingLengthsAddr m 0x80000000 0 (hostBindings state)
  return storeRequest m layout.dispatchRequestAddr.toNat
    (makeRequest state ordinal pushConstantsAddr bindingPtrsAddr bindingLengthsAddr
      localMemoryAddr)

/-! ### Reading the result -/

/-- What the host concludes from the request in the memory that the simulator leaves. -/
def checkResult (layout : ElfLayout) (m : Memory) : Except Status Unit :=
  let request := loadRequest m layout.dispatchRequestAddr.toNat
  if request.magic ≠ dispatchMagic ∨ request.version ≠ dispatchVersion then
    .error ⟨.dataLoss, "firmware corrupted the CoralNPU dispatch request"⟩
  else if request.status ≠ DispatchStatus.complete.toUInt16 then
    .error ⟨.internal, "firmware dispatch did not complete: status="
      ++ toString request.status ++ " return_code=" ++ toString request.returnCode⟩
  else if request.returnCode ≠ 0 then
    .error ⟨.internal, "firmware dispatch failed with return code "
      ++ toString request.returnCode⟩
  else
    .ok ()

/-- Whether the result of binding `i` is read back: `binding_writeable == NULL ||
    binding_writeable[i]`. -/
def isWriteable (bindingWriteable : Option (List Bool)) (i : Nat) : Bool :=
  match bindingWriteable with
  | none => true
  | some writeable => writeable.getD i false

/-- The loop that copies results back.  The DDR allocations are made again, in the same order,
    to find the addresses.  Returns the status and the contents of the buffers. -/
def readBack (bindingWriteable : Option (List Bool)) (m : Memory) :
    UInt32 → Nat → List (Option (List UInt8) × UInt64) →
      Except Status Unit × List (Option (List UInt8))
  | _, _, [] => (.ok (), [])
  | cursor, i, (ptr, length) :: bindings =>
    match allocateDdr cursor 64 length with
    | .error failure => (.error failure, ptr :: bindings.map Prod.fst)
    | .ok (address, cursor) =>
      let ptr' :=
        if length ≠ 0 ∧ isWriteable bindingWriteable i then
          ptr.map fun bytes => readMem m address.toNat length.toNat ++ bytes.drop length.toNat
        else
          ptr
      let (status, ptrs) := readBack bindingWriteable m cursor (i + 1) bindings
      (status, ptr' :: ptrs)

end CoralNPU.Sim
