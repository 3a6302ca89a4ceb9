import CoralNPU.Sim.Dispatch

namespace CoralNPU.Sim

open Lib

/-!
# The simulator path of the command buffer

`iree_hal_coralnpu_command_buffer_dispatch` for a simulator executable, down to the first kernel
call of the firmware.

* `DispatchCommand` — the arguments of the dispatch; `buildDispatchState` fills the command
  buffer's dispatch state from them, and `commandBufferDispatch` issues it.
* `Decodes` — a dispatch state of the firmware is the dispatch that was asked for.
* `Fits` — every count of the dispatch fits the narrowest field on its way.
* `decodes_iff_fits` — the dispatch that reaches the kernel call is the one that was asked for
  exactly when its counts fit.
-/

variable {σ : Type} {wz : Nat}

/-! ### The dispatch of the command buffer -/

/-- A binding of a dispatch, by what mapping its buffer gives: the mapped bytes, and whether the
    buffer allows writes. -/
structure BufferRef where
  map : Except Status (List UInt8)
  writeable : Bool
  /-- The mapped range lies in the address space of the host. -/
  length_lt : ∀ bytes, map = .ok bytes → bytes.length < 2 ^ 64

/-- The workgroup count of a dispatch: given with it, or in a buffer that is mapped. -/
inductive WorkgroupCount
  | direct (x y z : UInt32)
  | indirect (parameters : Except Status (UInt32 × UInt32 × UInt32))

/-- The three counts. -/
def WorkgroupCount.get : WorkgroupCount → Except Status (UInt32 × UInt32 × UInt32)
  | .direct x y z => .ok (x, y, z)
  | .indirect parameters => parameters

/-- The arguments of `iree_hal_coralnpu_command_buffer_dispatch`. -/
structure DispatchCommand where
  usesCustomArguments : Bool
  workgroupSizeX : UInt32
  workgroupSizeY : UInt32
  workgroupSizeZ : UInt32
  workgroupCount : WorkgroupCount
  constants : List UInt8
  bindings : List BufferRef

/-- How the command buffer can fail: with a status, or by writing past its binding storage. -/
inductive CommandFailure
  | status (failure : Status)
  | outOfBounds

/-- A workgroup size of the config; zero leaves it to the runtime, which takes one. -/
def requestedSize (size : UInt32) : UInt32 := if size ≠ 0 then size else 1

/-- A status as the result of the command. -/
def orFail {α : Type} : Except Status α → Except CommandFailure α
  | .ok a => .ok a
  | .error failure => .error (.status failure)

/-- The little-endian words of a byte string, as the cast to `const uint32_t*` reads them. -/
def wordsOf : List UInt8 → List UInt32
  | b₀ :: b₁ :: b₂ :: b₃ :: bytes => UInt32.ofNat (ofLE [b₀, b₁, b₂, b₃]) :: wordsOf bytes
  | _ => []

/-- The loop that maps the bindings into storage for `maxBindings` of them, from binding `i`
    on. -/
def mapBindings (maxBindings : Nat) :
    Nat → List BufferRef → Except CommandFailure (List (List UInt8 × Bool))
  | _, [] => .ok []
  | i, binding :: bindings => do
    let bytes ← orFail binding.map
    if i ≥ maxBindings then
      throw .outOfBounds
    let rest ← mapBindings maxBindings (i + 1) bindings
    return (bytes, binding.writeable) :: rest

/-- The dispatch state that the command buffer fills for counts `x`, `y`, `z` and mapped
    bindings. -/
def fillDispatchState (wz : Nat) (command : DispatchCommand) (x y z : UInt32)
    (mapped : List (List UInt8 × Bool)) : HostDispatchState wz where
  workgroupSizeX := requestedSize command.workgroupSizeX
  workgroupSizeY := requestedSize command.workgroupSizeY
  -- the conversions that lose bits: to the widths of the runtime's struct
  workgroupSizeZ := BitVec.ofNat wz (requestedSize command.workgroupSizeZ).toNat
  constantCount := UInt16.ofNat (command.constants.length / 4)
  workgroupCountX := x
  workgroupCountY := y
  workgroupCountZ := z.toUInt16
  maxConcurrency := 1
  bindingCount := UInt8.ofNat command.bindings.length
  constants := some (wordsOf command.constants)
  bindingPtrs := some (mapped.map fun b => some b.1)
  bindingLengths := some (mapped.map fun b => UInt64.ofNat b.1.length)

/-- The dispatch state and `binding_writeable` of a command. -/
def buildDispatchState (wz maxBindings : Nat) (command : DispatchCommand) :
    Except CommandFailure (HostDispatchState wz × List Bool) := do
  if command.usesCustomArguments then
    throw (.status ⟨.unimplemented,
      "direct/indirect arguments are not supported on the inline CPU command buffer"⟩)
  let (x, y, z) ← orFail command.workgroupCount.get
  if command.constants.length % 4 ≠ 0 then
    throw (.status ⟨.failedPrecondition, "constants must be 4-byte aligned"⟩)
  let mapped ← mapBindings maxBindings 0 command.bindings
  return (fillDispatchState wz command x y z mapped, mapped.map Prod.snd)

/-- `iree_hal_coralnpu_command_buffer_dispatch` for a simulator executable.  No local memory
    is passed on. -/
def commandBufferDispatch (image : Image σ wz) (maxBindings : Nat) (command : DispatchCommand)
    (exportOrdinal : UInt64) (n : Nat) : Except CommandFailure (DispatchResult σ wz) := do
  let (state, bindingWriteable) ← buildDispatchState wz maxBindings command
  return issueDispatchInline image state (some bindingWriteable) exportOrdinal 0 n

/-! ### What the firmware should see -/

/-- The dispatch state of a device that is about to call the kernel for the first time. -/
def Device.firstCall? (d : Device σ wz) : Option (DeviceDispatchState wz) :=
  match d.pc with
  | .call l _ _ _ => if d.called.isEmpty then some l.dispatchState else none
  | _ => none

theorem Device.firstCall?_eq_some {d : Device σ wz} {ds : DeviceDispatchState wz}
    (h : d.firstCall? = some ds) :
    d.called = [] ∧ ∃ l z y x, d.pc = .call l z y x ∧ l.dispatchState = ds := by
  obtain ⟨pc, mem, called, returned⟩ := d
  cases pc with
  | call l z y x =>
    simp only [Device.firstCall?] at h
    split at h
    next hempty => exact ⟨List.isEmpty_iff.mp hempty, l, z, y, x, rfl, Option.some.inj h⟩
    next => cases h
  | _ => cases h

/-- **The dispatch that was asked for**, as a kernel finds it in `ds` and in the memory. -/
structure Decodes (command : DispatchCommand) (ds : DeviceDispatchState wz) (m : Memory) :
    Prop where
  sizeX : ds.workgroupSizeX = requestedSize command.workgroupSizeX
  sizeY : ds.workgroupSizeY = requestedSize command.workgroupSizeY
  sizeZ : ds.workgroupSizeZ.toNat = (requestedSize command.workgroupSizeZ).toNat
  counts : ∃ z, command.workgroupCount.get = .ok (ds.workgroupCountX, ds.workgroupCountY, z) ∧
    ds.workgroupCountZ.toNat = z.toNat
  constantCount : ds.constantCount.toNat = (wordsOf command.constants).length
  constants : wordsOf command.constants ≠ [] → ∃ address, ds.constants = some address ∧
    loadArray 4 m address.toNat (wordsOf command.constants).length
      = (wordsOf command.constants).map UInt32.toNat
  bindingCount : ds.bindingCount.toNat = command.bindings.length
  /-- The pointer and the length of every binding, and the bytes they refer to. -/
  bindings : ∀ i binding bytes, command.bindings[i]? = some binding → binding.map = .ok bytes →
    ∃ ptrs lengths address, ds.bindingPtrs = some ptrs ∧ ds.bindingLengths = some lengths ∧
      load 4 m (ptrs.toNat + 4 * i) = address ∧ load 4 m (lengths.toNat + 4 * i) = bytes.length ∧
      readMem m address bytes.length = bytes

/-- Every count of the dispatch fits the narrowest field on its way to the kernel. -/
structure Fits (wz maxBindings : Nat) (command : DispatchCommand) : Prop where
  constants : (wordsOf command.constants).length < 2 ^ 8
  bindings : command.bindings.length < 2 ^ 8
  storage : command.bindings.length ≤ maxBindings
  countZ : ∀ x y z, command.workgroupCount.get = .ok (x, y, z) → z.toNat < 2 ^ 16
  sizeZ : (requestedSize command.workgroupSizeZ).toNat < 2 ^ wz

/-! ### The state that the command buffer fills -/

theorem length_wordsOf (bytes : List UInt8) : (wordsOf bytes).length = bytes.length / 4 := by
  fun_induction wordsOf bytes with
  | case1 b₀ b₁ b₂ b₃ bytes ih =>
    simp only [List.length_cons, ih]
    omega
  | case2 bytes hshort =>
    rcases bytes with _ | ⟨b₀, _ | ⟨b₁, _ | ⟨b₂, _ | ⟨b₃, bytes⟩⟩⟩⟩
    · simp
    · simp
    · simp
    · simp
    · exact absurd rfl (hshort b₀ b₁ b₂ b₃ bytes)

theorem orFail_eq_ok {α : Type} {x : Except Status α} {a : α} : orFail x = .ok a ↔ x = .ok a := by
  cases x <;> simp [orFail]

theorem orFail_eq_status {α : Type} {x : Except Status α} {failure : Status} :
    orFail x = .error (.status failure) ↔ x = .error failure := by
  cases x <;> simp [orFail]

/-- What the loop over the bindings gives: their bytes, in order, and there is storage for all
    of them. -/
theorem mapBindings_eq_ok {maxBindings : Nat} {bindings : List BufferRef} :
    ∀ {i : Nat} {mapped : List (List UInt8 × Bool)},
      mapBindings maxBindings i bindings = .ok mapped →
      mapped.length = bindings.length ∧ (bindings = [] ∨ i + bindings.length ≤ maxBindings) ∧
        ∀ (j : Nat) (binding : BufferRef) (bytes : List UInt8), bindings[j]? = some binding →
          binding.map = .ok bytes → mapped[j]? = some (bytes, binding.writeable) := by
  induction bindings with
  | nil =>
    intro i mapped h
    obtain rfl := Except.ok.inj h
    exact ⟨rfl, Or.inl rfl, by simp⟩
  | cons binding bindings ih =>
    intro i mapped h
    obtain ⟨bytes, hmap, h⟩ := bind_eq_ok.mp h
    simp only at h
    split at h
    · cases h
    next hroom =>
    obtain ⟨rest, hrest, h⟩ := bind_eq_ok.mp h
    obtain rfl := Except.ok.inj h
    obtain ⟨hlength, hstorage, hget⟩ := ih hrest
    refine ⟨by rw [List.length_cons, List.length_cons, hlength], Or.inr ?_, fun j b bs hj hb => ?_⟩
    · rcases hstorage with hnil | hle
      · rw [hnil]
        simp only [List.length_cons, List.length_nil]
        omega
      · rw [List.length_cons]
        omega
    · cases j with
      | zero =>
        obtain rfl : binding = b := by simpa using hj
        rw [orFail_eq_ok] at hmap
        obtain rfl : bytes = bs := Except.ok.inj (hmap.symm.trans hb)
        rfl
      | succ j => exact hget j b bs (by simpa using hj) hb

/-- A loop over the bindings that fails with a status met a binding that does not map. -/
theorem mapBindings_eq_status {maxBindings : Nat} {bindings : List BufferRef} {failure : Status} :
    ∀ {i : Nat}, mapBindings maxBindings i bindings = .error (.status failure) →
      ∃ binding ∈ bindings, binding.map = .error failure := by
  induction bindings with
  | nil => intro i h; cases h
  | cons binding bindings ih =>
    intro i h
    rcases bind_eq_error.mp h with hmap | ⟨bytes, -, h⟩
    · exact ⟨binding, List.mem_cons_self, orFail_eq_status.mp hmap⟩
    · simp only at h
      split at h
      · cases h
      rcases bind_eq_error.mp h with hrest | ⟨_, -, h⟩
      · obtain ⟨b, hb, hfail⟩ := ih hrest
        exact ⟨b, List.mem_cons_of_mem _ hb, hfail⟩
      · cases h

/-- A mapped binding is one of the command's. -/
theorem mem_mapBindings {maxBindings : Nat} {bindings : List BufferRef} :
    ∀ {i : Nat} {mapped : List (List UInt8 × Bool)},
      mapBindings maxBindings i bindings = .ok mapped →
      ∀ b ∈ mapped, ∃ binding ∈ bindings, binding.map = .ok b.1 := by
  induction bindings with
  | nil =>
    intro i mapped h b hb
    obtain rfl := Except.ok.inj h
    cases hb
  | cons binding bindings ih =>
    intro i mapped h b hb
    obtain ⟨bytes, hmap, h⟩ := bind_eq_ok.mp h
    simp only at h
    split at h
    · cases h
    obtain ⟨rest, hrest, h⟩ := bind_eq_ok.mp h
    obtain rfl := Except.ok.inj h
    rcases List.mem_cons.mp hb with rfl | hb
    · exact ⟨binding, List.mem_cons_self, orFail_eq_ok.mp hmap⟩
    · obtain ⟨b', hb', hmap'⟩ := ih hrest b hb
      exact ⟨b', List.mem_cons_of_mem _ hb', hmap'⟩

/-- The parts of a dispatch state that was built. -/
theorem buildDispatchState_eq_ok {maxBindings : Nat} {command : DispatchCommand}
    {state : HostDispatchState wz} {writeable : List Bool}
    (h : buildDispatchState wz maxBindings command = .ok (state, writeable)) :
    ∃ x y z mapped, command.workgroupCount.get = .ok (x, y, z) ∧
      mapBindings maxBindings 0 command.bindings = .ok mapped ∧
      state = fillDispatchState wz command x y z mapped := by
  simp only [buildDispatchState] at h
  split at h
  · cases h
  obtain ⟨⟨x, y, z⟩, hget, h⟩ := bind_eq_ok.mp h
  simp only at h
  split at h
  · cases h
  obtain ⟨mapped, hmapped, h⟩ := bind_eq_ok.mp h
  obtain ⟨rfl, -⟩ := Prod.mk.inj (Except.ok.inj h)
  exact ⟨x, y, z, mapped, orFail_eq_ok.mp hget, hmapped, rfl⟩

/-- The causes for which the command buffer itself rejects a dispatch.  No count is one. -/
theorem buildDispatchState_eq_status {maxBindings : Nat} {command : DispatchCommand}
    {failure : Status} (h : buildDispatchState wz maxBindings command = .error (.status failure)) :
    command.usesCustomArguments = true ∨ command.workgroupCount.get = .error failure ∨
      command.constants.length % 4 ≠ 0 ∨
      ∃ binding ∈ command.bindings, binding.map = .error failure := by
  simp only [buildDispatchState] at h
  split at h
  next hcustom => exact Or.inl hcustom
  rcases bind_eq_error.mp h with hget | ⟨_, -, h⟩
  · exact Or.inr (Or.inl (orFail_eq_status.mp hget))
  split at h
  next hlength => exact Or.inr (Or.inr (Or.inl hlength))
  rcases bind_eq_error.mp h with hmap | ⟨_, -, h⟩
  · exact Or.inr (Or.inr (Or.inr (mapBindings_eq_status hmap)))
  · cases h

theorem orFail_ne_outOfBounds {α : Type} {x : Except Status α} :
    orFail x ≠ .error .outOfBounds := by
  cases x <;> simp [orFail]

/-- The loop over the bindings stays within storage that has room for all of them. -/
theorem mapBindings_ne_outOfBounds {maxBindings : Nat} {bindings : List BufferRef} :
    ∀ {i : Nat}, i + bindings.length ≤ maxBindings →
      mapBindings maxBindings i bindings ≠ .error .outOfBounds := by
  induction bindings with
  | nil => intro i _ h; cases h
  | cons binding bindings ih =>
    intro i hroom h
    rw [List.length_cons] at hroom
    rcases bind_eq_error.mp h with hmap | ⟨_, -, h⟩
    · exact orFail_ne_outOfBounds hmap
    · simp only [show ¬ i ≥ maxBindings by omega, if_false] at h
      rcases bind_eq_error.mp h with hrest | ⟨_, -, h⟩
      · exact ih (by omega) hrest
      · cases h

theorem buildDispatchState_ne_outOfBounds {maxBindings : Nat} {command : DispatchCommand}
    (hroom : command.bindings.length ≤ maxBindings) :
    buildDispatchState wz maxBindings command ≠ .error .outOfBounds := by
  intro h
  simp only [buildDispatchState] at h
  split at h
  · cases h
  rcases bind_eq_error.mp h with hget | ⟨_, -, h⟩
  · exact orFail_ne_outOfBounds hget
  split at h
  · cases h
  rcases bind_eq_error.mp h with hmap | ⟨_, -, h⟩
  · exact mapBindings_ne_outOfBounds (by omega) hmap
  · cases h

section Filled

variable {maxBindings : Nat} {command : DispatchCommand} {x y z : UInt32}
  {mapped : List (List UInt8 × Bool)}

/-- The bindings that the filled state announces. -/
theorem hostBindings_fillDispatchState :
    hostBindings (fillDispatchState wz command x y z mapped) =
      (mapped.map fun b => (some b.1, UInt64.ofNat b.1.length)).take
        (UInt8.ofNat command.bindings.length).toNat := by
  rw [hostBindings]
  show List.take _ ((mapped.map _).zip (mapped.map _)) = _
  rw [List.zip_map']
  rfl

theorem wellSized_fillDispatchState
    (hmapped : mapBindings maxBindings 0 command.bindings = .ok mapped) :
    WellSized (hostBindings (fillDispatchState wz command x y z mapped)) := by
  intro ptr length hmem bytes hptr
  rw [hostBindings_fillDispatchState] at hmem
  obtain ⟨b, hb, hpair⟩ := List.mem_map.mp (List.mem_of_mem_take hmem)
  obtain ⟨rfl, rfl⟩ := Prod.mk.inj hpair
  obtain rfl := Option.some.inj hptr
  obtain ⟨binding, -, hmap⟩ := mem_mapBindings hmapped b hb
  have hlt := binding.length_lt _ hmap
  rw [UInt64.toNat_ofNat', Nat.mod_eq_of_lt hlt]

end Filled

/-! ### The first call of the kernel -/

/-- How the linker lays the executable out: the request lies before the heap, and the startup
    code leaves both and the DDR memory alone. -/
structure Image.LaidOut (image : Image σ wz) : Prop where
  disjoint : ∀ m layout, image.elf = .ok (m, layout) →
    layout.dispatchRequestAddr.toNat + requestSize ≤ layout.heapStartAddr.toNat
  request : ∀ m layout, image.elf = .ok (m, layout) →
    image.firmware.StartupKeeps layout.dispatchRequestAddr.toNat requestSize
  heap : ∀ m layout, image.elf = .ok (m, layout) →
    image.firmware.StartupKeeps layout.heapStartAddr.toNat
      (layout.heapEndAddr.toNat - layout.heapStartAddr.toNat)
  ddr : image.firmware.StartupKeeps ddrFirst (ddrLimit - ddrFirst)

/-- **At the first call** the dispatch state is the one that `main` makes of the host's request,
    and what the request refers to is still in place. -/
theorem atFirstCall_of_prepared {image : Image σ wz} (hlaid : image.LaidOut)
    {state : HostDispatchState wz} (hsized : WellSized (hostBindings state))
    {ordinal localMemoryLength : UInt64} {layout : ElfLayout} {m : Memory}
    (h : prepareDispatch image state ordinal localMemoryLength = .ok (layout, m)) {n : Nat}
    {ds : DeviceDispatchState wz}
    (hcall : (run image.firmware layout.dispatchRequestAddr.toNat n m).firstCall? = some ds) :
    ∃ constants ptrs lengths localMemory,
      ds = deviceDispatchState wz
        (makeRequest state ordinal.toUInt32 constants ptrs lengths localMemory) ∧
      DispatchPlaced layout state (run image.firmware layout.dispatchRequestAddr.toNat n m).mem
        constants ptrs lengths := by
  obtain ⟨m₀, helf, hcheck, hsize, hencode⟩ := prepareDispatch_eq_ok h
  obtain ⟨-, -, hheap, hend⟩ := checkLayout_eq_ok hcheck
  have hdisjoint := hlaid.disjoint m₀ layout helf
  obtain ⟨constants, ptrs, lengths, localMemory, hreq, hplaced⟩ :=
    encodeDispatch_eq_ok hcheck hdisjoint hsized hencode
  obtain ⟨constants', ptrs', lengths', localMemory', hreq', hptrs⟩ := prepareDispatch_request h
  have hsame := hreq'.symm.trans hreq
  rw [hsame] at hptrs
  have hkeeps : image.firmware.StartupKeepsRequest layout.dispatchRequestAddr.toNat :=
    fun clear hclear m => loadRequest_congr (hlaid.request m₀ layout helf clear hclear m)
  obtain ⟨hcalled, l, z, y, x, hpc, hds⟩ := Device.firstCall?_eq_some hcall
  have hready := makeRequest_ready state ordinal.toUInt32 constants ptrs lengths localMemory
  obtain ⟨hinv, hagreeHeap⟩ := untouchedInv_run hkeeps (hlaid.heap m₀ layout helf) hdisjoint hready
    hptrs hreq n hcalled
  have hdtcm : dtcmStart.toNat + dtcmSize.toNat ≤ ddrFirst := by decide
  obtain ⟨-, hagreeDdr⟩ := untouchedInv_run hkeeps hlaid.ddr (by omega) hready hptrs hreq n hcalled
  refine ⟨constants, ptrs, lengths, localMemory, ?_, hplaced.congr hagreeHeap hagreeDdr⟩
  simp only [Inv, hpc] at hinv
  rw [← hds, hinv.2.1.dispatchState]

/-! ### What the firmware decodes -/

section Decode

variable {maxBindings : Nat} {command : DispatchCommand} {x y z : UInt32}
  {mapped : List (List UInt8 × Bool)} {ordinal constants ptrs lengths localMemory : UInt32}

/-- The constant count on its way: 16 bits in the host's state, 8 bits in the request. -/
theorem decoded_constantCount :
    (deviceDispatchState wz (makeRequest (fillDispatchState wz command x y z mapped) ordinal
      constants ptrs lengths localMemory)).constantCount.toNat
        = (wordsOf command.constants).length % 2 ^ 8 := by
  rw [length_wordsOf]
  show (UInt16.ofNat (command.constants.length / 4)).toUInt8.toUInt16.toNat = _
  rw [UInt8.toNat_toUInt16, UInt16.toNat_toUInt8, UInt16.toNat_ofNat']
  omega

/-- The binding count on its way: 8 bits in the host's state. -/
theorem decoded_bindingCount :
    (deviceDispatchState wz (makeRequest (fillDispatchState wz command x y z mapped) ordinal
      constants ptrs lengths localMemory)).bindingCount.toNat
        = command.bindings.length % 2 ^ 8 :=
  UInt8.toNat_ofNat'

/-- The z count on its way: 16 bits in both dispatch states. -/
theorem decoded_countZ :
    (deviceDispatchState wz (makeRequest (fillDispatchState wz command x y z mapped) ordinal
      constants ptrs lengths localMemory)).workgroupCountZ.toNat = z.toNat % 2 ^ 16 := by
  show z.toUInt16.toUInt32.toUInt16.toNat = _
  rw [UInt32.toNat_toUInt16, UInt16.toNat_toUInt32, UInt32.toNat_toUInt16]
  omega

/-- The z size on its way: `wz` bits in both dispatch states. -/
theorem decoded_sizeZ :
    (deviceDispatchState wz (makeRequest (fillDispatchState wz command x y z mapped) ordinal
      constants ptrs lengths localMemory)).workgroupSizeZ.toNat
        = (requestedSize command.workgroupSizeZ).toNat % 2 ^ wz := by
  have hlt := (requestedSize command.workgroupSizeZ).toNat_lt
  have hle := Nat.mod_le (requestedSize command.workgroupSizeZ).toNat (2 ^ wz)
  show (BitVec.setWidth wz (UInt32.ofBitVec (BitVec.setWidth 32
    (BitVec.ofNat wz (requestedSize command.workgroupSizeZ).toNat))).toBitVec).toNat = _
  rw [UInt32.toBitVec_ofBitVec, BitVec.toNat_setWidth, BitVec.toNat_setWidth, BitVec.toNat_ofNat,
    Nat.mod_eq_of_lt (Nat.lt_of_le_of_lt hle hlt), Nat.mod_mod]

/-- When the counts fit, the firmware decodes the dispatch that was asked for. -/
theorem decodes_of_fits (hget : command.workgroupCount.get = .ok (x, y, z))
    (hmapped : mapBindings maxBindings 0 command.bindings = .ok mapped)
    (hfits : Fits wz maxBindings command) {layout : ElfLayout} {m : Memory}
    (hplaced : DispatchPlaced layout (fillDispatchState wz command x y z mapped) m constants ptrs
      lengths) :
    Decodes command (deviceDispatchState wz (makeRequest
      (fillDispatchState wz command x y z mapped) ordinal constants ptrs lengths localMemory)) m := by
  have hwords : (UInt16.ofNat (command.constants.length / 4)).toNat
      = (wordsOf command.constants).length := by
    have hlt := hfits.constants
    rw [UInt16.toNat_ofNat', ← length_wordsOf]
    omega
  have hcount : (UInt8.ofNat command.bindings.length).toNat = command.bindings.length := by
    have hlt := hfits.bindings
    rw [UInt8.toNat_ofNat']
    omega
  constructor
  case sizeX => rfl
  case sizeY => rfl
  case sizeZ => rw [decoded_sizeZ, Nat.mod_eq_of_lt hfits.sizeZ]
  case counts =>
    refine ⟨z, hget, ?_⟩
    rw [decoded_countZ, Nat.mod_eq_of_lt (hfits.countZ x y z hget)]
  case constantCount => rw [decoded_constantCount, Nat.mod_eq_of_lt hfits.constants]
  case bindingCount => rw [decoded_bindingCount, Nat.mod_eq_of_lt hfits.bindings]
  case constants =>
    intro hne
    have hpos : 0 < (wordsOf command.constants).length := List.length_pos_iff.mpr hne
    have hstate : (UInt16.ofNat (command.constants.length / 4)) ≠ 0 := by
      intro hzero
      rw [hzero] at hwords
      exact absurd hwords (Nat.ne_of_lt hpos)
    have hrequest : (UInt16.ofNat (command.constants.length / 4)).toUInt8 ≠ 0 := by
      intro hzero
      have hlow := congrArg UInt8.toNat hzero
      rw [UInt16.toNat_toUInt8, hwords, Nat.mod_eq_of_lt hfits.constants] at hlow
      exact absurd hlow (Nat.ne_of_gt hpos)
    have hcontents := hplaced.constantsContents hstate
    refine ⟨constants, if_neg hrequest, ?_⟩
    -- all of the words have been placed
    have htake : (wordsOf command.constants).take
        (UInt16.ofNat (command.constants.length / 4)).toNat = wordsOf command.constants := by
      rw [hwords, List.take_length]
    rw [← htake]
    exact hcontents
  case bindings =>
    intro i binding bytes hi hmap
    obtain ⟨-, -, hall⟩ := mapBindings_eq_ok hmapped
    have hlt : i < command.bindings.length := (List.getElem?_eq_some_iff.mp hi).1
    have hhost : (hostBindings (fillDispatchState wz command x y z mapped))[i]?
        = some (some bytes, UInt64.ofNat bytes.length) := by
      rw [hostBindings_fillDispatchState, hcount, List.getElem?_take_of_lt hlt, List.getElem?_map,
        hall i binding bytes hi hmap]
      rfl
    obtain ⟨address, -, -, hat⟩ := hplaced.bindings i _ hhost
    have hlen : (UInt64.ofNat bytes.length).toNat = bytes.length := by
      rw [UInt64.toNat_ofNat', Nat.mod_eq_of_lt (binding.length_lt bytes hmap)]
    have hrequest : UInt8.ofNat command.bindings.length ≠ 0 := by
      intro hzero
      rw [hzero] at hcount
      exact absurd hcount (Nat.ne_of_lt (Nat.lt_of_le_of_lt (Nat.zero_le i) hlt))
    refine ⟨ptrs, lengths, address, if_neg hrequest, if_neg hrequest, hat.ptr,
      hat.length.trans hlen, ?_⟩
    have hcontents := hat.contents
    rwa [hlen] at hcontents

/-- When the firmware decodes the dispatch that was asked for, the counts fit. -/
theorem fits_of_decodes (hget : command.workgroupCount.get = .ok (x, y, z))
    (hmapped : mapBindings maxBindings 0 command.bindings = .ok mapped) {m : Memory}
    (hdecodes : Decodes command (deviceDispatchState wz (makeRequest
      (fillDispatchState wz command x y z mapped) ordinal constants ptrs lengths localMemory)) m) :
    Fits wz maxBindings command := by
  -- a count that survives a reduction is below its modulus
  have hmod : ∀ {v b : Nat}, 0 < b → v % b = v → v < b := fun hb hv => hv ▸ Nat.mod_lt _ hb
  obtain ⟨-, hstorage, -⟩ := mapBindings_eq_ok hmapped
  constructor
  case constants =>
    exact hmod (by decide) (decoded_constantCount.symm.trans hdecodes.constantCount)
  case bindings =>
    exact hmod (by decide) (decoded_bindingCount.symm.trans hdecodes.bindingCount)
  case storage =>
    rcases hstorage with hnil | hle
    · rw [hnil]
      exact Nat.zero_le _
    · omega
  case countZ =>
    intro x' y' z' hget'
    obtain ⟨z'', hget'', hz⟩ := hdecodes.counts
    obtain ⟨rfl, rfl, rfl⟩ : x = x' ∧ y = y' ∧ z = z' := by
      simpa using hget.symm.trans hget'
    have hzz : z = z'' := by
      have := hget.symm.trans hget''
      simp only [Except.ok.injEq, Prod.mk.injEq] at this
      exact this.2.2
    rw [← hzz] at hz
    exact hmod (by decide) (decoded_countZ.symm.trans hz)
  case sizeZ => exact hmod (Nat.two_pow_pos wz) (decoded_sizeZ.symm.trans hdecodes.sizeZ)

end Decode

/-! ### The round trip -/

/-- **The firmware decodes the dispatch that was asked for exactly when its counts fit.** At the
    first kernel call of every run, the dispatch state and the memory are those of the command
    if and only if every count fits.  More bindings than the storage holds are not rejected
    either but written past its end; and the command buffer rejects no dispatch for a count. -/
theorem decodes_iff_fits (image : Image σ wz) (hlaid : image.LaidOut) (maxBindings : Nat)
    (command : DispatchCommand) (exportOrdinal : UInt64) (n : Nat) :
    (∀ result d ds,
      commandBufferDispatch image maxBindings command exportOrdinal n = .ok result →
      result.device = some d → d.firstCall? = some ds →
        (Decodes command ds d.mem ↔ Fits wz maxBindings command)) ∧
    (commandBufferDispatch image maxBindings command exportOrdinal n = .error .outOfBounds →
      ¬ Fits wz maxBindings command) ∧
    ∀ failure,
      commandBufferDispatch image maxBindings command exportOrdinal n = .error (.status failure) →
      command.usesCustomArguments = true ∨ command.workgroupCount.get = .error failure ∨
        command.constants.length % 4 ≠ 0 ∨
        ∃ binding ∈ command.bindings, binding.map = .error failure := by
  refine ⟨fun result d ds hok hdevice hcall => ?_, fun hbounds hfits => ?_, fun failure hfail => ?_⟩
  · obtain ⟨⟨state, writeable⟩, hbuild, hresult⟩ := bind_eq_ok.mp hok
    obtain rfl := Except.ok.inj hresult
    obtain ⟨x, y, z, mapped, hget, hmapped, rfl⟩ := buildDispatchState_eq_ok hbuild
    cases hprep : prepareDispatch image (fillDispatchState wz command x y z mapped)
        exportOrdinal 0 with
    | error failure => simp [issueDispatchInline, hprep] at hdevice
    | ok prepared =>
      obtain ⟨layout, m⟩ := prepared
      obtain ⟨hrun, -⟩ := issueDispatchInline_of_prepared hprep
      obtain rfl := Option.some.inj (hrun.symm.trans hdevice)
      obtain ⟨constants, ptrs, lengths, localMemory, rfl, hplaced⟩ :=
        atFirstCall_of_prepared hlaid (wellSized_fillDispatchState hmapped) hprep hcall
      exact ⟨fits_of_decodes hget hmapped, fun hfits => decodes_of_fits hget hmapped hfits hplaced⟩
  · rcases bind_eq_error.mp hbounds with hbuild | ⟨_, -, hissue⟩
    · exact buildDispatchState_ne_outOfBounds hfits.storage hbuild
    · cases hissue
  · rcases bind_eq_error.mp hfail with hbuild | ⟨_, -, hissue⟩
    · exact buildDispatchState_eq_status hbuild
    · cases hissue

/-- A dispatch of `z` planes of one workgroup, with one constant and one binding. -/
def planes (z : UInt32) : DispatchCommand where
  usesCustomArguments := false
  workgroupSizeX := 0
  workgroupSizeY := 0
  workgroupSizeZ := 0
  workgroupCount := .direct 1 1 z
  constants := [42, 0, 0, 0]
  bindings := [{ map := .ok [7], writeable := true, length_lt := by rintro _ ⟨⟩; decide }]

theorem emptyKernelImage_laidOut : emptyKernelImage.LaidOut := by
  refine ⟨fun m layout h => ?_, fun m layout _ clear hclear => ?_,
    fun m layout _ clear hclear => ?_, fun clear hclear => ?_⟩
  · obtain ⟨-, rfl⟩ := Prod.mk.inj (Except.ok.inj h)
    decide
  · cases hclear
  · cases hclear
  · cases hclear

/-- One plane fits: the kernel finds the dispatch that was asked for. -/
theorem decodes_iff_fits_planes :
    ∃ d ds, (issueDispatchInline emptyKernelImage (fillDispatchState 16 (planes 1) 1 1 1 [([7], true)])
        (some [true]) 0 0 10).device = some d ∧ d.firstCall? = some ds ∧
      Decodes (planes 1) ds d.mem := by
  have hcall : ((issueDispatchInline emptyKernelImage
      (fillDispatchState 16 (planes 1) 1 1 1 [([7], true)]) (some [true]) 0 0 10).device.bind
        Device.firstCall?).isSome := by decide
  obtain ⟨ds, hds⟩ := Option.isSome_iff_exists.mp hcall
  obtain ⟨d, hd, hfirst⟩ := Option.bind_eq_some_iff.mp hds
  have hfits : Fits 16 64 (planes 1) := by
    refine ⟨by decide, by decide, by decide, fun x y z h => ?_, by decide⟩
    obtain ⟨-, -, rfl⟩ : _ ∧ _ ∧ 1 = z := by simpa [planes, WorkgroupCount.get] using h
    decide
  exact ⟨d, ds, hd, hfirst, ((decodes_iff_fits emptyKernelImage emptyKernelImage_laidOut 64
    (planes 1) 0 10).1 _ d ds rfl hd hfirst).mpr hfits⟩

/-- 65537 planes are accepted, and the kernel is called for a dispatch of one plane. -/
theorem decodes_planes_truncated :
    ∃ result d ds, commandBufferDispatch emptyKernelImage 64 (planes 65537) 0 10 = .ok result ∧
      result.device = some d ∧ d.firstCall? = some ds ∧ ds.workgroupCountZ = 1 ∧
      ¬ Decodes (planes 65537) ds d.mem := by
  have hcall : (((issueDispatchInline emptyKernelImage
      (fillDispatchState 16 (planes 65537) 1 1 65537 [([7], true)]) (some [true]) 0 0 10).device.bind
        Device.firstCall?).map fun ds => ds.workgroupCountZ) = some 1 := by decide
  obtain ⟨ds, hds, hz⟩ := Option.map_eq_some_iff.mp hcall
  obtain ⟨d, hd, hfirst⟩ := Option.bind_eq_some_iff.mp hds
  refine ⟨_, d, ds, rfl, hd, hfirst, hz, fun hdecodes => ?_⟩
  obtain ⟨z, hget, hcount⟩ := hdecodes.counts
  obtain ⟨-, -, rfl⟩ : _ ∧ _ ∧ 65537 = z := by simpa [planes, WorkgroupCount.get] using hget
  rw [hz] at hcount
  exact absurd hcount (by decide)

end CoralNPU.Sim
