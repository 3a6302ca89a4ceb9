import CoralNPU.Sim.Dispatch
import CoralNPU.Sim.ElfSegments

namespace CoralNPU.Sim

open Lib

/-!
# The host memory of a simulator dispatch

`iree_hal_simulator_issue_dispatch_inline` on an ELF file, with the bindings in host memory and
any simulator.

* `Image.ofElf` — the executable that the loader makes of a file.
* `HostRange`, `InlineDispatchState` — a binding by its address in host memory, and the dispatch
  state with such bindings; `contents` reads them.
* `issueInline` — the host function.  The simulator is an argument: any function from the memory
  that it is started with to the memory that it leaves.
* `ddrAddresses` — the addresses that the allocator gives to a list of lengths;
  `placeBindings_addresses` and `readBackInline_addresses` — both passes over the bindings use
  them.
* `issueInline_host` — what a dispatch does to host memory.
-/

variable {σ : Type} {wz : Nat}

/-! ### Executables from files -/

/-- The executable of a file, loaded into the memory `device`. -/
def Image.ofElf (file : List UInt8) (device : Memory) (firmware : Firmware σ wz) : Image σ wz where
  elf :=
    match (loadUnchecked file).result with
    | .ok layout => .ok (applyWrites device (loadUnchecked file).events, layout)
    | .error (.failed failure) => .error failure
    -- no access is out of bounds
    | .error .outOfBounds => .error ⟨.internal, "out of bounds"⟩
  firmware := firmware

/-- **The executable of a file is what the loader makes of the file.** -/
theorem loadElfWithLayout_ofElf {file : List UInt8} {device m : Memory}
    {firmware : Firmware σ wz} {layout : ElfLayout}
    (h : loadElfWithLayout (Image.ofElf file device firmware) = .ok (m, layout)) :
    (loadElf file).result = .ok layout ∧ m = applyWrites device (loadElf file).events := by
  obtain ⟨⟨m₁, layout₁⟩, helf, h⟩ := bind_eq_ok.mp h
  obtain ⟨_, hcheck, h⟩ := bind_eq_ok.mp h
  obtain ⟨rfl, rfl⟩ := Prod.mk.inj (Except.ok.inj h)
  simp only [Image.ofElf] at helf
  split at helf
  next layout₂ hload =>
    obtain ⟨rfl, rfl⟩ := Prod.mk.inj (Except.ok.inj helf)
    have hresult : loadElf file
        = ⟨(loadUnchecked file).events ++ [], .ok layout₂⟩ := by
      rw [loadElf, Traced.bind_of_ok hload]
      rw [hcheck]
      rfl
    rw [hresult, List.append_nil]
    exact ⟨rfl, rfl⟩
  next => cases helf
  next => cases helf

/-! ### Bindings in host memory -/

/-- A binding: its address, which may be null, and its length. -/
abbrev HostRange := Option Nat × UInt64

/-- The address in host memory belongs to the binding. -/
def HostRange.Covers (range : HostRange) (p : Nat) : Prop :=
  ∃ a, range.1 = some a ∧ a ≤ p ∧ p < a + range.2.toNat

/-- The bytes of the binding. -/
def HostRange.contents (host : Memory) (range : HostRange) : Option (List UInt8) :=
  range.1.map fun a => readMem host a range.2.toNat

/-- `iree_hal_executable_dispatch_state_v0_t` with its bindings in host memory. -/
abbrev InlineDispatchState := DispatchState (List UInt32) (List (Option Nat)) (List UInt64)

/-- The bindings that the state announces. -/
def InlineDispatchState.ranges (state : InlineDispatchState wz) : List HostRange :=
  ((state.bindingPtrs.getD []).zip (state.bindingLengths.getD [])).take state.bindingCount.toNat

/-- The dispatch state with the contents of its bindings. -/
def InlineDispatchState.contents (state : InlineDispatchState wz) (host : Memory) :
    HostDispatchState wz where
  workgroupSizeX := state.workgroupSizeX
  workgroupSizeY := state.workgroupSizeY
  workgroupSizeZ := state.workgroupSizeZ
  constantCount := state.constantCount
  workgroupCountX := state.workgroupCountX
  workgroupCountY := state.workgroupCountY
  workgroupCountZ := state.workgroupCountZ
  maxConcurrency := state.maxConcurrency
  bindingCount := state.bindingCount
  constants := state.constants
  bindingPtrs := state.bindingPtrs.map fun ptrs =>
    (ptrs.zip (state.bindingLengths.getD [])).map (HostRange.contents host)
  bindingLengths := state.bindingLengths

/-- The contents and the length of a binding. -/
def HostRange.binding (host : Memory) (range : HostRange) : Option (List UInt8) × UInt64 :=
  (range.contents host, range.2)

theorem zip_map_contents (host : Memory) (ptrs : List (Option Nat)) :
    ∀ lengths : List UInt64, ((ptrs.zip lengths).map (HostRange.contents host)).zip lengths
      = (ptrs.zip lengths).map (HostRange.binding host) := by
  induction ptrs with
  | nil => exact fun _ => rfl
  | cons ptr ptrs ih =>
    intro lengths
    cases lengths with
    | nil => rfl
    | cons length lengths =>
      rw [List.zip_cons_cons, List.map_cons, List.map_cons, List.zip_cons_cons, ih]
      rfl

/-- The bindings that are copied are those of the state. -/
theorem hostBindings_contents (state : InlineDispatchState wz) (host : Memory) :
    hostBindings (state.contents host) = state.ranges.map (HostRange.binding host) := by
  have hptrs : (state.contents host).bindingPtrs.getD []
      = ((state.bindingPtrs.getD []).zip (state.bindingLengths.getD [])).map
        (HostRange.contents host) := by
    show (state.bindingPtrs.map _).getD [] = _
    cases state.bindingPtrs with
    | none => rfl
    | some ptrs => rfl
  rw [hostBindings, hptrs]
  show (List.zip _ (state.bindingLengths.getD [])).take state.bindingCount.toNat = _
  rw [zip_map_contents, InlineDispatchState.ranges, List.map_take]

/-! ### The host function -/

/-- `simulator_read_mem(address, binding_ptr, binding_length)` -/
def readInto (device host : Memory) (range : HostRange) (address : UInt32) : Memory :=
  match range.1 with
  | some a => writeMem host a (readMem device address.toNat range.2.toNat)
  | none => host

/-- The loop that copies results back to host memory.  Returns the status and the memory. -/
def readBackInline (bindingWriteable : Option (List Bool)) (device : Memory) :
    UInt32 → Nat → List HostRange → Memory → Except Status Unit × Memory
  | _, _, [], host => (.ok (), host)
  | cursor, i, range :: ranges, host =>
    match allocateDdr cursor 64 range.2 with
    | .error failure => (.error failure, host)
    | .ok (address, cursor) =>
      let host :=
        if range.2 ≠ 0 ∧ isWriteable bindingWriteable i then readInto device host range address
        else host
      readBackInline bindingWriteable device cursor (i + 1) ranges host

/-- The host function up to the start of the simulator. -/
def prepareInline (file : List UInt8) (device : Memory) (state : InlineDispatchState wz)
    (ordinal localMemoryLength : UInt64) (host : Memory) : Except Status (ElfLayout × Memory) :=
  prepareDispatch (Image.ofElf file device (⟨[], none⟩ : Firmware Unit wz)) (state.contents host)
    ordinal localMemoryLength

/-- `iree_hal_simulator_issue_dispatch_inline` with the simulator `simulate`.  Returns the status
    and the host memory. -/
def issueInline (file : List UInt8) (device : Memory) (simulate : UInt32 → Memory → Memory)
    (state : InlineDispatchState wz) (bindingWriteable : Option (List Bool))
    (ordinal localMemoryLength : UInt64) (host : Memory) : Except Status Unit × Memory :=
  match prepareInline file device state ordinal localMemoryLength host with
  | .error failure => (.error failure, host)
  | .ok (layout, m) =>
    let device := simulate layout.startPc m
    match checkResult layout device with
    | .error failure => (.error failure, host)
    | .ok () => readBackInline bindingWriteable device 0x80000000 0 state.ranges host

/-! ### The addresses of the bindings -/

/-- The addresses that `iree_hal_coralnpu_allocate_ddr` gives to bindings of these lengths. -/
def ddrAddresses : UInt32 → List UInt64 → Except Status (List UInt32)
  | _, [] => .ok []
  | cursor, length :: lengths => do
    let (address, cursor) ← allocateDdr cursor 64 length
    let addresses ← ddrAddresses cursor lengths
    return address :: addresses

/-- The way in, with the addresses given. -/
def placeAt (ptrsAddr lengthsAddr : UInt32) :
    Memory → Nat → List ((Option (List UInt8) × UInt64) × UInt32) → Memory
  | m, _, [] => m
  | m, i, ((ptr, length), address) :: bindings =>
    let m := store 4 m (ptrsAddr.toNat + 4 * i) address.toNat
    let m := store 4 m (lengthsAddr.toNat + 4 * i) length.toUInt32.toNat
    let m := if length ≠ 0 then writeMem m address.toNat ((ptr.getD []).take length.toNat) else m
    placeAt ptrsAddr lengthsAddr m (i + 1) bindings

/-- The way back, with the addresses given. -/
def copyBack (bindingWriteable : Option (List Bool)) (device : Memory) :
    Nat → List (HostRange × UInt32) → Memory → Memory
  | _, [], host => host
  | i, (range, address) :: ranges, host =>
    copyBack bindingWriteable device (i + 1) ranges
      (if range.2 ≠ 0 ∧ isWriteable bindingWriteable i then readInto device host range address
       else host)

theorem length_of_ddrAddresses {lengths : List UInt64} :
    ∀ {cursor : UInt32} {addresses : List UInt32}, ddrAddresses cursor lengths = .ok addresses →
      addresses.length = lengths.length := by
  induction lengths with
  | nil =>
    intro cursor addresses h
    obtain rfl := Except.ok.inj h
    rfl
  | cons length lengths ih =>
    intro cursor addresses h
    obtain ⟨⟨address, cursor'⟩, -, h⟩ := bind_eq_ok.mp h
    obtain ⟨rest, hrest, h⟩ := bind_eq_ok.mp h
    obtain rfl := Except.ok.inj h
    rw [List.length_cons, List.length_cons, ih hrest]

/-- **The first pass** places the bindings at the allocator's addresses. -/
theorem placeBindings_addresses {ptrsAddr lengthsAddr : UInt32}
    {bindings : List (Option (List UInt8) × UInt64)} :
    ∀ {m m' : Memory} {cursor : UInt32} {i : Nat},
      placeBindings ptrsAddr lengthsAddr m cursor i bindings = .ok m' →
      ∃ addresses, ddrAddresses cursor (bindings.map Prod.snd) = .ok addresses ∧
        m' = placeAt ptrsAddr lengthsAddr m i (bindings.zip addresses) := by
  induction bindings with
  | nil =>
    intro m m' cursor i h
    obtain rfl := Except.ok.inj h
    exact ⟨[], rfl, rfl⟩
  | cons binding bindings ih =>
    obtain ⟨ptr, length⟩ := binding
    intro m m' cursor i h
    simp only [placeBindings] at h
    split at h
    · cases h
    split at h
    · cases h
    obtain ⟨⟨address, cursor'⟩, halloc, hrest⟩ := bind_eq_ok.mp h
    obtain ⟨addresses, haddresses, hm'⟩ := ih hrest
    refine ⟨address :: addresses, ?_, hm'⟩
    rw [List.map_cons, ddrAddresses]
    show (allocateDdr cursor 64 length >>= _) = _
    rw [halloc, ok_bind]
    simp only [haddresses, ok_bind, pure_eq_ok]

/-- **The second pass** goes through the same addresses, and cannot fail where the first did
    not. -/
theorem readBackInline_addresses {bindingWriteable : Option (List Bool)} {device : Memory}
    {ranges : List HostRange} :
    ∀ {cursor : UInt32} {i : Nat} {host : Memory} {addresses : List UInt32},
      ddrAddresses cursor (ranges.map Prod.snd) = .ok addresses →
      readBackInline bindingWriteable device cursor i ranges host
        = (.ok (), copyBack bindingWriteable device i (ranges.zip addresses) host) := by
  induction ranges with
  | nil => intro cursor i host addresses _; rfl
  | cons range ranges ih =>
    intro cursor i host addresses h
    rw [List.map_cons, ddrAddresses] at h
    obtain ⟨⟨address, cursor'⟩, halloc, h⟩ := bind_eq_ok.mp h
    obtain ⟨rest, hrest, h⟩ := bind_eq_ok.mp h
    obtain rfl := Except.ok.inj h
    rw [readBackInline, halloc]
    exact ih hrest

/-- A copy changes the bytes of its binding only. -/
theorem readInto_unchanged {device host : Memory} {range : HostRange} {address : UInt32} {p : Nat}
    (h : ¬ range.Covers p) : readInto device host range address p = host p := by
  obtain ⟨_ | a, length⟩ := range
  · rfl
  · have hout : p + 1 ≤ a ∨ a + (readMem device address.toNat length.toNat).length ≤ p := by
      rw [length_readMem]
      by_contra hin
      exact h ⟨a, rfl, by omega, by show p < a + length.toNat; omega⟩
    exact writeMem_agreeOn hout p (Nat.le_refl p) (Nat.lt_succ_self p)

/-- The way back changes bytes of writeable bindings only. -/
theorem copyBack_unchanged {bindingWriteable : Option (List Bool)} {device : Memory} {p : Nat}
    {ranges : List (HostRange × UInt32)} :
    ∀ {i : Nat} {host : Memory},
      (∀ j range, ranges[j]? = some range → isWriteable bindingWriteable (i + j) = true →
        ¬ range.1.Covers p) →
      copyBack bindingWriteable device i ranges host p = host p := by
  induction ranges with
  | nil => intro i host _; rfl
  | cons range ranges ih =>
    obtain ⟨range, address⟩ := range
    intro i host h
    rw [copyBack, ih]
    · split
      next hwriteable =>
        exact readInto_unchanged (h 0 (range, address) rfl hwriteable.2)
      next => rfl
    · intro j r hj hwriteable
      exact h (j + 1) r hj (by rwa [show i + (j + 1) = i + 1 + j by omega])

/-! ### Host memory after a dispatch -/

/-- What a preparation that succeeds does with the bindings. -/
theorem prepareInline_addresses {file : List UInt8} {device : Memory}
    {state : InlineDispatchState wz} {ordinal localMemoryLength : UInt64} {host : Memory}
    {layout : ElfLayout} {m : Memory}
    (h : prepareInline file device state ordinal localMemoryLength host = .ok (layout, m)) :
    ∃ addresses m₁ constants ptrs lengths localMemory,
      ddrAddresses 0x80000000 (state.ranges.map Prod.snd) = .ok addresses ∧
      m = storeRequest
        (placeAt ptrs lengths m₁ 0 ((state.ranges.map (HostRange.binding host)).zip addresses))
        layout.dispatchRequestAddr.toNat
        (makeRequest (state.contents host) ordinal.toUInt32 constants ptrs lengths localMemory) := by
  obtain ⟨m₀, -, -, -, hencode⟩ := prepareDispatch_eq_ok h
  obtain ⟨⟨m₁, c₁, constants⟩, -, hencode⟩ := bind_eq_ok.mp hencode
  obtain ⟨⟨c₂, ptrs, lengths⟩, -, hencode⟩ := bind_eq_ok.mp hencode
  obtain ⟨⟨m₂, localMemory⟩, -, hencode⟩ := bind_eq_ok.mp hencode
  obtain ⟨m₃, hbindings, hencode⟩ := bind_eq_ok.mp hencode
  obtain rfl := Except.ok.inj hencode
  rw [hostBindings_contents] at hbindings
  obtain ⟨addresses, haddresses, rfl⟩ := placeBindings_addresses hbindings
  rw [List.map_map] at haddresses
  exact ⟨addresses, m₂, constants, ptrs, lengths, localMemory, haddresses, rfl⟩

/-- **How a dispatch ends**: with an error and host memory as it was, or with the contents that the
    simulator leaves at the addresses of the first pass copied back. -/
theorem issueInline_cases (file : List UInt8) (device : Memory)
    (simulate : UInt32 → Memory → Memory) (state : InlineDispatchState wz)
    (bindingWriteable : Option (List Bool)) (ordinal localMemoryLength : UInt64) (host : Memory) :
    (∃ failure,
      issueInline file device simulate state bindingWriteable ordinal localMemoryLength host
        = (.error failure, host)) ∨
    ∃ layout m addresses,
      prepareInline file device state ordinal localMemoryLength host = .ok (layout, m) ∧
      checkResult layout (simulate layout.startPc m) = .ok () ∧
      ddrAddresses 0x80000000 (state.ranges.map Prod.snd) = .ok addresses ∧
      issueInline file device simulate state bindingWriteable ordinal localMemoryLength host
        = (.ok (), copyBack bindingWriteable (simulate layout.startPc m) 0
            (state.ranges.zip addresses) host) := by
  cases hprep : prepareInline file device state ordinal localMemoryLength host with
  | error failure =>
    refine .inl ⟨failure, ?_⟩
    simp only [issueInline, hprep]
  | ok prepared =>
    obtain ⟨layout, m⟩ := prepared
    cases hcheck : checkResult layout (simulate layout.startPc m) with
    | error failure =>
      refine .inl ⟨failure, ?_⟩
      simp only [issueInline, hprep, hcheck]
    | ok u =>
      obtain ⟨addresses, -, -, -, -, -, haddresses, -⟩ := prepareInline_addresses hprep
      refine .inr ⟨layout, m, addresses, rfl, hcheck, haddresses, ?_⟩
      simp only [issueInline, hprep, hcheck]
      exact readBackInline_addresses haddresses

/-- **A dispatch and host memory.** When it fails, host memory is unchanged.  When it succeeds,
    only bytes of writeable bindings have changed.  And once the preparation has succeeded, the
    second pass over the bindings uses, for every binding, the address that the first one used,
    and cannot fail. -/
theorem issueInline_host (file : List UInt8) (device : Memory) (simulate : UInt32 → Memory → Memory)
    (state : InlineDispatchState wz) (bindingWriteable : Option (List Bool))
    (ordinal localMemoryLength : UInt64) (host : Memory) :
    (∀ failure,
      (issueInline file device simulate state bindingWriteable ordinal localMemoryLength host).1
        = .error failure →
      (issueInline file device simulate state bindingWriteable ordinal localMemoryLength host).2
        = host) ∧
    ((issueInline file device simulate state bindingWriteable ordinal localMemoryLength host).1
        = .ok () →
      ∀ p, (∀ i range, state.ranges[i]? = some range → isWriteable bindingWriteable i = true →
          ¬ range.Covers p) →
        (issueInline file device simulate state bindingWriteable ordinal localMemoryLength host).2 p
          = host p) ∧
    ∀ layout m, prepareInline file device state ordinal localMemoryLength host = .ok (layout, m) →
      ∃ addresses : List UInt32, addresses.length = state.ranges.length ∧
        (∃ m₁ constants ptrs lengths localMemory, m = storeRequest
          (placeAt ptrs lengths m₁ 0 ((state.ranges.map (HostRange.binding host)).zip addresses))
          layout.dispatchRequestAddr.toNat
          (makeRequest (state.contents host) ordinal.toUInt32 constants ptrs lengths
            localMemory)) ∧
        ∀ device' host', readBackInline bindingWriteable device' 0x80000000 0 state.ranges host'
          = (.ok (), copyBack bindingWriteable device' 0 (state.ranges.zip addresses) host') := by
  have hcases := issueInline_cases file device simulate state bindingWriteable ordinal
    localMemoryLength host
  refine ⟨fun failure hfailed => ?_, fun hok p hp => ?_, fun layout m h => ?_⟩
  · rcases hcases with ⟨failure', h⟩ | ⟨layout, m, addresses, -, -, -, h⟩
    · rw [h]
    · rw [h] at hfailed
      cases hfailed
  · rcases hcases with ⟨failure', h⟩ | ⟨layout, m, addresses, -, -, -, h⟩
    · rw [h]
    · rw [h]
      apply copyBack_unchanged
      intro j range hj hwriteable
      rw [List.getElem?_zip_eq_some] at hj
      exact hp j range.1 hj.1 (by rwa [Nat.zero_add] at hwriteable)
  · obtain ⟨addresses, m₁, constants, ptrs, lengths, localMemory, haddresses, hm⟩ :=
      prepareInline_addresses h
    refine ⟨addresses, ?_, ⟨m₁, constants, ptrs, lengths, localMemory, hm⟩, fun _ _ => ?_⟩
    · rw [length_of_ddrAddresses haddresses, List.length_map]
    · exact readBackInline_addresses haddresses

end CoralNPU.Sim
