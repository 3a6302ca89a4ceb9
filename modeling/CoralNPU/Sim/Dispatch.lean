import CoralNPU.Sim.Firmware
import CoralNPU.Sim.Encode

namespace CoralNPU.Sim

open Lib

/-!
# A dispatch through the simulator

The host's `iree_hal_simulator_issue_dispatch_inline` composed with the firmware's `main`.

* `Image` — an executable: its ELF file, as the loader sees it, and the firmware it contains.
* `prepareDispatch` and `issueDispatchInline` — the host function up to the start of the
  simulator, and the whole of it.  The number of steps after which the simulator stops is an
  argument.
* `issueDispatchInline_ok_iff` — when the host reports success.
* `emptyKernelImage`, `singleWorkgroup` — the smallest dispatch, for a run that is stopped
  between its last call and its last store.
-/

variable {σ : Type} {wz : Nat}

/-- A loaded executable.  `elf` is what the loader makes of the file before its last checks:
    the memory with the segments in place, and the addresses of the symbols. -/
structure Image (σ : Type) (wz : Nat) where
  elf : Except Status (Memory × ElfLayout)
  firmware : Firmware σ wz

/-- `iree_hal_coralnpu_simulator_load_elf_with_layout` -/
def loadElfWithLayout (image : Image σ wz) : Except Status (Memory × ElfLayout) := do
  let (m, layout) ← image.elf
  checkLayout layout
  return (m, layout)

/-- What a dispatch leaves: the status, the contents of the bound buffers, and the device when
    the simulator stopped (`none` when it was not started). -/
structure DispatchResult (σ : Type) (wz : Nat) where
  status : Except Status Unit
  buffers : List (Option (List UInt8))
  device : Option (Device σ wz)

/-- `iree_hal_simulator_issue_dispatch_inline` up to the start of the simulator. -/
def prepareDispatch (image : Image σ wz) (state : HostDispatchState wz) (ordinal : UInt64)
    (localMemoryLength : UInt64) : Except Status (ElfLayout × Memory) := do
  if ordinal > 0xFFFFFFFF then
    throw ⟨.outOfRange, "dispatch ordinal is too large"⟩
  if state.constantCount ≠ 0 ∧ state.constants.isNone then
    throw ⟨.invalidArgument, "push constants are not initialized"⟩
  if state.bindingCount ≠ 0 ∧ (state.bindingPtrs.isNone ∨ state.bindingLengths.isNone) then
    throw ⟨.invalidArgument, "dispatch bindings are not initialized"⟩
  let (m, layout) ← loadElfWithLayout image
  if layout.dispatchRequestSize.toNat ≠ requestSize then
    throw ⟨.failedPrecondition, "CoralNPU dispatch ABI size mismatch: ELF="
      ++ toString layout.dispatchRequestSize ++ " runtime=" ++ toString requestSize⟩
  let m ← encodeDispatch layout state ordinal.toUInt32 localMemoryLength m
  return (layout, m)

/-- `iree_hal_simulator_issue_dispatch_inline`, with a simulator that runs the firmware until
    it halts or for `n` steps. -/
def issueDispatchInline (image : Image σ wz) (state : HostDispatchState wz)
    (bindingWriteable : Option (List Bool)) (ordinal localMemoryLength : UInt64) (n : Nat) :
    DispatchResult σ wz :=
  let unchanged := (hostBindings state).map Prod.fst
  match prepareDispatch image state ordinal localMemoryLength with
  | .error failure => ⟨.error failure, unchanged, none⟩
  | .ok (layout, m) =>
    let device := run image.firmware layout.dispatchRequestAddr.toNat n m
    match checkResult layout device.mem with
    | .error failure => ⟨.error failure, unchanged, some device⟩
    | .ok () =>
      let (status, buffers) :=
        readBack bindingWriteable device.mem 0x80000000 0 (hostBindings state)
      ⟨status, buffers, some device⟩

/-- The grid of a dispatch, the first coordinate innermost. -/
def HostDispatchState.grid (state : HostDispatchState wz) : List (Nat × Nat × Nat) :=
  Lib.grid state.workgroupCountX.toNat state.workgroupCountY.toNat state.workgroupCountZ.toNat

/-- The kernel was called exactly once for every workgroup of the grid, in order, and every call
    returned 0. -/
def Device.RanGrid (d : Device σ wz) (state : HostDispatchState wz) : Prop :=
  d.called.map WorkgroupState.id = state.grid ∧
    d.returned = List.replicate state.grid.length 0

/-- The startup code and the kernels of the executable leave the request alone. -/
def Image.KeepsRequest (image : Image σ wz) : Prop :=
  ∀ m layout, image.elf = .ok (m, layout) →
    image.firmware.KeepsRequest layout.dispatchRequestAddr.toNat

/-! ### The firmware runs the host's request -/

/-- What a successful preparation gives: the layout passed the loader's checks, and the memory
    holds the request. -/
theorem prepareDispatch_eq_ok {image : Image σ wz} {state : HostDispatchState wz}
    {ordinal localMemoryLength : UInt64} {layout : ElfLayout} {m : Memory}
    (h : prepareDispatch image state ordinal localMemoryLength = .ok (layout, m)) :
    ∃ m₀, image.elf = .ok (m₀, layout) ∧ checkLayout layout = .ok () ∧
      layout.dispatchRequestSize.toNat = requestSize ∧
      encodeDispatch layout state ordinal.toUInt32 localMemoryLength m₀ = .ok m := by
  simp only [prepareDispatch] at h
  split at h
  · cases h
  split at h
  · cases h
  split at h
  · cases h
  obtain ⟨⟨m₁, l₁⟩, hload, h⟩ := bind_eq_ok.mp h
  simp only at h
  split at h
  · cases h
  next hsize =>
  obtain ⟨m₂, hencode, h⟩ := bind_eq_ok.mp h
  obtain ⟨rfl, rfl⟩ := Prod.mk.inj (Except.ok.inj h)
  obtain ⟨⟨m₃, l₃⟩, helf, hload⟩ := bind_eq_ok.mp hload
  obtain ⟨_, hcheck, hload⟩ := bind_eq_ok.mp hload
  obtain ⟨rfl, rfl⟩ := Prod.mk.inj (Except.ok.inj hload)
  exact ⟨m₃, helf, hcheck, not_not.mp hsize, hencode⟩

theorem makeRequest_ready (state : HostDispatchState wz)
    (ordinal constants ptrs lengths localMemory : UInt32) :
    (makeRequest state ordinal constants ptrs lengths localMemory).Ready :=
  ⟨rfl, rfl, rfl⟩

/-- **The prepared request** is one that `main` accepts, for the grid and the ordinal of the
    dispatch. -/
theorem prepareDispatch_request {image : Image σ wz} {state : HostDispatchState wz}
    {ordinal localMemoryLength : UInt64} {layout : ElfLayout} {m : Memory}
    (h : prepareDispatch image state ordinal localMemoryLength = .ok (layout, m)) :
    ∃ constants ptrs lengths localMemory,
      loadRequest m layout.dispatchRequestAddr.toNat
        = makeRequest state ordinal.toUInt32 constants ptrs lengths localMemory ∧
      (makeRequest state ordinal.toUInt32 constants ptrs lengths localMemory).PointersSet := by
  obtain ⟨m₀, -, hcheck, -, hencode⟩ := prepareDispatch_eq_ok h
  obtain ⟨constants, ptrs, lengths, localMemory, hload, hconstants, htables⟩ :=
    encodeDispatch_request hcheck hencode
  refine ⟨constants, ptrs, lengths, localMemory, hload, fun hne => hconstants ?_, htables⟩
  -- a count whose low byte is not zero is not zero
  rintro hzero
  rw [makeRequest, hzero] at hne
  exact hne rfl

/-- A kernel sees the coordinates of the grid, where the planes fit the field for them. -/
theorem map_id_workgroups_grid {r : Request} (hplanes : r.workgroupCountZ.toNat < 2 ^ 16) :
    (workgroups r).map WorkgroupState.id
      = Lib.grid r.workgroupCountX.toNat r.workgroupCountY.toNat r.workgroupCountZ.toNat := by
  rw [workgroups, List.map_map]
  conv_rhs => rw [← List.map_id (Lib.grid _ _ _)]
  apply List.map_congr_left
  rintro ⟨x, y, z⟩ hc
  obtain ⟨hx, hy, hz⟩ := mem_grid.mp hc
  have hx' := r.workgroupCountX.toNat_lt
  have hy' := r.workgroupCountY.toNat_lt
  simp only at hx hy hz
  simp only [Function.comp_apply, workgroupAt, makeWorkgroupState, WorkgroupState.id, id_eq,
    UInt32.toNat_toUInt16, UInt32.toNat_ofNat']
  rw [Nat.mod_eq_of_lt (by omega), Nat.mod_eq_of_lt (by omega), Nat.mod_mod_of_dvd _ (by decide),
    Nat.mod_eq_of_lt (by omega)]

/-- The kernel sees the coordinates of the host's grid. -/
theorem map_id_workgroups (state : HostDispatchState wz)
    (ordinal constants ptrs lengths localMemory : UInt32) :
    (workgroups (makeRequest state ordinal constants ptrs lengths localMemory)).map
      WorkgroupState.id = state.grid := by
  have hz : state.workgroupCountZ.toUInt32.toNat = state.workgroupCountZ.toNat :=
    UInt16.toNat_toUInt32 _
  have hgrid := map_id_workgroups_grid
    (r := makeRequest state ordinal constants ptrs lengths localMemory)
    (hz ▸ state.workgroupCountZ.toNat_lt)
  rw [hgrid, HostDispatchState.grid]
  exact congrArg _ hz

/-- What the host concludes from the memory is whether the status is COMPLETE. -/
theorem checkResult_eq_ok_iff {layout : ElfLayout} {fw : Firmware σ wz} {d : Device σ wz}
    {r : Request} (hready : r.Ready) (hinv : Inv fw layout.dispatchRequestAddr.toNat r d) :
    checkResult layout d.mem = .ok () ↔
      d.HasStatus layout.dispatchRequestAddr.toNat .complete := by
  simp only [checkResult]
  constructor
  · intro h
    split at h
    · cases h
    split at h
    · cases h
    next hcomplete => exact not_not.mp hcomplete
  · intro hcomplete
    have hreq := hinv.loadRequest_of_complete hready hcomplete
    rw [hreq]
    simp [Request.running, hready.magic, hready.version]

/-! ### A dispatch of one workgroup -/

/-- An executable with one kernel, which returns 0 at once. -/
def emptyKernelImage : Image Unit 16 where
  elf := .ok (fun _ => 0, {
    startPc := 0
    dispatchRequestAddr := 0x00010000
    dispatchRequestSize := 60
    heapStartAddr := 0x00010040
    heapEndAddr := 0x00018000 })
  firmware := {
    startup := []
    library := some {
      exportPtrs := some fun _ => some ⟨fun _ _ => (), fun _ _ => .ret 0⟩
      exportCount := 1 } }

/-- A dispatch of one workgroup, without constants and bindings. -/
def singleWorkgroup : HostDispatchState 16 where
  workgroupSizeX := 1
  workgroupSizeY := 1
  workgroupSizeZ := 1
  constantCount := 0
  workgroupCountX := 1
  workgroupCountY := 1
  workgroupCountZ := 1
  maxConcurrency := 1
  bindingCount := 0
  constants := none
  bindingPtrs := none
  bindingLengths := none

/-- Whether the device ran the whole grid of the dispatch can be computed. -/
instance (d : Device σ wz) (state : HostDispatchState wz) : Decidable (d.RanGrid state) :=
  inferInstanceAs (Decidable (_ ∧ _))

/-! ### When the host reports success -/

/-- Success of the firmware, in the terms of the dispatch. -/
theorem Inv.succeeded_iff_ranGrid {image : Image σ wz} {state : HostDispatchState wz} {a : Nat}
    {ordinal constants ptrs lengths localMemory : UInt32} {d : Device σ wz}
    (hinv : Inv image.firmware a
      (makeRequest state ordinal constants ptrs lengths localMemory) d) :
    d.Succeeded image.firmware (makeRequest state ordinal constants ptrs lengths localMemory) ↔
      (image.firmware.kernel? ordinal).isSome ∧ d.RanGrid state := by
  have hids := map_id_workgroups state ordinal constants ptrs lengths localMemory
  have hlen := congrArg List.length hids
  rw [List.length_map] at hlen
  constructor
  · rintro ⟨hkernel, hcalled, hreturned⟩
    exact ⟨hkernel, by rw [hcalled, hids], by rw [hreturned, hlen]⟩
  · rintro ⟨hkernel, hcalled, hreturned⟩
    refine ⟨hkernel, ?_, by rw [hreturned, hlen]⟩
    -- the calls are the first workgroups, and there are as many as the grid has
    apply hinv.calls.1.eq_of_length
    rw [hlen, ← hcalled, List.length_map]

/-- The status of a dispatch whose preparation succeeds is the host's verdict on the memory that
    the firmware leaves: reading the results back cannot fail. -/
theorem issueDispatchInline_of_prepared {image : Image σ wz} {state : HostDispatchState wz}
    {bindingWriteable : Option (List Bool)} {ordinal localMemoryLength : UInt64} {n : Nat}
    {layout : ElfLayout} {m : Memory}
    (h : prepareDispatch image state ordinal localMemoryLength = .ok (layout, m)) :
    (issueDispatchInline image state bindingWriteable ordinal localMemoryLength n).device
        = some (run image.firmware layout.dispatchRequestAddr.toNat n m) ∧
      (issueDispatchInline image state bindingWriteable ordinal localMemoryLength n).status
        = checkResult layout (run image.firmware layout.dispatchRequestAddr.toNat n m).mem := by
  obtain ⟨m₀, -, -, -, hencode⟩ := prepareDispatch_eq_ok h
  obtain ⟨_, -, hencode⟩ := bind_eq_ok.mp hencode
  obtain ⟨_, -, hencode⟩ := bind_eq_ok.mp hencode
  obtain ⟨_, -, hencode⟩ := bind_eq_ok.mp hencode
  obtain ⟨_, hbindings, -⟩ := bind_eq_ok.mp hencode
  simp only [issueDispatchInline, h]
  split
  next failure hcheck => exact ⟨rfl, hcheck.symm⟩
  next hcheck => exact ⟨rfl, (readBack_ok_of_placeBindings _ _ hbindings).trans hcheck.symm⟩

/-- Wherever the simulator stops, the device satisfies the invariant for the prepared request. -/
theorem inv_of_prepared {image : Image σ wz} (hkeeps : image.KeepsRequest)
    {state : HostDispatchState wz} {ordinal localMemoryLength : UInt64} {layout : ElfLayout}
    {m : Memory} (h : prepareDispatch image state ordinal localMemoryLength = .ok (layout, m))
    (n : Nat) :
    ∃ constants ptrs lengths localMemory,
      Inv image.firmware layout.dispatchRequestAddr.toNat
        (makeRequest state ordinal.toUInt32 constants ptrs lengths localMemory)
        (run image.firmware layout.dispatchRequestAddr.toNat n m) := by
  obtain ⟨m₀, helf, -⟩ := prepareDispatch_eq_ok h
  obtain ⟨constants, ptrs, lengths, localMemory, hreq, hptrs⟩ := prepareDispatch_request h
  exact ⟨constants, ptrs, lengths, localMemory,
    inv_run (hkeeps m₀ layout helf) (makeRequest_ready _ _ _ _ _ _) hptrs hreq n⟩

/-- **Dispatch runs the whole grid or reports an error.** The host returns OK exactly when the
    firmware ran to its end, found the export, and called its kernel once for every workgroup,
    in order, each call returning 0.  Wherever the firmware is stopped, the calls made are the
    first ones of the grid, only the last of them can have failed, and the kernel that is called
    is the one of the ordinal.  A request that is not
    READY calls no kernel and ends in an error. -/
theorem issueDispatchInline_ok_iff (image : Image σ wz) (hkeeps : image.KeepsRequest)
    (state : HostDispatchState wz) (bindingWriteable : Option (List Bool))
    (ordinal localMemoryLength : UInt64) (n : Nat) :
    ((issueDispatchInline image state bindingWriteable ordinal localMemoryLength n).status = .ok ()
      ↔ ∃ d, (issueDispatchInline image state bindingWriteable ordinal localMemoryLength n).device
            = some d ∧ d.pc = .halted ∧
          (image.firmware.kernel? ordinal.toUInt32).isSome ∧ d.RanGrid state) ∧
    (∀ d, (issueDispatchInline image state bindingWriteable ordinal localMemoryLength n).device
        = some d →
      d.called.map WorkgroupState.id <+: state.grid ∧
        (∀ i, i + 1 < d.called.length → d.returned[i]? = some 0) ∧
        ∀ l z y x, d.pc = .call l z y x →
          image.firmware.kernel? ordinal.toUInt32 = some l.dispatch) ∧
    ∀ m₀ m layout, image.elf = .ok (m₀, layout) →
      ¬ (loadRequest m layout.dispatchRequestAddr.toNat).Ready →
      (run image.firmware layout.dispatchRequestAddr.toNat n m).called = [] ∧
        ((run image.firmware layout.dispatchRequestAddr.toNat n m).pc = .halted →
          checkResult layout (run image.firmware layout.dispatchRequestAddr.toNat n m).mem
            ≠ .ok ()) := by
  refine ⟨?_, ?_, ?_⟩
  · cases hprep : prepareDispatch image state ordinal localMemoryLength with
    | error failure =>
      -- nothing was run
      simp [issueDispatchInline, hprep]
    | ok prepared =>
      obtain ⟨layout, m⟩ := prepared
      obtain ⟨constants, ptrs, lengths, localMemory, hinv⟩ := inv_of_prepared hkeeps hprep n
      obtain ⟨hdevice, hstatus⟩ := issueDispatchInline_of_prepared hprep
      have hready := makeRequest_ready state ordinal.toUInt32 constants ptrs lengths localMemory
      rw [hdevice, hstatus, checkResult_eq_ok_iff hready hinv, hinv.complete_iff hready,
        hinv.succeeded_iff_ranGrid]
      simp only [Option.some.injEq, exists_eq_left']
  · intro d hd
    cases hprep : prepareDispatch image state ordinal localMemoryLength with
    | error failure => simp [issueDispatchInline, hprep] at hd
    | ok prepared =>
      obtain ⟨layout, m⟩ := prepared
      obtain ⟨constants, ptrs, lengths, localMemory, hinv⟩ := inv_of_prepared hkeeps hprep n
      obtain ⟨hdevice, -⟩ := issueDispatchInline_of_prepared hprep
      obtain rfl := Option.some.inj (hdevice.symm.trans hd)
      obtain ⟨hcalls, hzero⟩ := hinv.calls
      refine ⟨?_, fun i hi => hzero.getElem? hi, fun l z y x hpc => ?_⟩
      · rw [← map_id_workgroups state ordinal.toUInt32 constants ptrs lengths localMemory]
        exact hcalls.map _
      · simp only [Inv, hpc] at hinv
        exact hinv.2.1.dispatch
  · intro m₀ m layout helf hready
    obtain ⟨⟨hcalled, -⟩, herror⟩ := notReady_run (hkeeps m₀ layout helf) hready n
    refine ⟨hcalled, fun hhalt hok => ?_⟩
    have hstatus := herror hhalt
    simp only [checkResult] at hok
    split at hok
    · cases hok
    split at hok
    · cases hok
    next hcomplete =>
    rw [show _ = DispatchStatus.error.toUInt16 from hstatus] at hcomplete
    exact hcomplete (by decide)

/-- An executable whose kernel marks its workgroup in the heap, and returns 0. -/
def markingImage : Image (Option (Fin 4)) 16 where
  elf := emptyKernelImage.elf
  firmware := {
    startup := []
    library := some {
      exportPtrs := some fun _ => some
        { enter := fun _ w => some (Fin.ofNat 4 (2 * w.workgroupIdY.toNat + w.workgroupIdX.toNat))
          step := fun s m => match s with
            | some i => .run none (writeMem m (0x00010040 + i) [m (0x00010040 + i) + 1])
            | none => .ret 0 }
      exportCount := 1 } }

/-- The marks are behind the request. -/
theorem markingImage_keepsRequest : markingImage.KeepsRequest := by
  intro m₀ layout helf
  obtain ⟨-, rfl⟩ := Prod.mk.inj (Except.ok.inj helf)
  constructor
  · intro clear hclear
    cases hclear
  · intro ordinal kernel hkernel s m s' m' hstep
    simp only [Firmware.kernel?, markingImage, Option.bind_some, findExport] at hkernel
    split at hkernel
    · cases hkernel
    obtain rfl := Option.some.inj hkernel
    cases s with
    | none => cases hstep
    | some i =>
      obtain ⟨-, rfl⟩ := KernelStep.run.inj hstep
      exact loadRequest_congr (writeMem_agreeOn (.inl (Nat.le_add_right_of_le (by decide))))

/-- A dispatch of two rows of two workgroups. -/
def twoByTwo : HostDispatchState 16 := { singleWorkgroup with workgroupCountX := 2, workgroupCountY := 2 }

/-- The dispatch of four workgroups succeeds when the firmware is left to halt, and each has left its
    mark. -/
theorem issueDispatchInline_ok_iff_twoByTwo :
    markingImage.KeepsRequest ∧
      ∃ d, (issueDispatchInline markingImage twoByTwo none 0 0 32).device = some d ∧
        d.pc = .halted ∧ d.RanGrid twoByTwo ∧ readMem d.mem 0x00010040 4 = [1, 1, 1, 1] := by
  have hok := (issueDispatchInline_ok_iff markingImage markingImage_keepsRequest
    twoByTwo none 0 0 32).1.mp (by decide)
  have hmarks : ((issueDispatchInline markingImage twoByTwo none 0 0 32).device.map
      fun d => readMem d.mem 0x00010040 4) = some [1, 1, 1, 1] := by decide
  obtain ⟨d, hd, hhalt, -, hran⟩ := hok
  rw [hd] at hmarks
  exact ⟨markingImage_keepsRequest, d, hd, hhalt, hran, Option.some.inj hmarks⟩

/-- A simulator stopped after 12 steps has run the whole grid, but the firmware has not stored
    COMPLETE yet: the host reports an error. -/
theorem ranGrid_not_ok :
    (∃ d, (issueDispatchInline emptyKernelImage singleWorkgroup none 0 0 12).device = some d ∧
      d.RanGrid singleWorkgroup) ∧
    (issueDispatchInline emptyKernelImage singleWorkgroup none 0 0 12).status ≠ .ok () := by
  have hran : ((issueDispatchInline emptyKernelImage singleWorkgroup none 0 0 12).device.map
      fun d => decide (d.RanGrid singleWorkgroup)) = some true := by decide
  refine ⟨?_, by decide⟩
  obtain ⟨d, hd, hgrid⟩ := Option.map_eq_some_iff.mp hran
  exact ⟨d, hd, of_decide_eq_true hgrid⟩

end CoralNPU.Sim
