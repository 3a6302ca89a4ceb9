import Mathlib.Logic.Function.Iterate
import CoralNPU.Lib.Grid
import CoralNPU.Sim.Request

namespace CoralNPU.Sim

open Lib

/-!
# The firmware of a dispatch

`main` of the firmware as a machine that takes one step for every store, test or call of the
source, so that a run can be cut anywhere.

* `Kernel`, `Library`, `Firmware` — the executable the firmware is linked with.  A kernel is a
  machine of its own: it steps, writing to memory as it likes, until it returns a code.
* `Device` — the state of the machine: the program point, the memory, and the record of the
  kernel calls and of the codes they returned.
* `step`, `run` — one step, and `n` of them; a halted machine stays as it is.
* `Inv` — what holds at each program point of a run that starts with a READY request;
  `inv_step` and `inv_run`.
* `UntouchedInv` — before the first call, memory outside the request is as the host left it.
* `NotReadyInv` — what holds along a run whose request fails the first check.
-/

/-! ### Executables -/

/-- `iree_hal_executable_workgroup_state_v0_t` -/
structure WorkgroupState where
  workgroupIdX : UInt32
  workgroupIdY : UInt32
  workgroupIdZ : UInt16
  processorId : UInt32
  localMemory : Option UInt32
  deriving DecidableEq

/-- The workgroup coordinates that a kernel sees. -/
def WorkgroupState.id (w : WorkgroupState) : Nat × Nat × Nat :=
  (w.workgroupIdX.toNat, w.workgroupIdY.toNat, w.workgroupIdZ.toNat)

/-- One step of a kernel: on to a further state and memory, or back to the caller. -/
inductive KernelStep (σ : Type)
  | run (s : σ) (m : Memory)
  | ret (result : Int32)

/-- `iree_hal_executable_dispatch_v0_t`, as a machine with states `σ`. -/
structure Kernel (σ : Type) (wz : Nat) where
  enter : DeviceDispatchState wz → WorkgroupState → σ
  step : σ → Memory → KernelStep σ

/-- The exports of `iree_hal_executable_library_v0_t`; a null pointer is `none`. -/
structure Library (σ : Type) (wz : Nat) where
  exportPtrs : Option (Nat → Option (Kernel σ wz))
  exportCount : UInt32

/-- A linked executable: what `_start` does to memory before it calls `main`, and the library
    that `iree_hal_executable_library_query` returns. -/
structure Firmware (σ : Type) (wz : Nat) where
  startup : List (Memory → Memory)
  library : Option (Library σ wz)

variable {σ : Type} {wz : Nat}

/-- The export that `main` looks up, if the three tests of it pass. -/
def findExport (library : Library σ wz) (ordinal : UInt32) : Option (Kernel σ wz) :=
  match library.exportPtrs with
  | none => none
  | some ptrs => if ordinal ≥ library.exportCount then none else ptrs ordinal.toNat

/-- The kernel that a dispatch of `ordinal` calls. -/
def Firmware.kernel? (fw : Firmware σ wz) (ordinal : UInt32) : Option (Kernel σ wz) :=
  fw.library.bind fun library => findExport library ordinal

/-! ### The records that `main` builds -/

/-- `dispatch_state`, as `main` fills it from the request. -/
def deviceDispatchState (wz : Nat) (request : Request) : DeviceDispatchState wz where
  workgroupSizeX := request.workgroupSizeX
  workgroupSizeY := request.workgroupSizeY
  workgroupSizeZ := request.workgroupSizeZ.toBitVec.setWidth wz
  workgroupCountX := request.workgroupCountX
  workgroupCountY := request.workgroupCountY
  workgroupCountZ := request.workgroupCountZ.toUInt16
  maxConcurrency := request.maxConcurrency.toUInt8
  constantCount := request.pushConstantCount.toUInt16
  bindingCount := request.bindingCount
  constants := if request.pushConstantCount = 0 then none else some request.pushConstantsAddr
  bindingPtrs := if request.bindingCount = 0 then none else some request.bindingPtrsAddr
  bindingLengths := if request.bindingCount = 0 then none else some request.bindingLengthsAddr

/-- `workgroup_state` of the workgroup `(x, y, z)`. -/
def makeWorkgroupState (request : Request) (x y z : UInt32) : WorkgroupState where
  workgroupIdX := x
  workgroupIdY := y
  workgroupIdZ := z.toUInt16
  processorId := 0
  localMemory := if request.localMemoryAddr = 0 then none else some request.localMemoryAddr

/-! ### The machine -/

/-- The locals `dispatch` and `dispatch_state` of `main`. -/
structure Locals (σ : Type) (wz : Nat) where
  dispatch : Kernel σ wz
  dispatchState : DeviceDispatchState wz

/-- The points of the program between which a run can be cut. -/
inductive Pc (σ : Type) (wz : Nat)
  /-- `_start`, with what it still has to do. -/
  | startup (rest : List (Memory → Memory))
  | checkHeader
  | checkPointers
  | setRunning
  | clearReturnCode
  | queryLibrary
  | lookupExport (library : Library σ wz)
  /-- The conditions of the three loops. -/
  | loopZ (locals : Locals σ wz) (z : UInt32)
  | loopY (locals : Locals σ wz) (z y : UInt32)
  | loopX (locals : Locals σ wz) (z y x : UInt32)
  /-- The call of the kernel, and the kernel running. -/
  | call (locals : Locals σ wz) (z y x : UInt32)
  | kernel (locals : Locals σ wz) (z y x : UInt32) (s : σ)
  /-- `coralnpu_dispatch_fail`, before each of its two stores. -/
  | fail (returnCode : Int32)
  | failStatus
  /-- The two stores after the loops. -/
  | clearResult
  | setComplete
  | halted

/-- The state of the device. -/
structure Device (σ : Type) (wz : Nat) where
  pc : Pc σ wz
  mem : Memory
  /-- The workgroups that the kernel was called for, in order. -/
  called : List WorkgroupState
  /-- The codes that the calls returned, in order. -/
  returned : List Int32

/-- The device as the host starts it. -/
def Firmware.start (fw : Firmware σ wz) (m : Memory) : Device σ wz where
  pc := .startup fw.startup
  mem := m
  called := []
  returned := []

/-- One step of the firmware whose request lies at `a`. -/
def step (fw : Firmware σ wz) (a : Nat) (d : Device σ wz) : Device σ wz :=
  let request := loadRequest d.mem a
  match d.pc with
  | .startup [] => { d with pc := .checkHeader }
  | .startup (clear :: rest) => { d with mem := clear d.mem, pc := .startup rest }
  | .checkHeader =>
    if request.magic ≠ dispatchMagic ∨ request.version ≠ dispatchVersion ∨
        request.status ≠ DispatchStatus.ready.toUInt16 then
      { d with pc := .fail (-1) }
    else
      { d with pc := .checkPointers }
  | .checkPointers =>
    if (request.pushConstantCount ≠ 0 ∧ request.pushConstantsAddr = 0) ∨
        (request.bindingCount ≠ 0 ∧
          (request.bindingPtrsAddr = 0 ∨ request.bindingLengthsAddr = 0)) then
      { d with pc := .fail (-2) }
    else
      { d with pc := .setRunning }
  | .setRunning => { d with mem := setStatus d.mem a .running, pc := .clearReturnCode }
  | .clearReturnCode => { d with mem := setReturnCode d.mem a 0, pc := .queryLibrary }
  | .queryLibrary =>
    match fw.library with
    | none => { d with pc := .fail (-3) }
    | some library => { d with pc := .lookupExport library }
  | .lookupExport library =>
    match findExport library request.ordinal with
    | none => { d with pc := .fail (-4) }
    | some dispatch => { d with pc := .loopZ ⟨dispatch, deviceDispatchState wz request⟩ 0 }
  | .loopZ l z =>
    if z < request.workgroupCountZ then { d with pc := .loopY l z 0 }
    else { d with pc := .clearResult }
  | .loopY l z y =>
    if y < request.workgroupCountY then { d with pc := .loopX l z y 0 }
    else { d with pc := .loopZ l (z + 1) }
  | .loopX l z y x =>
    if x < request.workgroupCountX then { d with pc := .call l z y x }
    else { d with pc := .loopY l z (y + 1) }
  | .call l z y x =>
    let workgroupState := makeWorkgroupState request x y z
    { d with
      pc := .kernel l z y x (l.dispatch.enter l.dispatchState workgroupState)
      called := d.called ++ [workgroupState] }
  | .kernel l z y x s =>
    match l.dispatch.step s d.mem with
    | .run s m => { d with pc := .kernel l z y x s, mem := m }
    | .ret result =>
      if result ≠ 0 then { d with pc := .fail result, returned := d.returned ++ [result] }
      else { d with pc := .loopX l z y (x + 1), returned := d.returned ++ [result] }
  | .fail returnCode => { d with mem := setReturnCode d.mem a returnCode, pc := .failStatus }
  | .failStatus => { d with mem := setStatus d.mem a .error, pc := .halted }
  | .clearResult => { d with mem := setReturnCode d.mem a 0, pc := .setComplete }
  | .setComplete => { d with mem := setStatus d.mem a .complete, pc := .halted }
  | .halted => d

/-- `simulator_run`, stopped after `n` steps if the firmware has not halted before. -/
def run (fw : Firmware σ wz) (a n : Nat) (m : Memory) : Device σ wz :=
  (step fw a)^[n] (fw.start m)

/-- The startup code leaves the request at `a` alone: the request is in a section that is not
    initialised. -/
def Firmware.StartupKeepsRequest (fw : Firmware σ wz) (a : Nat) : Prop :=
  ∀ clear ∈ fw.startup, ∀ m, loadRequest (clear m) a = loadRequest m a

/-- The startup code and the kernels leave the request at `a` alone. -/
structure Firmware.KeepsRequest (fw : Firmware σ wz) (a : Nat) : Prop where
  startup : fw.StartupKeepsRequest a
  kernel : ∀ ordinal kernel, fw.kernel? ordinal = some kernel →
    ∀ s m s' m', kernel.step s m = .run s' m' → loadRequest m' a = loadRequest m a

/-! ### What holds along a run -/

/-- The workgroup state of the grid cell `c`. -/
def workgroupAt (request : Request) (c : Nat × Nat × Nat) : WorkgroupState :=
  makeWorkgroupState request (UInt32.ofNat c.1) (UInt32.ofNat c.2.1) (UInt32.ofNat c.2.2)

/-- The workgroups of the request's grid, in the order of the loops. -/
def workgroups (request : Request) : List WorkgroupState :=
  (grid request.workgroupCountX.toNat request.workgroupCountY.toNat
    request.workgroupCountZ.toNat).map (workgroupAt request)

/-- The workgroups before `(x, y, z)`. -/
def workgroupsBefore (request : Request) (z y x : Nat) : List WorkgroupState :=
  (gridBefore request.workgroupCountX.toNat request.workgroupCountY.toNat z y x).map
    (workgroupAt request)

/-- `main` accepts the request. -/
structure Request.Ready (request : Request) : Prop where
  magic : request.magic = dispatchMagic
  version : request.version = dispatchVersion
  status : request.status = DispatchStatus.ready.toUInt16

/-- The addresses that go with non-zero counts are not null. -/
structure Request.PointersSet (request : Request) : Prop where
  constants : request.pushConstantCount ≠ 0 → request.pushConstantsAddr ≠ 0
  bindings : request.bindingCount ≠ 0 →
    request.bindingPtrsAddr ≠ 0 ∧ request.bindingLengthsAddr ≠ 0

/-- The request with the fields that `main` sets before it calls a kernel. -/
def Request.running (request : Request) : Request :=
  { request with status := DispatchStatus.running.toUInt16, returnCode := 0 }

/-- No call has been made. -/
def Device.Fresh (d : Device σ wz) : Prop := d.called = [] ∧ d.returned = []

/-- The calls for `ws` have been made, and all of them returned 0. -/
def Device.Returned (d : Device σ wz) (ws : List WorkgroupState) : Prop :=
  d.called = ws ∧ d.returned = List.replicate ws.length 0

/-- The locals are those that `main` computes for the request. -/
structure Locals.For (l : Locals σ wz) (fw : Firmware σ wz) (request : Request) : Prop where
  dispatch : fw.kernel? request.ordinal = some l.dispatch
  dispatchState : l.dispatchState = deviceDispatchState wz request

/-- The dispatch failed: there is no kernel to call, or the last call returned an error. -/
def Device.Failed (d : Device σ wz) (fw : Firmware σ wz) (request : Request) : Prop :=
  (d.Fresh ∧ fw.kernel? request.ordinal = none) ∨
    ∃ k, ∃ code : Int32, code ≠ 0 ∧ d.called <+: workgroups request ∧ d.called.length = k + 1 ∧
      d.returned = List.replicate k 0 ++ [code]

/-- The kernel was called for the whole grid and all calls returned 0. -/
def Device.Succeeded (d : Device σ wz) (fw : Firmware σ wz) (request : Request) : Prop :=
  (fw.kernel? request.ordinal).isSome ∧ d.Returned (workgroups request)

/-- The status of the request in the device's memory is `s`. -/
def Device.HasStatus (d : Device σ wz) (a : Nat) (s : DispatchStatus) : Prop :=
  (loadRequest d.mem a).status = s.toUInt16

/-- **The invariant of a run** that starts with the READY request `r` at `a`. -/
def Inv (fw : Firmware σ wz) (a : Nat) (r : Request) (d : Device σ wz) : Prop :=
  match d.pc with
  | .startup rest => loadRequest d.mem a = r ∧ d.Fresh ∧ ∀ clear ∈ rest, clear ∈ fw.startup
  | .checkHeader | .checkPointers | .setRunning => loadRequest d.mem a = r ∧ d.Fresh
  | .clearReturnCode =>
    loadRequest d.mem a = { r with status := DispatchStatus.running.toUInt16 } ∧ d.Fresh
  | .queryLibrary => loadRequest d.mem a = r.running ∧ d.Fresh
  | .lookupExport library =>
    loadRequest d.mem a = r.running ∧ d.Fresh ∧ fw.library = some library
  | .loopZ l z =>
    loadRequest d.mem a = r.running ∧ l.For fw r ∧ z.toNat ≤ r.workgroupCountZ.toNat ∧
      d.Returned (workgroupsBefore r z.toNat 0 0)
  | .loopY l z y =>
    loadRequest d.mem a = r.running ∧ l.For fw r ∧ z.toNat < r.workgroupCountZ.toNat ∧
      y.toNat ≤ r.workgroupCountY.toNat ∧ d.Returned (workgroupsBefore r z.toNat y.toNat 0)
  | .loopX l z y x =>
    loadRequest d.mem a = r.running ∧ l.For fw r ∧ z.toNat < r.workgroupCountZ.toNat ∧
      y.toNat < r.workgroupCountY.toNat ∧ x.toNat ≤ r.workgroupCountX.toNat ∧
      d.Returned (workgroupsBefore r z.toNat y.toNat x.toNat)
  | .call l z y x =>
    loadRequest d.mem a = r.running ∧ l.For fw r ∧ z.toNat < r.workgroupCountZ.toNat ∧
      y.toNat < r.workgroupCountY.toNat ∧ x.toNat < r.workgroupCountX.toNat ∧
      d.Returned (workgroupsBefore r z.toNat y.toNat x.toNat)
  | .kernel l z y x _ =>
    -- one call has been made that has not returned yet
    loadRequest d.mem a = r.running ∧ l.For fw r ∧ z.toNat < r.workgroupCountZ.toNat ∧
      y.toNat < r.workgroupCountY.toNat ∧ x.toNat < r.workgroupCountX.toNat ∧
      d.called = workgroupsBefore r z.toNat y.toNat (x.toNat + 1) ∧
      d.returned = List.replicate (workgroupsBefore r z.toNat y.toNat x.toNat).length 0
  | .fail _ | .failStatus => d.HasStatus a .running ∧ d.Failed fw r
  | .clearResult | .setComplete => loadRequest d.mem a = r.running ∧ d.Succeeded fw r
  | .halted =>
    (d.HasStatus a .error ∧ d.Failed fw r) ∨
      (loadRequest d.mem a = { r.running with status := DispatchStatus.complete.toUInt16 } ∧
        d.Succeeded fw r)

/-! ### One step keeps the invariant -/

section Step

variable {fw : Firmware σ wz} {a : Nat} {r : Request} {d : Device σ wz}

/-- A running request has the same counts. -/
theorem Request.running_countX (r : Request) : r.running.workgroupCountX = r.workgroupCountX := rfl

/-- So it has along y. -/
theorem Request.running_countY (r : Request) : r.running.workgroupCountY = r.workgroupCountY := rfl

/-- And along z. -/
theorem Request.running_countZ (r : Request) : r.running.workgroupCountZ = r.workgroupCountZ := rfl

/-- A counter below its bound does not overflow when it is incremented. -/
theorem toNat_add_one {v bound : UInt32} (h : v.toNat < bound.toNat) :
    (v + 1).toNat = v.toNat + 1 := by
  have hb := bound.toNat_lt
  rw [UInt32.toNat_add, show (1 : UInt32).toNat = 1 from rfl]
  omega

/-- Behind the last plane are all workgroups. -/
theorem workgroupsBefore_all (r : Request) :
    workgroupsBefore r r.workgroupCountZ.toNat 0 0 = workgroups r := by
  rw [workgroupsBefore, gridBefore_planes, workgroups]

/-- After a workgroup comes the next one of its row. -/
theorem workgroupsBefore_succ (r : Request) (z y x : UInt32) :
    workgroupsBefore r z.toNat y.toNat (x.toNat + 1) =
      workgroupsBefore r z.toNat y.toNat x.toNat ++ [makeWorkgroupState r x y z] := by
  rw [workgroupsBefore, gridBefore_succ, List.map_append, workgroupsBefore]
  simp [workgroupAt]

/-- After a row comes the next row of its plane. -/
theorem workgroupsBefore_row (r : Request) (z y : Nat) :
    workgroupsBefore r z y r.workgroupCountX.toNat = workgroupsBefore r z (y + 1) 0 := by
  rw [workgroupsBefore, gridBefore_row, workgroupsBefore]

/-- After a plane comes the next plane. -/
theorem workgroupsBefore_plane (r : Request) (z : Nat) :
    workgroupsBefore r z r.workgroupCountY.toNat 0 = workgroupsBefore r (z + 1) 0 0 := by
  rw [workgroupsBefore, gridBefore_plane, workgroupsBefore]

/-- The workgroups before one come first. -/
theorem workgroupsBefore_isPrefix {z y x : Nat} (hz : z < r.workgroupCountZ.toNat)
    (hy : y < r.workgroupCountY.toNat) (hx : x ≤ r.workgroupCountX.toNat) :
    workgroupsBefore r z y x <+: workgroups r :=
  (gridBefore_isPrefix hz hy hx).map _

/-- The part of `main` before the export is looked up. -/
theorem inv_step_prologue (hstartup : fw.StartupKeepsRequest a) (hready : r.Ready) (hptrs : r.PointersSet)
    {pc : Pc σ wz} {mem : Memory} {called : List WorkgroupState} {returned : List Int32}
    (hpc : pc = .checkHeader ∨ pc = .checkPointers ∨ pc = .setRunning ∨ pc = .clearReturnCode ∨
      ∃ rest, pc = .startup rest)
    (h : Inv fw a r ⟨pc, mem, called, returned⟩) :
    Inv fw a r (step fw a ⟨pc, mem, called, returned⟩) := by
  rcases hpc with rfl | rfl | rfl | rfl | ⟨rest, rfl⟩
  · obtain ⟨hreq, hfresh⟩ := h
    have hpass : ¬(r.magic ≠ dispatchMagic ∨ r.version ≠ dispatchVersion ∨
        r.status ≠ DispatchStatus.ready.toUInt16) := by
      simp [hready.magic, hready.version, hready.status]
    simp only [step]
    rw [hreq, if_neg hpass]
    exact ⟨hreq, hfresh⟩
  · obtain ⟨hreq, hfresh⟩ := h
    have hpass : ¬((r.pushConstantCount ≠ 0 ∧ r.pushConstantsAddr = 0) ∨
        (r.bindingCount ≠ 0 ∧ (r.bindingPtrsAddr = 0 ∨ r.bindingLengthsAddr = 0))) := by
      rintro (⟨hne, hnull⟩ | ⟨hne, hnull | hnull⟩)
      · exact hptrs.constants hne hnull
      · exact (hptrs.bindings hne).1 hnull
      · exact (hptrs.bindings hne).2 hnull
    simp only [step]
    rw [hreq, if_neg hpass]
    exact ⟨hreq, hfresh⟩
  · obtain ⟨hreq, hfresh⟩ := h
    refine ⟨?_, hfresh⟩
    show loadRequest (setStatus mem a .running) a = _
    rw [loadRequest_setStatus, hreq]
  · obtain ⟨hreq, hfresh⟩ := h
    refine ⟨?_, hfresh⟩
    show loadRequest (setReturnCode mem a 0) a = _
    rw [loadRequest_setReturnCode, hreq, Request.running]
  · obtain ⟨hreq, hfresh, hrest⟩ := h
    cases rest with
    | nil => exact ⟨hreq, hfresh⟩
    | cons clear rest =>
      refine ⟨?_, hfresh, fun f hf => hrest f (List.mem_cons_of_mem _ hf)⟩
      show loadRequest (clear mem) a = r
      rw [hstartup clear (hrest clear List.mem_cons_self), hreq]

/-- The lookup of the export. -/
theorem inv_step_lookup {pc : Pc σ wz} {mem : Memory} {called : List WorkgroupState}
    {returned : List Int32} (hpc : pc = .queryLibrary ∨ ∃ library, pc = .lookupExport library)
    (h : Inv fw a r ⟨pc, mem, called, returned⟩) :
    Inv fw a r (step fw a ⟨pc, mem, called, returned⟩) := by
  -- a failing lookup leaves the status RUNNING
  have hfail : loadRequest mem a = r.running →
      Device.Fresh (⟨pc, mem, called, returned⟩ : Device σ wz) → fw.kernel? r.ordinal = none →
      ∀ code, Inv fw a r ⟨.fail code, mem, called, returned⟩ := by
    intro hreq hfresh hnone code
    refine ⟨?_, Or.inl ⟨hfresh, hnone⟩⟩
    show (loadRequest mem a).status = _
    rw [hreq, Request.running]
  rcases hpc with rfl | ⟨library, rfl⟩
  · obtain ⟨hreq, hfresh⟩ := h
    simp only [step]
    split
    next hnone => exact hfail hreq hfresh (by rw [Firmware.kernel?, hnone, Option.bind_none]) _
    next library hsome => exact ⟨hreq, hfresh, hsome⟩
  · obtain ⟨hreq, hfresh, hlibrary⟩ := h
    have hkernel : fw.kernel? r.ordinal = findExport library r.running.ordinal := by
      rw [Firmware.kernel?, hlibrary, Option.bind_some]
      rfl
    simp only [step]
    rw [hreq]
    split
    next hnone => exact hfail hreq hfresh (hkernel.trans hnone) _
    next dispatch hsome =>
      obtain ⟨hcalled, hreturned⟩ := hfresh
      exact ⟨hreq, ⟨hkernel.trans hsome, rfl⟩, Nat.zero_le _, hcalled, hreturned⟩

/-- The conditions and increments of the three loops. -/
theorem inv_step_loops {pc : Pc σ wz} {mem : Memory} {called : List WorkgroupState}
    {returned : List Int32} {l : Locals σ wz} {z y x : UInt32}
    (hpc : pc = .loopZ l z ∨ pc = .loopY l z y ∨ pc = .loopX l z y x)
    (h : Inv fw a r ⟨pc, mem, called, returned⟩) :
    Inv fw a r (step fw a ⟨pc, mem, called, returned⟩) := by
  rcases hpc with rfl | rfl | rfl
  · obtain ⟨hreq, hl, hz, hret⟩ := h
    simp only [step]
    rw [hreq, Request.running_countZ]
    split
    next hlt => exact ⟨hreq, hl, UInt32.lt_iff_toNat_lt.mp hlt, Nat.zero_le _, hret⟩
    next hge =>
      -- the counter has reached the number of planes
      have hzeq : z.toNat = r.workgroupCountZ.toNat := by
        have := UInt32.not_lt.mp hge
        rw [UInt32.le_iff_toNat_le] at this
        omega
      rw [hzeq, workgroupsBefore_all] at hret
      exact ⟨hreq, Option.isSome_of_eq_some hl.dispatch, hret⟩
  · obtain ⟨hreq, hl, hz, hy, hret⟩ := h
    simp only [step]
    rw [hreq, Request.running_countY]
    split
    next hlt => exact ⟨hreq, hl, hz, UInt32.lt_iff_toNat_lt.mp hlt, Nat.zero_le _, hret⟩
    next hge =>
      have hyeq : y.toNat = r.workgroupCountY.toNat := by
        have := UInt32.not_lt.mp hge
        rw [UInt32.le_iff_toNat_le] at this
        omega
      refine ⟨hreq, hl, ?_, ?_⟩
      · rw [toNat_add_one hz]
        omega
      · rw [toNat_add_one hz, ← workgroupsBefore_plane, ← hyeq]
        exact hret
  · obtain ⟨hreq, hl, hz, hy, hx, hret⟩ := h
    simp only [step]
    rw [hreq, Request.running_countX]
    split
    next hlt => exact ⟨hreq, hl, hz, hy, UInt32.lt_iff_toNat_lt.mp hlt, hret⟩
    next hge =>
      have hxeq : x.toNat = r.workgroupCountX.toNat := by
        have := UInt32.not_lt.mp hge
        rw [UInt32.le_iff_toNat_le] at this
        omega
      refine ⟨hreq, hl, hz, ?_, ?_⟩
      · rw [toNat_add_one hy]
        omega
      · rw [toNat_add_one hy, ← workgroupsBefore_row, ← hxeq]
        exact hret

/-- A call of the kernel. -/
theorem inv_step_call {mem : Memory} {called : List WorkgroupState} {returned : List Int32}
    {l : Locals σ wz} {z y x : UInt32} (h : Inv fw a r ⟨.call l z y x, mem, called, returned⟩) :
    Inv fw a r (step fw a ⟨.call l z y x, mem, called, returned⟩) := by
  obtain ⟨hreq, hl, hz, hy, hx, hcalled, hreturned⟩ := h
  refine ⟨hreq, hl, hz, hy, hx, ?_, hreturned⟩
  show called ++ [makeWorkgroupState (loadRequest mem a) x y z] = _
  rw [workgroupsBefore_succ, hreq, ← show called = _ from hcalled]
  rfl

/-- A step of the kernel, and its return. -/
theorem inv_step_kernel (hkeeps : fw.KeepsRequest a) {mem : Memory}
    {called : List WorkgroupState} {returned : List Int32} {l : Locals σ wz} {z y x : UInt32}
    {s : σ} (h : Inv fw a r ⟨.kernel l z y x s, mem, called, returned⟩) :
    Inv fw a r (step fw a ⟨.kernel l z y x s, mem, called, returned⟩) := by
  obtain ⟨hreq, hl, hz, hy, hx, hcalled, hreturned⟩ := h
  have hlength : (workgroupsBefore r z.toNat y.toNat (x.toNat + 1)).length =
      (workgroupsBefore r z.toNat y.toNat x.toNat).length + 1 := by
    rw [workgroupsBefore_succ, List.length_append, List.length_singleton]
  simp only [step]
  split
  next s' m' hrun =>
    have hmem := hkeeps.kernel _ _ hl.dispatch _ _ _ _ hrun
    exact ⟨hmem.trans hreq, hl, hz, hy, hx, hcalled, hreturned⟩
  next result hret =>
    split
    next hne =>
      -- the first call that returns an error is the last one
      refine ⟨?_, Or.inr ⟨_, result, hne, ?_, ?_, congrArg (· ++ [result]) hreturned⟩⟩
      · show (loadRequest mem a).status = _
        rw [hreq, Request.running]
      · show called <+: _
        rw [show called = _ from hcalled]
        exact workgroupsBefore_isPrefix hz hy hx
      · show called.length = _
        rw [show called = _ from hcalled, hlength]
    next heq =>
      have hzero : result = 0 := not_not.mp heq
      refine ⟨hreq, hl, hz, hy, ?_, ?_, ?_⟩
      · rw [toNat_add_one hx]
        omega
      · show called = _
        rw [toNat_add_one hx]
        exact hcalled
      · show returned ++ [result] = _
        rw [toNat_add_one hx, hlength, List.replicate_succ', hzero,
          show returned = _ from hreturned]

/-- The stores that end a dispatch, and the halted machine. -/
theorem inv_step_epilogue {pc : Pc σ wz} {mem : Memory} {called : List WorkgroupState}
    {returned : List Int32}
    (hpc : (∃ code, pc = .fail code) ∨ pc = .failStatus ∨ pc = .clearResult ∨ pc = .setComplete ∨
      pc = .halted)
    (h : Inv fw a r ⟨pc, mem, called, returned⟩) :
    Inv fw a r (step fw a ⟨pc, mem, called, returned⟩) := by
  rcases hpc with ⟨code, rfl⟩ | rfl | rfl | rfl | rfl
  · obtain ⟨hstatus, hfailed⟩ := h
    refine ⟨?_, hfailed⟩
    show (loadRequest (setReturnCode mem a code) a).status = _
    rw [loadRequest_setReturnCode]
    exact hstatus
  · obtain ⟨-, hfailed⟩ := h
    refine Or.inl ⟨?_, hfailed⟩
    show (loadRequest (setStatus mem a .error) a).status = _
    rw [loadRequest_setStatus]
  · obtain ⟨hreq, hdone⟩ := h
    refine ⟨?_, hdone⟩
    show loadRequest (setReturnCode mem a 0) a = _
    rw [loadRequest_setReturnCode, hreq, Request.running]
  · obtain ⟨hreq, hdone⟩ := h
    refine Or.inr ⟨?_, hdone⟩
    show loadRequest (setStatus mem a .complete) a = _
    rw [loadRequest_setStatus, hreq]
  · exact h

/-- **Step lemma** for the steps of `_start` and `main`. -/
theorem inv_step_main (hstartup : fw.StartupKeepsRequest a) (hready : r.Ready)
    (hptrs : r.PointersSet) (hpc : ∀ l z y x s, d.pc ≠ .kernel l z y x s)
    (h : Inv fw a r d) : Inv fw a r (step fw a d) := by
  obtain ⟨pc, mem, called, returned⟩ := d
  cases pc with
  | startup rest => exact inv_step_prologue hstartup hready hptrs (by simp) h
  | checkHeader => exact inv_step_prologue hstartup hready hptrs (by simp) h
  | checkPointers => exact inv_step_prologue hstartup hready hptrs (by simp) h
  | setRunning => exact inv_step_prologue hstartup hready hptrs (by simp) h
  | clearReturnCode => exact inv_step_prologue hstartup hready hptrs (by simp) h
  | queryLibrary => exact inv_step_lookup (by simp) h
  | lookupExport library => exact inv_step_lookup (by simp) h
  | loopZ l z => exact inv_step_loops (y := 0) (x := 0) (Or.inl rfl) h
  | loopY l z y => exact inv_step_loops (x := 0) (Or.inr (Or.inl rfl)) h
  | loopX l z y x => exact inv_step_loops (Or.inr (Or.inr rfl)) h
  | call l z y x => exact inv_step_call h
  | kernel l z y x s => exact absurd rfl (hpc l z y x s)
  | fail code => exact inv_step_epilogue (by simp) h
  | failStatus => exact inv_step_epilogue (by simp) h
  | clearResult => exact inv_step_epilogue (by simp) h
  | setComplete => exact inv_step_epilogue (by simp) h
  | halted => exact inv_step_epilogue (by simp) h

/-- **Step lemma.** -/
theorem inv_step (hkeeps : fw.KeepsRequest a) (hready : r.Ready) (hptrs : r.PointersSet)
    (h : Inv fw a r d) : Inv fw a r (step fw a d) := by
  by_cases hpc : ∃ l z y x s, d.pc = .kernel l z y x s
  · obtain ⟨l, z, y, x, s, hpc⟩ := hpc
    obtain ⟨pc, mem, called, returned⟩ := d
    obtain rfl := hpc
    exact inv_step_kernel hkeeps h
  · refine inv_step_main hkeeps.startup hready hptrs (fun l z y x s hk => ?_) h
    exact hpc ⟨l, z, y, x, s, hk⟩

/-- **Run lemma.** The invariant holds wherever the run is stopped. -/
theorem inv_run (hkeeps : fw.KeepsRequest a) (hready : r.Ready) (hptrs : r.PointersSet)
    {m : Memory} (hm : loadRequest m a = r) (n : Nat) : Inv fw a r (run fw a n m) :=
  Function.Iterate.rec (Inv fw a r)
    (show Inv fw a r (fw.start m) from ⟨hm, ⟨rfl, rfl⟩, fun _ hf => hf⟩)
    (fun _ => inv_step hkeeps hready hptrs) n

/-! ### What the invariant says about the calls -/

/-- At most one call has no zero result yet, and it is the last one. -/
def Device.ZeroBeforeLast (d : Device σ wz) : Prop :=
  ∃ k rest, d.returned = List.replicate k 0 ++ rest ∧ d.called.length ≤ k + 1

/-- Every call but the last has returned 0. -/
theorem Device.ZeroBeforeLast.getElem? (h : d.ZeroBeforeLast) {i : Nat}
    (hi : i + 1 < d.called.length) : d.returned[i]? = some 0 := by
  obtain ⟨k, rest, hret, hlen⟩ := h
  have hik : i < k := by omega
  rw [hret, List.getElem?_append_left (by simpa using hik), List.getElem?_replicate_of_lt hik]

/-- A device that begins has called nothing. -/
theorem Device.Fresh.calls (h : d.Fresh) : d.called <+: workgroups r ∧ d.ZeroBeforeLast := by
  obtain ⟨hcalled, hreturned⟩ := h
  exact ⟨hcalled ▸ List.nil_prefix, 0, [], hreturned, by simp [hcalled]⟩

/-- One that goes on has called workgroups in order, and they have returned 0. -/
theorem Device.Returned.calls {ws : List WorkgroupState} (h : d.Returned ws)
    (hws : ws <+: workgroups r) : d.called <+: workgroups r ∧ d.ZeroBeforeLast := by
  obtain ⟨hcalled, hreturned⟩ := h
  refine ⟨hcalled ▸ hws, ws.length, [], ?_, ?_⟩
  · rw [hreturned, List.append_nil]
  · rw [hcalled]
    omega

/-- So has one that has failed, but for the last. -/
theorem Device.Failed.calls (h : d.Failed fw r) :
    d.called <+: workgroups r ∧ d.ZeroBeforeLast := by
  rcases h with ⟨hfresh, -⟩ | ⟨k, code, -, hcalls, hlen, hret⟩
  · exact hfresh.calls
  · exact ⟨hcalls, k, [code], hret, by omega⟩

/-- **The calls of a run** are the first workgroups of the grid, and only the last of them can
    have returned an error. -/
theorem Inv.calls (h : Inv fw a r d) : d.called <+: workgroups r ∧ d.ZeroBeforeLast := by
  obtain ⟨pc, mem, called, returned⟩ := d
  have hplane : ∀ z : Nat, z ≤ r.workgroupCountZ.toNat →
      workgroupsBefore r z 0 0 <+: workgroups r := by
    intro z hz
    rw [workgroupsBefore, gridBefore_planes]
    exact (grid_isPrefix hz).map _
  have hrow : ∀ z y : Nat, z < r.workgroupCountZ.toNat → y ≤ r.workgroupCountY.toNat →
      workgroupsBefore r z y 0 <+: workgroups r := by
    intro z y hz hy
    rcases Nat.lt_or_eq_of_le hy with hlt | heq
    · exact workgroupsBefore_isPrefix hz hlt (Nat.zero_le _)
    · rw [heq, workgroupsBefore_plane]
      exact hplane (z + 1) hz
  cases pc with
  | startup rest => exact h.2.1.calls
  | checkHeader => exact h.2.calls
  | checkPointers => exact h.2.calls
  | setRunning => exact h.2.calls
  | clearReturnCode => exact h.2.calls
  | queryLibrary => exact h.2.calls
  | lookupExport library => exact h.2.1.calls
  | loopZ l z =>
    obtain ⟨-, -, hz, hret⟩ := h
    exact hret.calls (hplane _ hz)
  | loopY l z y =>
    obtain ⟨-, -, hz, hy, hret⟩ := h
    exact hret.calls (hrow _ _ hz hy)
  | loopX l z y x =>
    obtain ⟨-, -, hz, hy, hx, hret⟩ := h
    exact hret.calls (workgroupsBefore_isPrefix hz hy hx)
  | call l z y x =>
    obtain ⟨-, -, hz, hy, hx, hret⟩ := h
    exact hret.calls (workgroupsBefore_isPrefix hz hy (Nat.le_of_lt hx))
  | kernel l z y x s =>
    -- the call that is still running has no result
    obtain ⟨-, -, hz, hy, hx, hcalled, hreturned⟩ := h
    refine ⟨?_, _, [], hreturned.trans (List.append_nil _).symm, ?_⟩
    · show called <+: _
      rw [show called = _ from hcalled]
      exact workgroupsBefore_isPrefix hz hy hx
    · show called.length ≤ _
      rw [show called = _ from hcalled, workgroupsBefore_succ, List.length_append,
        List.length_singleton]
  | fail code => exact h.2.calls
  | failStatus => exact h.2.calls
  | clearResult => exact h.2.2.calls (List.prefix_refl _)
  | setComplete => exact h.2.2.calls (List.prefix_refl _)
  | halted =>
    rcases h with ⟨-, hfailed⟩ | ⟨-, -, hret⟩
    · exact hfailed.calls
    · exact hret.calls (List.prefix_refl _)

/-- A device that has failed has not succeeded. -/
theorem Device.Failed.not_succeeded (h : d.Failed fw r) : ¬ d.Succeeded fw r := by
  rintro ⟨hsome, -, hzero⟩
  rcases h with ⟨-, hnone⟩ | ⟨k, code, hcode, -, -, hret⟩
  · rw [hnone] at hsome
    cases hsome
  · -- the last code is not zero
    have hmem : code ∈ d.returned := by simp [hret]
    rw [hzero] at hmem
    exact hcode (List.eq_of_mem_replicate hmem)

/-- **Completion.** The status is COMPLETE exactly when the machine has halted after the whole
    grid. -/
theorem Inv.complete_iff (hready : r.Ready) (h : Inv fw a r d) :
    d.HasStatus a .complete ↔ d.pc = .halted ∧ d.Succeeded fw r := by
  obtain ⟨pc, mem, called, returned⟩ := d
  have hne : ∀ {s : DispatchStatus}, s ≠ .complete → (loadRequest mem a).status = s.toUInt16 →
      ¬ Device.HasStatus (⟨pc, mem, called, returned⟩ : Device σ wz) a .complete := by
    intro s hs hstatus hcomplete
    rw [Device.HasStatus, show (loadRequest mem a).status = _ from hstatus] at hcomplete
    revert hs hcomplete
    cases s <;> decide
  have hearly : ∀ {s : DispatchStatus}, s ≠ .complete → (loadRequest mem a).status = s.toUInt16 →
      pc ≠ .halted →
      (Device.HasStatus (⟨pc, mem, called, returned⟩ : Device σ wz) a .complete ↔
        pc = .halted ∧ Device.Succeeded (⟨pc, mem, called, returned⟩ : Device σ wz) fw r) :=
    fun hs hstatus hpc => iff_of_false (hne hs hstatus) fun hhalt => hpc hhalt.1
  have hstart : (loadRequest mem a = r) → (loadRequest mem a).status = DispatchStatus.ready.toUInt16 :=
    fun hreq => by rw [hreq, hready.status]
  have hrunning : (loadRequest mem a = r.running) →
      (loadRequest mem a).status = DispatchStatus.running.toUInt16 :=
    fun hreq => by rw [hreq, Request.running]
  cases pc with
  | startup rest => exact hearly (by decide) (hstart h.1) (by simp)
  | checkHeader => exact hearly (by decide) (hstart h.1) (by simp)
  | checkPointers => exact hearly (by decide) (hstart h.1) (by simp)
  | setRunning => exact hearly (by decide) (hstart h.1) (by simp)
  | clearReturnCode =>
    exact hearly (s := .running) (by decide) (congrArg Request.status h.1) (by simp)
  | queryLibrary => exact hearly (by decide) (hrunning h.1) (by simp)
  | lookupExport library => exact hearly (by decide) (hrunning h.1) (by simp)
  | loopZ l z => exact hearly (by decide) (hrunning h.1) (by simp)
  | loopY l z y => exact hearly (by decide) (hrunning h.1) (by simp)
  | loopX l z y x => exact hearly (by decide) (hrunning h.1) (by simp)
  | call l z y x => exact hearly (by decide) (hrunning h.1) (by simp)
  | kernel l z y x s => exact hearly (by decide) (hrunning h.1) (by simp)
  | fail code => exact hearly (by decide) h.1 (by simp)
  | failStatus => exact hearly (by decide) h.1 (by simp)
  | clearResult => exact hearly (by decide) (hrunning h.1) (by simp)
  | setComplete => exact hearly (by decide) (hrunning h.1) (by simp)
  | halted =>
    rcases h with ⟨hstatus, hfailed⟩ | ⟨hreq, hdone⟩
    · exact iff_of_false (hne (by decide) hstatus) fun hhalt => hfailed.not_succeeded hhalt.2
    · exact iff_of_true (congrArg Request.status hreq) ⟨rfl, hdone⟩

/-- A run that has completed leaves the request of a completed dispatch. -/
theorem Inv.loadRequest_of_complete (hready : r.Ready) (h : Inv fw a r d)
    (hcomplete : d.HasStatus a .complete) :
    loadRequest d.mem a = { r.running with status := DispatchStatus.complete.toUInt16 } := by
  have hhalt := ((h.complete_iff hready).mp hcomplete)
  obtain ⟨pc, mem, called, returned⟩ := d
  obtain ⟨rfl, hdone⟩ := hhalt
  rcases h with ⟨-, hfailed⟩ | ⟨hreq, -⟩
  · exact absurd hdone hfailed.not_succeeded
  · exact hreq

/-! ### Before the first call -/

/-- A step makes at most one call more. -/
theorem called_prefix_step (fw : Firmware σ wz) (a : Nat) (d : Device σ wz) :
    d.called <+: (step fw a d).called := by
  obtain ⟨pc, mem, called, returned⟩ := d
  cases pc with
  | call l z y x => exact List.prefix_append _ _
  | startup rest => cases rest <;> exact List.prefix_refl _
  | kernel l z y x s =>
    simp only [step]
    split
    · exact List.prefix_refl _
    · split <;> exact List.prefix_refl _
  | setRunning => exact List.prefix_refl _
  | clearReturnCode => exact List.prefix_refl _
  | fail code => exact List.prefix_refl _
  | failStatus => exact List.prefix_refl _
  | clearResult => exact List.prefix_refl _
  | setComplete => exact List.prefix_refl _
  | halted => exact List.prefix_refl _
  | _ =>
    -- tests and lookups
    simp only [step]
    split <;> exact List.prefix_refl _

/-- The startup code leaves the `k` bytes at `b` alone. -/
def Firmware.StartupKeeps (fw : Firmware σ wz) (b k : Nat) : Prop :=
  ∀ clear ∈ fw.startup, ∀ m, AgreeOn (clear m) m b k

/-- Before the first call the invariant holds whatever the kernels do, and memory outside the
    request is as the host left it. -/
def UntouchedInv (fw : Firmware σ wz) (a : Nat) (r : Request) (m : Memory) (b k : Nat)
    (d : Device σ wz) : Prop :=
  d.called = [] → Inv fw a r d ∧ AgreeOn d.mem m b k

/-- Setting the status leaves the memory behind the request alone. -/
theorem setStatus_agreeOn {m : Memory} {s : DispatchStatus} {b k : Nat}
    (h : a + requestSize ≤ b) : AgreeOn (setStatus m a s) m b k :=
  store_agreeOn (Or.inr (by rw [requestSize] at h; omega))

/-- So does setting the return code. -/
theorem setReturnCode_agreeOn {m : Memory} {c : Int32} {b k : Nat}
    (h : a + requestSize ≤ b) : AgreeOn (setReturnCode m a c) m b k :=
  store_agreeOn (Or.inr (by rw [requestSize] at h; omega))

/-- A step that is not one of a kernel changes only the request and what the startup code
    changes. -/
theorem step_mem_agreeOn {b k : Nat} (hstartup : fw.StartupKeeps b k)
    (hdisjoint : a + requestSize ≤ b) (hpc : ∀ l z y x s, d.pc ≠ .kernel l z y x s)
    (h : Inv fw a r d) : AgreeOn (step fw a d).mem d.mem b k := by
  obtain ⟨pc, mem, called, returned⟩ := d
  cases pc with
  | startup rest =>
    cases rest with
    | nil => exact AgreeOn.refl _ b k
    | cons clear rest => exact hstartup clear (h.2.2 clear List.mem_cons_self) mem
  | setRunning => exact setStatus_agreeOn hdisjoint
  | clearReturnCode => exact setReturnCode_agreeOn hdisjoint
  | fail code => exact setReturnCode_agreeOn hdisjoint
  | failStatus => exact setStatus_agreeOn hdisjoint
  | clearResult => exact setReturnCode_agreeOn hdisjoint
  | setComplete => exact setStatus_agreeOn hdisjoint
  | kernel l z y x s => exact absurd rfl (hpc l z y x s)
  | call l z y x => exact AgreeOn.refl _ b k
  | halted => exact AgreeOn.refl _ b k
  | _ =>
    -- tests and lookups
    simp only [step]
    split <;> exact AgreeOn.refl _ b k

/-- **Before the first call** nothing but the request has changed. -/
theorem untouchedInv_run {b k : Nat} (hkeeps : fw.StartupKeepsRequest a)
    (hstartup : fw.StartupKeeps b k) (hdisjoint : a + requestSize ≤ b) (hready : r.Ready)
    (hptrs : r.PointersSet) {m : Memory} (hm : loadRequest m a = r) (n : Nat) :
    UntouchedInv fw a r m b k (run fw a n m) := by
  refine Function.Iterate.rec (UntouchedInv fw a r m b k)
    (show UntouchedInv fw a r m b k (fw.start m) from
      fun _ => ⟨⟨hm, ⟨rfl, rfl⟩, fun _ hf => hf⟩, AgreeOn.refl m b k⟩) (fun d hd hcalled => ?_) n
  have hcalled' : d.called = [] := List.prefix_nil.mp (hcalled ▸ called_prefix_step fw a d)
  obtain ⟨hinv, hagree⟩ := hd hcalled'
  -- a kernel that runs has been called
  have hpc : ∀ l z y x s, d.pc ≠ .kernel l z y x s := by
    intro l z y x s hk
    simp only [Inv, hk] at hinv
    obtain ⟨-, -, -, -, -, hsome, -⟩ := hinv
    rw [hcalled', workgroupsBefore_succ] at hsome
    simp at hsome
  exact ⟨inv_step_main hkeeps hready hptrs hpc hinv,
    (step_mem_agreeOn hstartup hdisjoint hpc hinv).trans hagree⟩

/-! ### A request that is not READY -/

/-- What holds along a run that starts with the request `r` at `a` that `main` does not
    accept. -/
def NotReadyInv (fw : Firmware σ wz) (a : Nat) (r : Request) (d : Device σ wz) : Prop :=
  d.Fresh ∧
  match d.pc with
  | .startup rest => loadRequest d.mem a = r ∧ ∀ clear ∈ rest, clear ∈ fw.startup
  | .checkHeader => loadRequest d.mem a = r
  | .fail _ | .failStatus => True
  | .halted => d.HasStatus a .error
  | _ => False

/-- A request that is not ready stays so. -/
theorem notReadyInv_step (hkeeps : fw.KeepsRequest a) (hready : ¬ r.Ready)
    (h : NotReadyInv fw a r d) : NotReadyInv fw a r (step fw a d) := by
  obtain ⟨pc, mem, called, returned⟩ := d
  obtain ⟨hfresh, h⟩ := h
  cases pc with
  | startup rest =>
    obtain ⟨hreq, hrest⟩ := h
    cases rest with
    | nil => exact ⟨hfresh, hreq⟩
    | cons clear rest =>
      refine ⟨hfresh, ?_, fun f hf => hrest f (List.mem_cons_of_mem _ hf)⟩
      show loadRequest (clear mem) a = r
      rw [hkeeps.startup clear (hrest clear List.mem_cons_self)]
      exact hreq
  | checkHeader =>
    have hfail : r.magic ≠ dispatchMagic ∨ r.version ≠ dispatchVersion ∨
        r.status ≠ DispatchStatus.ready.toUInt16 := by
      by_contra hpass
      simp only [ne_eq, not_or, not_not] at hpass
      exact hready ⟨hpass.1, hpass.2.1, hpass.2.2⟩
    simp only [step]
    rw [show loadRequest mem a = r from h, if_pos hfail]
    exact ⟨hfresh, trivial⟩
  | fail code => exact ⟨hfresh, trivial⟩
  | failStatus =>
    refine ⟨hfresh, ?_⟩
    show (loadRequest (setStatus mem a .error) a).status = _
    rw [loadRequest_setStatus]
  | halted => exact ⟨hfresh, h⟩
  | _ => exact h.elim

/-- **A request that is not READY** calls no kernel, and ends in status ERROR. -/
theorem notReady_run (hkeeps : fw.KeepsRequest a) {m : Memory}
    (hready : ¬ (loadRequest m a).Ready) (n : Nat) :
    (run fw a n m).Fresh ∧ ((run fw a n m).pc = .halted → (run fw a n m).HasStatus a .error) := by
  have hrun : NotReadyInv fw a (loadRequest m a) (run fw a n m) :=
    Function.Iterate.rec (NotReadyInv fw a (loadRequest m a))
      (show NotReadyInv fw a _ (fw.start m) from ⟨⟨rfl, rfl⟩, rfl, fun _ hf => hf⟩)
      (fun _ => notReadyInv_step hkeeps hready) n
  refine ⟨hrun.1, fun hhalt => ?_⟩
  have hpc := hrun.2
  rw [hhalt] at hpc
  exact hpc

end Step

end CoralNPU.Sim
