import CoralNPU.Sim.Firmware

namespace CoralNPU.Sim

open Lib

/-!
# What a kernel call sees

`main` declares `workgroup_state` inside its loops, without an initializer, and sets all fields but
`local_memory_size`; the host's inline executor sets that one as well.  A field that is not set
holds what lies on the stack.

* `PassedWorkgroupState`, `KernelArgs` — the two structs that a call passes, with every field.
* `Firmware.main` — the firmware entered at `main`; `passedArgs` — the arguments of the calls in the
  first `n` steps of a run.
* `SameArgs` — the two-run law: call by call, two runs pass the same arguments.
* `sameArgs_iff` — it holds of two runs with one request if and only if the stack agrees at the
  field, or no kernel is called.
-/

variable {σ : Type} {wz : Nat}

/-! ### The arguments of a call -/

/-- `iree_hal_executable_workgroup_state_v0_t`, with the field that `main` does not set. -/
structure PassedWorkgroupState extends WorkgroupState where
  localMemorySize : UInt32
  deriving DecidableEq

/-- What the pointers that a kernel gets point to. -/
structure KernelArgs (wz : Nat) where
  dispatchState : DeviceDispatchState wz
  workgroupState : PassedWorkgroupState

/-- `offsetof(iree_hal_executable_workgroup_state_v0_t, local_memory_size)` -/
def localMemorySizeOffset : Nat := 20

/-- The field `local_memory_size` of the struct at `frame`. -/
def loadLocalMemorySize (m : Memory) (frame : Nat) : UInt32 :=
  UInt32.ofNat (load 4 m (frame + localMemorySizeOffset))

/-- The arguments of the call that the device is at: `main` has `workgroup_state` at `frame` of its
    stack. -/
def Device.passed (a frame : Nat) (d : Device σ wz) : Option (KernelArgs wz) :=
  match d.pc with
  | .call l z y x => some
    { dispatchState := l.dispatchState
      workgroupState :=
        { toWorkgroupState := makeWorkgroupState (loadRequest d.mem a) x y z
          -- not set by `main`
          localMemorySize := loadLocalMemorySize d.mem frame } }
  | _ => none

/-- The firmware entered at `main`. -/
def Firmware.main (fw : Firmware σ wz) : Firmware σ wz := { fw with startup := [] }

/-- The arguments of the kernel calls in the first `n` steps of `main`, in order. -/
def passedArgs (fw : Firmware σ wz) (a frame n : Nat) (m : Memory) : List (KernelArgs wz) :=
  (List.range n).filterMap fun i => (run fw.main a i m).passed a frame

/-- **The two-run law.** Every call that both runs make gets the same arguments. -/
def SameArgs (args args' : List (KernelArgs wz)) : Prop :=
  ∀ (i : Nat) x y, args[i]? = some x → args'[i]? = some y → x = y

/-- What is assumed of the kernels, which get pointers to constants: they change neither the request
    nor the struct.  The stack lies above the request. -/
structure Firmware.KernelsKeep (fw : Firmware σ wz) (a frame : Nat) : Prop where
  above : a + requestSize ≤ frame
  request : ∀ ordinal kernel, fw.kernel? ordinal = some kernel →
    ∀ s m s' m', kernel.step s m = .run s' m' → loadRequest m' a = loadRequest m a
  field : ∀ ordinal kernel, fw.kernel? ordinal = some kernel →
    ∀ s m s' m', kernel.step s m = .run s' m' →
      AgreeOn m' m (frame + localMemorySizeOffset) 4

/-- The request makes `main` call a kernel. -/
structure CallsKernel (fw : Firmware σ wz) (r : Request) : Prop where
  ready : r.Ready
  pointers : r.PointersSet
  kernel : ∃ kernel, fw.kernel? r.ordinal = some kernel
  countX : 0 < r.workgroupCountX
  countY : 0 < r.workgroupCountY
  countZ : 0 < r.workgroupCountZ

section Args

variable {fw : Firmware σ wz} {a frame : Nat} {m m' : Memory}

/-- Kernels that keep the frame of `main` keep the request. -/
theorem Firmware.KernelsKeep.keepsRequest (h : fw.KernelsKeep a frame) :
    fw.main.KeepsRequest a where
  startup := fun _ hclear => absurd hclear List.not_mem_nil
  kernel := h.request

/-! ### The calls of a run -/

/-- One more step. -/
theorem run_succ (fw : Firmware σ wz) (a n : Nat) (m : Memory) :
    run fw a (n + 1) m = step fw a (run fw a n m) := Function.iterate_succ_apply' _ _ _

/-- A step records the workgroup of the call it makes. -/
theorem called_step (fw : Firmware σ wz) (a frame : Nat) (d : Device σ wz) :
    (step fw a d).called
      = d.called ++ ((d.passed a frame).map (·.workgroupState.toWorkgroupState)).toList := by
  obtain ⟨pc, mem, called, returned⟩ := d
  cases pc with
  | call l z y x => rfl
  | startup rest => cases rest <;> exact (List.append_nil _).symm
  | kernel l z y x s =>
    rw [Device.passed, Option.map_none, Option.toList_none, List.append_nil]
    simp only [step]
    split
    · rfl
    · split <;> rfl
  | setRunning => exact (List.append_nil _).symm
  | clearReturnCode => exact (List.append_nil _).symm
  | fail code => exact (List.append_nil _).symm
  | failStatus => exact (List.append_nil _).symm
  | clearResult => exact (List.append_nil _).symm
  | setComplete => exact (List.append_nil _).symm
  | halted => exact (List.append_nil _).symm
  | _ =>
    -- tests and lookups
    rw [Device.passed, Option.map_none, Option.toList_none, List.append_nil]
    simp only [step]
    split <;> rfl

/-- The arguments passed up to one more step. -/
theorem passedArgs_succ (fw : Firmware σ wz) (a frame n : Nat) (m : Memory) :
    passedArgs fw a frame (n + 1) m
      = passedArgs fw a frame n m ++ ((run fw.main a n m).passed a frame).toList := by
  rw [passedArgs, List.range_succ, List.filterMap_append]
  cases h : (run fw.main a n m).passed a frame with
  | none => simp [h, passedArgs]
  | some args => simp [h, passedArgs]

/-- The arguments are those of the calls that the machine records. -/
theorem map_passedArgs (fw : Firmware σ wz) (a frame n : Nat) (m : Memory) :
    (passedArgs fw a frame n m).map (·.workgroupState.toWorkgroupState)
      = (run fw.main a n m).called := by
  induction n with
  | zero => rfl
  | succ n ih =>
    rw [passedArgs_succ, List.map_append, ih, run_succ, called_step _ a frame]
    cases (run fw.main a n m).passed a frame <;> rfl

/-! ### The first steps of `main` -/

/-- The memory in which `main` looks for the kernel. -/
def runningMem (m : Memory) (a : Nat) : Memory := setReturnCode (setStatus m a .running) a 0

/-- Marking the request as running changes its status only. -/
theorem loadRequest_runningMem (m : Memory) (a : Nat) :
    loadRequest (runningMem m a) a = (loadRequest m a).running := by
  rw [runningMem, loadRequest_setReturnCode, loadRequest_setStatus, Request.running]

/-- The first two steps accept the header. -/
theorem run_header (hready : (loadRequest m a).Ready) :
    run fw.main a 2 m = ⟨.checkPointers, m, [], []⟩ := by
  have hpass : ¬((loadRequest m a).magic ≠ dispatchMagic ∨
      (loadRequest m a).version ≠ dispatchVersion ∨
      (loadRequest m a).status ≠ DispatchStatus.ready.toUInt16) := by
    simp [hready.magic, hready.version, hready.status]
  show step fw.main a ⟨.checkHeader, m, [], []⟩ = _
  simp only [step]
  rw [if_neg hpass]

/-- The next three accept the pointers. -/
theorem run_pointers (hready : (loadRequest m a).Ready) (hptrs : (loadRequest m a).PointersSet) :
    run fw.main a 5 m = ⟨.queryLibrary, runningMem m a, [], []⟩ := by
  have hpass : ¬(((loadRequest m a).pushConstantCount ≠ 0 ∧
        (loadRequest m a).pushConstantsAddr = 0) ∨
      ((loadRequest m a).bindingCount ≠ 0 ∧ ((loadRequest m a).bindingPtrsAddr = 0 ∨
        (loadRequest m a).bindingLengthsAddr = 0))) := by
    rintro (⟨hne, hnull⟩ | ⟨hne, hnull | hnull⟩)
    · exact hptrs.constants hne hnull
    · exact (hptrs.bindings hne).1 hnull
    · exact (hptrs.bindings hne).2 hnull
  have hset : run fw.main a 3 m = ⟨.setRunning, m, [], []⟩ := by
    rw [run_succ, run_header hready]
    simp only [step]
    rw [if_neg hpass]
  rw [run_succ, run_succ, hset]
  rfl

/-- The next two find the kernel. -/
theorem run_lookup {kernel : Kernel σ wz} (hready : (loadRequest m a).Ready)
    (hptrs : (loadRequest m a).PointersSet)
    (hkernel : fw.kernel? (loadRequest m a).ordinal = some kernel) :
    run fw.main a 7 m
      = ⟨.loopZ ⟨kernel, deviceDispatchState wz (loadRequest m a)⟩ 0, runningMem m a, [], []⟩ := by
  obtain ⟨library, hlibrary, hfind⟩ := Option.bind_eq_some_iff.mp hkernel
  have hquery : run fw.main a 6 m = ⟨.lookupExport library, runningMem m a, [], []⟩ := by
    rw [run_succ, run_pointers hready hptrs]
    simp only [step, Firmware.main, hlibrary]
  rw [run_succ, hquery]
  simp only [step, loadRequest_runningMem]
  rw [show (loadRequest m a).running.ordinal = (loadRequest m a).ordinal from rfl, hfind]
  rfl

/-- The first call is made by step 10. -/
theorem run_firstCall (h : CallsKernel fw (loadRequest m a)) :
    ∃ l, run fw.main a 10 m = ⟨.call l 0 0 0, runningMem m a, [], []⟩ := by
  obtain ⟨kernel, hkernel⟩ := h.kernel
  have hz : ∀ l, step fw.main a ⟨.loopZ l 0, runningMem m a, [], []⟩
      = ⟨.loopY l 0 0, runningMem m a, [], []⟩ := fun l => by
    simp only [step, loadRequest_runningMem, Request.running_countZ]
    rw [if_pos h.countZ]
  have hy : ∀ l, step fw.main a ⟨.loopY l 0 0, runningMem m a, [], []⟩
      = ⟨.loopX l 0 0 0, runningMem m a, [], []⟩ := fun l => by
    simp only [step, loadRequest_runningMem, Request.running_countY]
    rw [if_pos h.countY]
  have hx : ∀ l, step fw.main a ⟨.loopX l 0 0 0, runningMem m a, [], []⟩
      = ⟨.call l 0 0 0, runningMem m a, [], []⟩ := fun l => by
    simp only [step, loadRequest_runningMem, Request.running_countX]
    rw [if_pos h.countX]
  refine ⟨⟨kernel, deviceDispatchState wz (loadRequest m a)⟩, ?_⟩
  rw [run_succ, run_succ, run_succ, run_lookup h.ready h.pointers hkernel, hz, hy, hx]

/-! ### Requests that call no kernel -/

/-- `main` has given up before any call. -/
def Device.GivenUp (d : Device σ wz) : Prop :=
  d.called = [] ∧ ((∃ code, d.pc = .fail code) ∨ d.pc = .failStatus ∨ d.pc = .halted)

/-- A device that has given up does not call a kernel any more. -/
theorem givenUp_step {d : Device σ wz} (h : d.GivenUp) : (step fw a d).GivenUp := by
  obtain ⟨pc, mem, called, returned⟩ := d
  obtain ⟨hcalled, ⟨code, hpc⟩ | hpc | hpc⟩ := h
  · obtain rfl : pc = .fail code := hpc
    exact ⟨hcalled, Or.inr (Or.inl rfl)⟩
  · obtain rfl : pc = .failStatus := hpc
    exact ⟨hcalled, Or.inr (Or.inr rfl)⟩
  · obtain rfl : pc = .halted := hpc
    exact ⟨hcalled, Or.inr (Or.inr rfl)⟩

/-- A run that gives up makes no calls, before or after. -/
theorem called_of_givenUp {k : Nat} (h : (run fw.main a k m).GivenUp) (n : Nat) :
    (run fw.main a n m).called = [] := by
  have hlater : ∀ j, (run fw.main a (k + j) m).GivenUp := by
    intro j
    induction j with
    | zero => exact h
    | succ j ih =>
      rw [← Nat.add_assoc, run_succ]
      exact givenUp_step ih
  have hprefix : ∀ j, (run fw.main a n m).called <+: (run fw.main a (n + j) m).called := by
    intro j
    induction j with
    | zero => exact List.prefix_refl _
    | succ j ih =>
      rw [← Nat.add_assoc, run_succ]
      exact ih.trans (called_prefix_step _ _ _)
  have hnone := (hlater n).1
  rw [Nat.add_comm] at hnone
  exact List.prefix_nil.mp (hnone ▸ hprefix k)

/-- **No kernel** is called for a request that fails a check or a lookup, or has an empty grid. -/
theorem called_of_not_callsKernel (hkeep : fw.KernelsKeep a frame)
    (h : ¬ CallsKernel fw (loadRequest m a)) (n : Nat) : (run fw.main a n m).called = [] := by
  by_cases hready : (loadRequest m a).Ready
  · by_cases hptrs : (loadRequest m a).PointersSet
    · cases hkernel : fw.kernel? (loadRequest m a).ordinal with
      | none =>
        cases hlibrary : fw.library with
        | none =>
          refine called_of_givenUp (k := 6) ?_ n
          rw [run_succ, run_pointers hready hptrs]
          simp only [step, Firmware.main, hlibrary]
          exact ⟨rfl, Or.inl ⟨_, rfl⟩⟩
        | some library =>
          refine called_of_givenUp (k := 7) ?_ n
          have hquery : run fw.main a 6 m = ⟨.lookupExport library, runningMem m a, [], []⟩ := by
            rw [run_succ, run_pointers hready hptrs]
            simp only [step, Firmware.main, hlibrary]
          have hfind : findExport library (loadRequest m a).running.ordinal = none := by
            rw [Firmware.kernel?, hlibrary, Option.bind_some] at hkernel
            exact hkernel
          rw [run_succ, hquery]
          simp only [step, loadRequest_runningMem, hfind]
          exact ⟨rfl, Or.inl ⟨_, rfl⟩⟩
      | some kernel =>
        -- a count is zero
        have hempty : workgroups (loadRequest m a) = [] := by
          rw [workgroups, List.map_eq_nil_iff, List.eq_nil_iff_forall_not_mem]
          intro c hc
          obtain ⟨hx, hy, hz⟩ := mem_grid.mp hc
          exact h ⟨hready, hptrs, ⟨kernel, hkernel⟩, UInt32.lt_iff_toNat_lt.mpr (by
            rw [UInt32.toNat_zero]; omega), UInt32.lt_iff_toNat_lt.mpr (by
            rw [UInt32.toNat_zero]; omega), UInt32.lt_iff_toNat_lt.mpr (by
            rw [UInt32.toNat_zero]; omega)⟩
        have hcalls := (inv_run hkeep.keepsRequest hready hptrs rfl n).calls.1
        rw [hempty] at hcalls
        exact List.prefix_nil.mp hcalls
    · refine called_of_givenUp (k := 3) ?_ n
      rw [run_succ, run_header hready]
      simp only [step]
      rw [if_pos]
      · exact ⟨rfl, Or.inl ⟨_, rfl⟩⟩
      · by_contra hpass
        simp only [not_or, not_and] at hpass
        exact hptrs ⟨hpass.1, fun hne => hpass.2 hne⟩
  · exact (notReady_run hkeep.keepsRequest hready n).1.1

/-! ### The field that is not set -/

/-- The four bytes of the field stay as they are when `main` is entered. -/
theorem run_agreeOn_field (hkeep : fw.KernelsKeep a frame) (hready : (loadRequest m a).Ready)
    (hptrs : (loadRequest m a).PointersSet) (n : Nat) :
    AgreeOn (run fw.main a n m).mem m (frame + localMemorySizeOffset) 4 := by
  induction n with
  | zero => exact AgreeOn.refl _ _ _
  | succ n ih =>
    rw [run_succ]
    refine AgreeOn.trans ?_ ih
    have hinv := inv_run hkeep.keepsRequest hready hptrs (n := n) rfl
    by_cases hpc : ∃ l z y x s, (run fw.main a n m).pc = .kernel l z y x s
    · obtain ⟨l, z, y, x, s, hpc⟩ := hpc
      simp only [Inv, hpc] at hinv
      simp only [step, hpc]
      split
      next s' m' hrun => exact hkeep.field _ _ hinv.2.1.dispatch _ _ _ _ hrun
      next => split <;> exact AgreeOn.refl _ _ _
    · refine step_mem_agreeOn (fun _ hclear => absurd hclear List.not_mem_nil)
        (Nat.le_add_right_of_le hkeep.above) (fun l z y x s hk => hpc ⟨l, z, y, x, s, hk⟩) hinv

/-- **The arguments of the calls**: all fields but the size of the local memory are determined by
    the request, and that one by the stack. -/
theorem passedArgs_eq (hkeep : fw.KernelsKeep a frame) (hready : (loadRequest m a).Ready)
    (hptrs : (loadRequest m a).PointersSet) (n : Nat) :
    passedArgs fw a frame n m = (run fw.main a n m).called.map fun w =>
      ⟨deviceDispatchState wz (loadRequest m a), ⟨w, loadLocalMemorySize m frame⟩⟩ := by
  induction n with
  | zero => rfl
  | succ n ih =>
    rw [passedArgs_succ, ih, run_succ, called_step _ a frame, List.map_append]
    congr 1
    have hinv := inv_run hkeep.keepsRequest hready hptrs (n := n) rfl
    cases hpassed : (run fw.main a n m).passed a frame with
    | none => rfl
    | some args =>
      unfold Device.passed at hpassed
      split at hpassed
      next l z y x hpc =>
        obtain rfl := Option.some.inj hpassed
        simp only [Inv, hpc] at hinv
        -- nobody has written the field since the start
        have hsize : loadLocalMemorySize (run fw.main a n m).mem frame = loadLocalMemorySize m frame :=
          congrArg UInt32.ofNat (run_agreeOn_field hkeep hready hptrs n).load
        rw [Option.toList_some, Option.map_some, Option.toList_some, List.map_singleton, hsize,
          hinv.2.1.dispatchState]
      next => cases hpassed

/-- The first call gets the size that lies on the stack. -/
theorem passedArgs_firstCall (hkeep : fw.KernelsKeep a frame)
    (hcalls : CallsKernel fw (loadRequest m a)) :
    ∃ x, (passedArgs fw a frame 11 m)[0]? = some x ∧
      x.workgroupState.localMemorySize = loadLocalMemorySize m frame := by
  obtain ⟨l, hfirst⟩ := run_firstCall hcalls
  have hcalled : (run fw.main a 11 m).called = [makeWorkgroupState (loadRequest m a).running 0 0 0] := by
    rw [run_succ, hfirst, ← loadRequest_runningMem]
    rfl
  rw [passedArgs_eq hkeep hcalls.ready hcalls.pointers, hcalled]
  exact ⟨_, rfl, rfl⟩

/-- The elements of a prefix are those of the list. -/
theorem getElem?_of_isPrefix {α : Type} {l l' : List α} (h : l <+: l') {i : Nat} {x : α}
    (hx : l[i]? = some x) : l'[i]? = some x := by
  obtain ⟨rest, rfl⟩ := h
  rw [List.getElem?_append_left (List.getElem?_eq_some_iff.mp hx).1, hx]

/-- **Two runs with one request.** Every field but the size of the local memory is the same in every
    call; that one is the same if and only if the stack agrees at it, or no kernel is called. -/
theorem sameArgs_iff (hkeep : fw.KernelsKeep a frame)
    (hrequest : loadRequest m a = loadRequest m' a) :
    ((∀ n n', SameArgs (passedArgs fw a frame n m) (passedArgs fw a frame n' m')) ↔
      loadLocalMemorySize m frame = loadLocalMemorySize m' frame ∨
        ¬ CallsKernel fw (loadRequest m a)) ∧
    ∀ n n' (i : Nat) x y, (passedArgs fw a frame n m)[i]? = some x →
      (passedArgs fw a frame n' m')[i]? = some y →
      x.dispatchState = y.dispatchState ∧
        x.workgroupState.toWorkgroupState = y.workgroupState.toWorkgroupState := by
  by_cases hcalls : CallsKernel fw (loadRequest m a)
  · have hready' := hrequest ▸ hcalls.ready
    have hptrs' := hrequest ▸ hcalls.pointers
    have hargs := passedArgs_eq hkeep hcalls.ready hcalls.pointers
    have hargs' := passedArgs_eq hkeep hready' hptrs'
    -- both runs call the kernel for the workgroups of the grid, in order
    have hsame : ∀ n n' (i : Nat) x y, (passedArgs fw a frame n m)[i]? = some x →
        (passedArgs fw a frame n' m')[i]? = some y → ∃ w,
          x = ⟨deviceDispatchState wz (loadRequest m a), ⟨w, loadLocalMemorySize m frame⟩⟩ ∧
          y = ⟨deviceDispatchState wz (loadRequest m a), ⟨w, loadLocalMemorySize m' frame⟩⟩ := by
      intro n n' i x y hx hy
      rw [hargs, List.getElem?_map, Option.map_eq_some_iff] at hx
      rw [hargs', ← hrequest, List.getElem?_map, Option.map_eq_some_iff] at hy
      obtain ⟨w, hw, rfl⟩ := hx
      obtain ⟨w', hw', rfl⟩ := hy
      have hgrid := (inv_run hkeep.keepsRequest hcalls.ready hcalls.pointers rfl n).calls.1
      have hgrid' := (inv_run hkeep.keepsRequest hready' hptrs' rfl n').calls.1
      rw [← hrequest] at hgrid'
      have hww' : w = w' :=
        Option.some.inj ((getElem?_of_isPrefix hgrid hw).symm.trans (getElem?_of_isPrefix hgrid' hw'))
      exact ⟨w, rfl, hww' ▸ rfl⟩
    refine ⟨⟨fun hlaw => Or.inl ?_, fun hcase n n' i x y hx hy => ?_⟩,
      fun n n' i x y hx hy => ?_⟩
    · -- the first call
      obtain ⟨x, hx, hsize⟩ := passedArgs_firstCall hkeep hcalls
      obtain ⟨y, hy, hsize'⟩ := passedArgs_firstCall hkeep (hrequest ▸ hcalls)
      rw [← hsize, ← hsize', hlaw 11 11 0 x y hx hy]
    · obtain ⟨w, rfl, rfl⟩ := hsame n n' i x y hx hy
      rw [hcase.resolve_right (not_not.mpr hcalls)]
    · obtain ⟨w, rfl, rfl⟩ := hsame n n' i x y hx hy
      exact ⟨rfl, rfl⟩
  · have hnone : ∀ n (i : Nat) x, (passedArgs fw a frame n m)[i]? ≠ some x := by
      intro n i x hx
      have hempty := map_passedArgs fw a frame n m
      rw [called_of_not_callsKernel hkeep hcalls, List.map_eq_nil_iff] at hempty
      rw [hempty] at hx
      cases hx
    exact ⟨iff_of_true (fun n n' i x y hx => absurd hx (hnone n i x)) (Or.inr hcalls),
      fun n n' i x y hx => absurd hx (hnone n i x)⟩

end Args

/-! ### A kernel that returns at once -/

/-- A firmware with one kernel, which returns 0. -/
def oneKernel : Firmware Unit 32 where
  startup := []
  library := some
    { exportPtrs := some fun _ => some
        { enter := fun _ _ => ()
          step := fun _ _ => .ret 0 }
      exportCount := 1 }

/-- One workgroup of one kernel, without constants and bindings. -/
def oneRequest : Request where
  magic := dispatchMagic
  version := dispatchVersion
  status := DispatchStatus.ready.toUInt16
  returnCode := 0
  workgroupSizeX := 1
  workgroupSizeY := 1
  workgroupSizeZ := 1
  workgroupCountX := 1
  workgroupCountY := 1
  workgroupCountZ := 1
  maxConcurrency := 1
  pushConstantCount := 0
  bindingCount := 0
  ordinal := 0
  pushConstantsAddr := 0
  bindingPtrsAddr := 0
  bindingLengthsAddr := 0
  localMemoryAddr := 0

/-- The request at address 0; the field on the stack holds `size`. -/
def stackMemory (size : UInt32) : Memory :=
  store 4 (storeRequest (fun _ => 0) 0 oneRequest) (64 + localMemorySizeOffset) size.toNat

/-- The kernel returns 0. -/
theorem oneKernel_returns {ordinal : UInt32} {kernel : Kernel Unit 32}
    (h : oneKernel.kernel? ordinal = some kernel) (s : Unit) (m : Memory) :
    kernel.step s m = .ret 0 := by
  have hptr : (if ordinal ≥ 1 then none else some (⟨fun _ _ => (), fun _ _ => .ret 0⟩ :
    Kernel Unit 32)) = some kernel := h
  split at hptr
  next => cases hptr
  next =>
    obtain rfl := Option.some.inj hptr
    rfl

/-- It writes no memory. -/
theorem oneKernel_keeps : oneKernel.KernelsKeep 0 64 where
  above := by decide
  request := by
    intro ordinal kernel hkernel s m s' m' hstep
    rw [oneKernel_returns hkernel] at hstep
    cases hstep
  field := by
    intro ordinal kernel hkernel s m s' m' hstep
    rw [oneKernel_returns hkernel] at hstep
    cases hstep

/-- The request is in memory. -/
theorem loadRequest_stackMemory (size : UInt32) :
    loadRequest (stackMemory size) 0 = oneRequest := by
  have hagree : AgreeOn (stackMemory size) (storeRequest (fun _ => 0) 0 oneRequest) 0 requestSize :=
    store_agreeOn (Or.inl (by decide))
  rw [loadRequest_congr hagree, loadRequest_storeRequest]

/-- The stack slot holds what was in it. -/
theorem loadLocalMemorySize_stackMemory (size : UInt32) :
    loadLocalMemorySize (stackMemory size) 64 = size := uint32_ofNat_load_store _ _ size

/-- The request calls the kernel. -/
theorem oneRequest_calls : CallsKernel oneKernel oneRequest where
  ready := ⟨rfl, rfl, rfl⟩
  pointers := ⟨fun h => absurd rfl h, fun h => absurd rfl h⟩
  kernel := ⟨_, rfl⟩
  countX := by decide
  countY := by decide
  countZ := by decide

/-- Runs that differ in other bytes of the stack, after 11 and 12 steps. -/
theorem sameArgs_oneKernel :
    SameArgs (passedArgs oneKernel 0 64 11 (stackMemory 7))
      (passedArgs oneKernel 0 64 12 (store 4 (stackMemory 7) 100 1)) := by
  have hrequest : loadRequest (stackMemory 7) 0
      = loadRequest (store 4 (stackMemory 7) 100 1) 0 :=
    loadRequest_congr (store_agreeOn (Or.inl (by decide))).symm
  have hfield : loadLocalMemorySize (stackMemory 7) 64
      = loadLocalMemorySize (store 4 (stackMemory 7) 100 1) 64 :=
    congrArg UInt32.ofNat (store_agreeOn (Or.inl (by decide))).symm.load
  exact (sameArgs_iff oneKernel_keeps hrequest).1.mpr (Or.inl hfield) 11 12

/-- **Runs that differ in the field** pass the kernel different sizes of the local memory. -/
theorem oneKernel_not_sameArgs :
    loadRequest (stackMemory 0) 0 = loadRequest (stackMemory 4096) 0 ∧
    ¬ ∀ n n', SameArgs (passedArgs oneKernel 0 64 n (stackMemory 0))
      (passedArgs oneKernel 0 64 n' (stackMemory 4096)) := by
  refine ⟨by rw [loadRequest_stackMemory, loadRequest_stackMemory], fun hlaw => ?_⟩
  have hcalls : ∀ size, CallsKernel oneKernel (loadRequest (stackMemory size) 0) := fun size =>
    (loadRequest_stackMemory size).symm ▸ oneRequest_calls
  obtain ⟨x, hx, hsize⟩ := passedArgs_firstCall oneKernel_keeps (hcalls 0)
  obtain ⟨y, hy, hsize'⟩ := passedArgs_firstCall oneKernel_keeps (hcalls 4096)
  rw [hlaw 11 11 0 x y hx hy, hsize', loadLocalMemorySize_stackMemory,
    loadLocalMemorySize_stackMemory] at hsize
  exact absurd hsize (by decide)

end CoralNPU.Sim
