import Mathlib.Data.List.Basic
import Mathlib.Logic.Function.Basic

namespace CoralNPU.Driver

/-!
# Semaphores

The timeline semaphores of the driver, one critical section at a time.

* `Semaphore` — the fields that a semaphore's mutex guards.  A failure status is `none` when
  it is OK; what else it can be is a parameter, as is the sentinel value of a failed semaphore.
* `Semaphore.signalUnsafe`, `Semaphore.failSection` — the critical sections that change a
  semaphore.
* `isSignaled`, `anySignaled`, `allSignaled`, `resultFromState` — what a waiter reads.
* `Semaphore.Valid`, `Semaphore.LE` — the invariant of a semaphore, and the order in which it
  moves.
-/

variable {ι ε : Type} {failureValue : UInt64}

/-- The statuses that the semaphore functions make themselves. -/
inductive Status
  | ok
  | outOfRange (currentValue newValue : UInt64)
  | aborted
  | deadlineExceeded
  deriving DecidableEq, Repr

/-- `iree_hal_coralnpu_semaphore_t`: the fields guarded by its mutex. -/
structure Semaphore (ε : Type) where
  currentValue : UInt64
  failureStatus : Option ε
  deriving DecidableEq

/-- `iree_hal_semaphore_list_t`: the semaphores with their payload values. -/
abbrev SemaphoreList (ι : Type) := List (ι × UInt64)

/-- The semaphores of a device. -/
abbrev Semaphores (ι ε : Type) := ι → Semaphore ε

/-! ### Changing a semaphore -/

/-- `iree_hal_coralnpu_semaphore_signal_unsafe` -/
def Semaphore.signalUnsafe (s : Semaphore ε) (newValue : UInt64) : Semaphore ε × Status :=
  if newValue ≤ s.currentValue then (s, .outOfRange s.currentValue newValue)
  else ({ s with currentValue := newValue }, .ok)

/-- The critical section of `iree_hal_coralnpu_semaphore_fail`, and whether it changes the
    semaphore: only the first failure is kept. -/
def Semaphore.failSection (failureValue : UInt64) (s : Semaphore ε) (status : Option ε) :
    Semaphore ε × Bool :=
  if s.failureStatus.isSome then (s, false)
  else ({ currentValue := failureValue, failureStatus := status }, true)

/-- A signal that is not accepted changes nothing. -/
theorem Semaphore.signalUnsafe_of_not_ok {s : Semaphore ε} {newValue : UInt64}
    (h : (s.signalUnsafe newValue).2 ≠ .ok) : (s.signalUnsafe newValue).1 = s := by
  unfold signalUnsafe at h ⊢
  split
  · rfl
  next hlt => exact absurd (by rw [if_neg hlt]) h

/-- A signal that is accepted sets the value. -/
theorem Semaphore.signalUnsafe_of_lt {s : Semaphore ε} {newValue : UInt64}
    (h : s.currentValue < newValue) :
    s.signalUnsafe newValue = ({ s with currentValue := newValue }, .ok) := by
  rw [signalUnsafe, if_neg (UInt64.not_le.mpr h)]

/-! ### Reading semaphores -/

/-- `iree_hal_coralnpu_semaphore_query`: the value, and the status. -/
def Semaphore.query (failureValue : UInt64) (s : Semaphore ε) : UInt64 × Option ε :=
  (s.currentValue, if s.currentValue ≥ failureValue then s.failureStatus else none)

/-- `iree_hal_coralnpu_semaphore_is_signaled`, and the test in the bodies of the two loops. -/
def isSignaled (s : Semaphore ε) (value : UInt64) : Bool :=
  decide (s.currentValue ≥ value) || s.failureStatus.isSome

/-- `iree_hal_coralnpu_semaphore_any_signaled` -/
def anySignaled (sems : Semaphores ι ε) : SemaphoreList ι → Bool
  | [] => false
  | (i, payload) :: list => if isSignaled (sems i) payload then true else anySignaled sems list

/-- `iree_hal_coralnpu_semaphore_all_signaled` -/
def allSignaled (sems : Semaphores ι ε) : SemaphoreList ι → Bool
  | [] => true
  | (i, payload) :: list => if !isSignaled (sems i) payload then false else allSignaled sems list

/-- `iree_hal_wait_mode_t` -/
inductive WaitMode
  | all | any
  deriving DecidableEq, Repr

/-- The condition that `iree_hal_coralnpu_semaphore_multi_wait` waits for. -/
def wakeCondition (mode : WaitMode) (sems : Semaphores ι ε) (list : SemaphoreList ι) : Bool :=
  match mode with
  | .all => allSignaled sems list
  | .any => anySignaled sems list

/-- The three flags of `iree_hal_coralnpu_semaphore_result_from_state`. -/
structure ListFlags where
  anySignaled : Bool
  allSignaled : Bool
  anyFailed : Bool
  deriving DecidableEq

/-- The loop of `iree_hal_coralnpu_semaphore_result_from_state`. -/
def listFlags (sems : Semaphores ι ε) (flags : ListFlags) (list : SemaphoreList ι) : ListFlags :=
  list.foldl (fun flags e =>
    if (sems e.1).failureStatus.isSome then { flags with anyFailed := true }
    else if (sems e.1).currentValue < e.2 then { flags with allSignaled := false }
    else { flags with anySignaled := true }) flags

/-- The status behind the loop, from its flags. -/
def ListFlags.result (mode : WaitMode) (flags : ListFlags) : Status :=
  if flags.anyFailed then .aborted
  else
    match mode with
    | .all => if flags.allSignaled then .ok else .deadlineExceeded
    | .any => if flags.anySignaled then .ok else .deadlineExceeded

/-- `iree_hal_coralnpu_semaphore_result_from_state` -/
def resultFromState (mode : WaitMode) (sems : Semaphores ι ε) (list : SemaphoreList ι) : Status :=
  (listFlags sems ⟨false, true, false⟩ list).result mode

/-! ### What the reads mean -/

/-- A semaphore has failed. -/
def Failed (s : Semaphore ε) : Prop := s.failureStatus.isSome

/-- A semaphore has reached a value, without having failed. -/
def Reached (s : Semaphore ε) (value : UInt64) : Prop :=
  ¬ Failed s ∧ value ≤ s.currentValue

instance (s : Semaphore ε) : Decidable (Failed s) := inferInstanceAs (Decidable (_ = _))

instance (s : Semaphore ε) (value : UInt64) : Decidable (Reached s value) :=
  inferInstanceAs (Decidable (_ ∧ _))

theorem isSignaled_iff (s : Semaphore ε) (value : UInt64) :
    isSignaled s value = true ↔ value ≤ s.currentValue ∨ Failed s := by
  simp [isSignaled, Failed]

theorem anySignaled_iff (sems : Semaphores ι ε) (list : SemaphoreList ι) :
    anySignaled sems list = true ↔ ∃ e ∈ list, isSignaled (sems e.1) e.2 = true := by
  induction list with
  | nil => simp [anySignaled]
  | cons e list ih =>
    rw [anySignaled, List.exists_mem_cons_iff, ← ih]
    split <;> simp_all

theorem allSignaled_iff (sems : Semaphores ι ε) (list : SemaphoreList ι) :
    allSignaled sems list = true ↔ ∀ e ∈ list, isSignaled (sems e.1) e.2 = true := by
  induction list with
  | nil => simp [allSignaled]
  | cons e list ih =>
    rw [allSignaled, List.forall_mem_cons, ← ih]
    split <;> simp_all

/-- What the loop adds to the flags it starts with. -/
theorem listFlags_eq (sems : Semaphores ι ε) (list : SemaphoreList ι) :
    ∀ flags : ListFlags,
      ((listFlags sems flags list).anyFailed = true ↔
        flags.anyFailed = true ∨ ∃ e ∈ list, Failed (sems e.1)) ∧
      ((listFlags sems flags list).allSignaled = true ↔
        flags.allSignaled = true ∧ ∀ e ∈ list, isSignaled (sems e.1) e.2 = true) ∧
      ((listFlags sems flags list).anySignaled = true ↔
        flags.anySignaled = true ∨ ∃ e ∈ list, Reached (sems e.1) e.2) := by
  induction list with
  | nil => intro flags; simp [listFlags]
  | cons e list ih =>
    intro flags
    rw [listFlags, List.foldl_cons, ← listFlags]
    obtain ⟨hfailed, hall, hany⟩ := ih
      (if (sems e.1).failureStatus.isSome then { flags with anyFailed := true }
       else if (sems e.1).currentValue < e.2 then { flags with allSignaled := false }
       else { flags with anySignaled := true })
    rw [hfailed, hall, hany, List.exists_mem_cons_iff, List.exists_mem_cons_iff,
      List.forall_mem_cons, isSignaled_iff]
    -- by the three cases of the loop body
    by_cases hf : Failed (sems e.1)
    · have hf' : (sems e.1).failureStatus.isSome = true := hf
      simp [hf', hf, Reached]
    · have hf' : (sems e.1).failureStatus.isSome = false := by simpa [Failed] using hf
      by_cases hv : (sems e.1).currentValue < e.2
      · have hv' : ¬ e.2 ≤ (sems e.1).currentValue := UInt64.not_le.mpr hv
        simp [hf', hf, hv, Reached, hv']
      · have hv' : e.2 ≤ (sems e.1).currentValue := UInt64.not_lt.mp hv
        simp [hf', hf, hv, Reached, hv']

/-- The list has come to what its mode asks for. -/
def ListReached (mode : WaitMode) (sems : Semaphores ι ε) (list : SemaphoreList ι) : Prop :=
  match mode with
  | .all => ∀ e ∈ list, Reached (sems e.1) e.2
  | .any => ∃ e ∈ list, Reached (sems e.1) e.2

/-- Some semaphore of the list has failed. -/
def SomeFailed (sems : Semaphores ι ε) (list : SemaphoreList ι) : Prop :=
  ∃ e ∈ list, Failed (sems e.1)

/-- The result is ABORTED exactly when a semaphore of the list has failed. -/
theorem resultFromState_aborted_iff (mode : WaitMode) (sems : Semaphores ι ε)
    (list : SemaphoreList ι) :
    resultFromState mode sems list = .aborted ↔ SomeFailed sems list := by
  obtain ⟨hfailed, -, -⟩ := listFlags_eq sems list ⟨false, true, false⟩
  simp only [Bool.false_eq_true, false_or] at hfailed
  rw [SomeFailed, ← hfailed]
  unfold resultFromState ListFlags.result
  split
  next h => simp [h]
  next h =>
    have hresult : ∀ b : Bool, (if b then Status.ok else .deadlineExceeded) ≠ .aborted := by decide
    cases mode with
    | all => simp [h, hresult]
    | any => simp [h, hresult]

/-- The result is OK exactly when none has failed and the list has come to what is asked. -/
theorem resultFromState_ok_iff (mode : WaitMode) (sems : Semaphores ι ε)
    (list : SemaphoreList ι) :
    resultFromState mode sems list = .ok ↔
      ¬ SomeFailed sems list ∧ ListReached mode sems list := by
  obtain ⟨hfailed, hall, hany⟩ := listFlags_eq sems list ⟨false, true, false⟩
  simp only [Bool.false_eq_true, false_or, true_and] at hfailed hall hany
  unfold resultFromState ListFlags.result
  split
  next h =>
    have hsome : SomeFailed sems list := hfailed.mp h
    simp [hsome]
  next h =>
    have hnone : ¬ SomeFailed sems list := fun hsome => h (hfailed.mpr hsome)
    cases mode with
    | all =>
      -- without a failure, a semaphore is signaled when it has reached its payload
      have hreached : (∀ e ∈ list, isSignaled (sems e.1) e.2 = true) ↔
          ListReached .all sems list := by
        apply forall₂_congr
        intro e he
        have hf : ¬ Failed (sems e.1) := fun hf => hnone ⟨e, he, hf⟩
        rw [isSignaled_iff, Reached]
        simp [hf]
      rw [← hreached, ← hall]
      simp [hnone]
    | any =>
      show (if _ then Status.ok else Status.deadlineExceeded) = Status.ok ↔ _
      rw [ListReached, ← hany]
      simp [hnone]

/-- The result is one of three. -/
theorem resultFromState_cases (mode : WaitMode) (sems : Semaphores ι ε)
    (list : SemaphoreList ι) :
    resultFromState mode sems list = .aborted ∨ resultFromState mode sems list = .ok ∨
      resultFromState mode sems list = .deadlineExceeded := by
  simp only [resultFromState, ListFlags.result]
  split
  · exact .inl rfl
  · apply Or.inr
    cases mode with
    | all => simp only; split <;> simp
    | any => simp only; split <;> simp

/-! ### The invariant of a semaphore -/

/-- The value is the failure value exactly when the failure status is not OK. -/
def Semaphore.Valid (failureValue : UInt64) (s : Semaphore ε) : Prop :=
  (s.currentValue = failureValue ↔ Failed s) ∧ s.currentValue ≤ failureValue

/-- A semaphore moves up: its value does not decrease, and a failure status stays. -/
def Semaphore.LE (s s' : Semaphore ε) : Prop :=
  s.currentValue ≤ s'.currentValue ∧ ∀ status, s.failureStatus = some status →
    s'.failureStatus = some status

theorem Semaphore.LE.refl (s : Semaphore ε) : s.LE s := ⟨UInt64.le_refl _, fun _ h => h⟩

theorem Semaphore.LE.trans {s s' s'' : Semaphore ε} (h : s.LE s') (h' : s'.LE s'') : s.LE s'' :=
  ⟨UInt64.le_trans h.1 h'.1, fun status hs => h'.2 status (h.2 status hs)⟩

/-- A query returns the failure status. -/
theorem Semaphore.Valid.query_eq {s : Semaphore ε} (h : s.Valid failureValue) :
    s.query failureValue = (s.currentValue, s.failureStatus) := by
  rw [query]
  split
  · rfl
  next hlt =>
    have hne : s.currentValue ≠ failureValue := fun heq => hlt (heq ▸ UInt64.le_refl _)
    have hnone : s.failureStatus = none := Option.not_isSome_iff_eq_none.mp (mt h.1.mpr hne)
    rw [hnone]

/-- A signal keeps the invariant and moves the semaphore up, for payloads below the failure
    value. -/
theorem Semaphore.signalUnsafe_valid {s : Semaphore ε} (hs : s.Valid failureValue)
    {newValue : UInt64} (hnew : newValue < failureValue) :
    (s.signalUnsafe newValue).1.Valid failureValue ∧ s.LE (s.signalUnsafe newValue).1 := by
  unfold signalUnsafe
  split
  · exact ⟨hs, LE.refl s⟩
  next hlt =>
    have hlt' := UInt64.not_le.mp hlt
    -- a semaphore that can be signaled has not failed
    have hne : s.currentValue ≠ failureValue :=
      UInt64.ne_of_lt (UInt64.lt_trans hlt' hnew)
    have hnf : ¬ Failed s := fun hf => hne (hs.1.mpr hf)
    refine ⟨⟨?_, UInt64.le_of_lt hnew⟩, UInt64.le_of_lt hlt', fun status h => ?_⟩
    · exact ⟨fun h => absurd h (UInt64.ne_of_lt hnew), fun h => absurd h hnf⟩
    · exact h

/-- A failure keeps the invariant and moves the semaphore up. -/
theorem Semaphore.failSection_valid {s : Semaphore ε} (hs : s.Valid failureValue)
    {status : Option ε} (hstatus : status.isSome) :
    (s.failSection failureValue status).1.Valid failureValue ∧
      s.LE (s.failSection failureValue status).1 := by
  unfold failSection
  split
  · exact ⟨hs, LE.refl s⟩
  next hnone =>
    refine ⟨⟨?_, UInt64.le_refl _⟩, hs.2, fun st hst => ?_⟩
    · exact ⟨fun _ => hstatus, fun _ => rfl⟩
    · rw [hst] at hnone
      exact absurd rfl hnone

/-- A failed semaphore is as good as signaled for any payload. -/
theorem Semaphore.failSection_failed (s : Semaphore ε) {status : Option ε}
    (hstatus : status.isSome) : Failed (s.failSection failureValue status).1 := by
  unfold failSection
  split
  next h => exact h
  next => exact hstatus

end CoralNPU.Driver
