import CoralNPU.Driver.SemaphoreRuns
import Mathlib.Order.Lattice.Nat

namespace CoralNPU.Driver

open Lib

/-!
# Waiting for semaphores

* `wakes_when_decided_iff` — the condition that a multi-wait wakes up on, against the result it
  would return: they agree unless a failed semaphore is waited for together with one that is
  neither reached nor failed.
* `Timeout`, `Timeline`, `Await` — time, and `iree_notification_await`, which returns at the
  first moment at which its condition holds or its deadline has passed.
* `WaitReturns`, `MultiWaitReturns` — when a wait returns, and with what.
* `HonoursTimeout` — what is asked of a wait; `multiWait_honoursTimeout_iff` — when a multi-wait
  does it.
-/

variable {ι ε : Type}

/-! ### The wake condition -/

/-- A multi-wait is decided when its result would not be DEADLINE_EXCEEDED. -/
def Decided (mode : WaitMode) (sems : Semaphores ι ε) (list : SemaphoreList ι) : Prop :=
  resultFromState mode sems list ≠ .deadlineExceeded

theorem decided_iff (mode : WaitMode) (sems : Semaphores ι ε) (list : SemaphoreList ι) :
    Decided mode sems list ↔ SomeFailed sems list ∨ ListReached mode sems list := by
  rw [Decided]
  constructor
  · intro h
    rcases resultFromState_cases mode sems list with hr | hr | hr
    · exact .inl ((resultFromState_aborted_iff mode sems list).mp hr)
    · exact .inr ((resultFromState_ok_iff mode sems list).mp hr).2
    · exact absurd hr h
  · intro h hr
    have haborted := resultFromState_aborted_iff mode sems list
    have hok := resultFromState_ok_iff mode sems list
    rw [hr] at haborted hok
    have hnone : ¬ SomeFailed sems list := fun hf => by cases haborted.mpr hf
    cases hok.mpr ⟨hnone, h.resolve_left hnone⟩

/-- Who wakes up finds the wait decided. -/
theorem decided_of_wakeCondition {mode : WaitMode} {sems : Semaphores ι ε}
    {list : SemaphoreList ι} (h : wakeCondition mode sems list = true) :
    Decided mode sems list := by
  rw [decided_iff]
  by_cases hf : SomeFailed sems list
  · exact .inl hf
  · apply Or.inr
    have hreached : ∀ e ∈ list, isSignaled (sems e.1) e.2 = true → Reached (sems e.1) e.2 := by
      intro e he hs
      have hnf : ¬ Failed (sems e.1) := fun hfe => hf ⟨e, he, hfe⟩
      exact ⟨hnf, ((isSignaled_iff _ _).mp hs).resolve_right hnf⟩
    cases mode with
    | all => exact fun e he => hreached e he ((allSignaled_iff sems list).mp h e he)
    | any =>
      obtain ⟨e, he, hs⟩ := (anySignaled_iff sems list).mp h
      exact ⟨e, he, hreached e he hs⟩

/-- Every semaphore of the list has reached its payload or failed. -/
def AllReachedOrFailed (sems : Semaphores ι ε) (list : SemaphoreList ι) : Prop :=
  ∀ e ∈ list, e.2 ≤ (sems e.1).currentValue ∨ Failed (sems e.1)

/-- **The wake condition covers the result** of a multi-wait except in the mode ALL, when some
    semaphore has failed and some semaphore has neither reached its payload nor failed. -/
theorem wakes_when_decided_iff (mode : WaitMode) (sems : Semaphores ι ε)
    (list : SemaphoreList ι) :
    (resultFromState mode sems list ≠ .deadlineExceeded → wakeCondition mode sems list = true) ↔
      mode = .any ∨ ¬ SomeFailed sems list ∨ AllReachedOrFailed sems list := by
  have hall : wakeCondition .all sems list = true ↔ AllReachedOrFailed sems list := by
    rw [wakeCondition, allSignaled_iff]
    exact forall₂_congr fun e _ => isSignaled_iff _ _
  rw [← Decided, decided_iff]
  cases mode with
  | all =>
    rw [hall]
    constructor
    · intro h
      apply Or.inr
      by_cases hf : SomeFailed sems list
      · exact .inr (h (.inl hf))
      · exact .inl hf
    · rintro (h | h | h)
      · cases h
      · intro hdecided e he
        exact .inl (hdecided.resolve_left h e he).2
      · exact fun _ => h
  | any =>
    refine ⟨fun _ => .inl rfl, fun _ hdecided => ?_⟩
    rw [wakeCondition, anySignaled_iff]
    -- a failed semaphore counts as signaled
    rcases hdecided with ⟨e, he, hf⟩ | ⟨e, he, hr⟩
    · exact ⟨e, he, (isSignaled_iff _ _).mpr (.inr hf)⟩
    · exact ⟨e, he, (isSignaled_iff _ _).mpr (.inl hr.2)⟩

/-- One of the two semaphores fails. -/
def failFirst : List (Action Bool Unit) := [.call 0 (.fail false (some ())), .advance 0, .advance 0]

/-- After the failure of one of two semaphores, a wait for both has the result ABORTED, and its
    wake condition does not hold. -/
theorem failFirst_not_woken :
    ∃ s, run (step 100) failFirst twoSemaphores = some s ∧
      resultFromState .all s.sems [(false, 1), (true, 1)] ≠ .deadlineExceeded ∧
      wakeCondition .all s.sems [(false, 1), (true, 1)] ≠ true := by
  have hrun : (run (step 100) failFirst twoSemaphores).map (fun s =>
      (resultFromState .all s.sems [(false, 1), (true, 1)],
        wakeCondition .all s.sems [(false, 1), (true, 1)])) = some (.aborted, false) := by decide
  obtain ⟨s, hs, hresult⟩ := Option.map_eq_some_iff.mp hrun
  obtain ⟨hr, hw⟩ := Prod.mk.inj hresult
  exact ⟨s, hs, by rw [hr]; decide, by rw [hw]; decide⟩

/-! ### Time -/

/-- `iree_timeout_t`, with the deadlines that are points in time. -/
inductive Timeout
  | immediate
  | finite (deadline : Nat)
  | infinite
  deriving DecidableEq

/-- The deadline of a wait that starts at `start`. -/
def Timeout.deadline (start : Nat) : Timeout → Option Nat
  | .immediate => some start
  | .finite d => some d
  | .infinite => none

/-- The deadline has passed at time `t`. -/
def Timeout.Expired (timeout : Timeout) (start t : Nat) : Prop :=
  ∃ d, timeout.deadline start = some d ∧ d ≤ t

/-- The semaphores at every moment. -/
abbrev Timeline (ι ε : Type) := Nat → Semaphores ι ε

/-- `iree_notification_await` that starts at `start` returns at `t`: the first moment at which
    the condition holds or the deadline has passed. -/
def Await (condition : Nat → Prop) (timeout : Timeout) (start t : Nat) : Prop :=
  IsLeast {u | start ≤ u ∧ (condition u ∨ timeout.Expired start u)} t

/-- A await whose condition holds some time, or which has a deadline, returns. -/
theorem exists_await (condition : Nat → Prop) (timeout : Timeout) {start u : Nat}
    (hu : start ≤ u) (h : condition u ∨ timeout.Expired start u) :
    ∃ t, Await condition timeout start t ∧ t ≤ u := by
  have hne : {u | start ≤ u ∧ (condition u ∨ timeout.Expired start u)}.Nonempty := ⟨u, hu, h⟩
  refine ⟨sInf {u | start ≤ u ∧ (condition u ∨ timeout.Expired start u)},
    ⟨Nat.sInf_mem hne, fun v hv => Nat.sInf_le hv⟩, Nat.sInf_le ⟨hu, h⟩⟩

/-! ### The waits -/

/-- `iree_hal_coralnpu_semaphore_wait` for a semaphore, started at `start`, returns `status` at
    `t`. -/
def WaitReturns (timeline : Timeline ι ε) (i : ι) (value : UInt64) (timeout : Timeout)
    (start t : Nat) (status : Status) : Prop :=
  if Failed (timeline start i) then t = start ∧ status = .aborted
  else if (timeline start i).currentValue ≥ value then t = start ∧ status = .ok
  else if timeout = .immediate then t = start ∧ status = .deadlineExceeded
  else
    Await (fun u => isSignaled (timeline u i) value = true) timeout start t ∧
      status = if Failed (timeline t i) then .aborted
        else if (timeline t i).currentValue < value then .deadlineExceeded
        else .ok

/-- `iree_hal_coralnpu_semaphore_multi_wait`, started at `start`, returns `status` at `t`. -/
def MultiWaitReturns (timeline : Timeline ι ε) (mode : WaitMode) (list : SemaphoreList ι)
    (timeout : Timeout) (start t : Nat) (status : Status) : Prop :=
  match list with
  | [] => t = start ∧ status = .ok
  | [(i, value)] => WaitReturns timeline i value timeout start t status
  | list =>
    if timeout = .immediate then t = start ∧ status = resultFromState mode (timeline start) list
    else
      -- the timeout is not passed on
      Await (fun u => wakeCondition mode (timeline u) list = true) .infinite start t ∧
        status = resultFromState mode (timeline t) list

/-- **What is asked of a wait**: it returns by its deadline, or, if it has none, once its result is
    decided; and it returns what the semaphores have come to at that moment. -/
structure HonoursTimeout (timeline : Timeline ι ε) (mode : WaitMode) (list : SemaphoreList ι)
    (timeout : Timeout) (start : Nat) (Returns : Nat → Status → Prop) : Prop where
  returns : ∀ d, timeout.deadline start = some d → ∃ t status, Returns t status
  decided : timeout.deadline start = none →
    (∃ u, start ≤ u ∧ Decided mode (timeline u) list) → ∃ t status, Returns t status
  inTime : ∀ t status, Returns t status →
    start ≤ t ∧ ∀ d, timeout.deadline start = some d → t ≤ max start d
  aborted : ∀ t status, Returns t status →
    (status = .aborted ↔ SomeFailed (timeline t) list)
  ok : ∀ t status, Returns t status →
    (status = .ok ↔ ¬ SomeFailed (timeline t) list ∧ ListReached mode (timeline t) list)
  expired : ∀ t status, Returns t status → status = .deadlineExceeded →
    timeout.Expired start t ∧ ¬ Decided mode (timeline t) list

/-- The wake condition holds by the deadline; without one, it holds some time if the result is
    ever decided. -/
def WokenInTime (timeline : Timeline ι ε) (mode : WaitMode) (list : SemaphoreList ι)
    (timeout : Timeout) (start : Nat) : Prop :=
  match timeout.deadline start with
  | some d => ∃ u, start ≤ u ∧ u ≤ max start d ∧ wakeCondition mode (timeline u) list = true
  | none => (∃ u, start ≤ u ∧ Decided mode (timeline u) list) →
    ∃ u, start ≤ u ∧ wakeCondition mode (timeline u) list = true

/-- A wait whose status is the result at the moment it returns, and which returns the result
    DEADLINE_EXCEEDED only once its deadline has passed, returns what is asked. -/
theorem honoursTimeout_of_result {timeline : Timeline ι ε} {mode : WaitMode}
    {list : SemaphoreList ι} {timeout : Timeout} {start : Nat} {Returns : Nat → Status → Prop}
    (hreturns : ∀ d, timeout.deadline start = some d → ∃ t status, Returns t status)
    (hdecided : timeout.deadline start = none →
      (∃ u, start ≤ u ∧ Decided mode (timeline u) list) → ∃ t status, Returns t status)
    (hinTime : ∀ t status, Returns t status →
      start ≤ t ∧ ∀ d, timeout.deadline start = some d → t ≤ max start d)
    (hresult : ∀ t status, Returns t status → status = resultFromState mode (timeline t) list)
    (hexpired : ∀ t status, Returns t status →
      Decided mode (timeline t) list ∨ timeout.Expired start t) :
    HonoursTimeout timeline mode list timeout start Returns := by
  refine ⟨hreturns, hdecided, hinTime, fun t status h => ?_, fun t status h => ?_,
    fun t status h hstatus => ?_⟩
  · rw [hresult t status h]
    exact resultFromState_aborted_iff mode (timeline t) list
  · rw [hresult t status h]
    exact resultFromState_ok_iff mode (timeline t) list
  · have hnot : ¬ Decided mode (timeline t) list := by
      rw [Decided, ← hresult t status h]
      exact not_not.mpr hstatus
    exact ⟨(hexpired t status h).resolve_left hnot, hnot⟩

/-! ### The single wait -/

section Single

variable {timeline : Timeline ι ε} {mode : WaitMode} {i : ι} {value : UInt64}

/-- The result for a list of one semaphore. -/
theorem resultFromState_singleton (sems : Semaphores ι ε) :
    resultFromState mode sems [(i, value)] = if Failed (sems i) then .aborted
      else if (sems i).currentValue < value then .deadlineExceeded else .ok := by
  by_cases hf : Failed (sems i)
  · rw [if_pos hf, resultFromState_aborted_iff]
    exact ⟨(i, value), by simp, hf⟩
  · rw [if_neg hf]
    have hnone : ¬ SomeFailed sems [(i, value)] := by simpa [SomeFailed] using hf
    have hreached : ListReached mode sems [(i, value)] ↔ value ≤ (sems i).currentValue := by
      cases mode <;> simp [ListReached, Reached, hf]
    split
    next hlt =>
      rcases resultFromState_cases mode sems [(i, value)] with hr | hr | hr
      · exact absurd ((resultFromState_aborted_iff _ _ _).mp hr) hnone
      · have := hreached.mp ((resultFromState_ok_iff _ _ _).mp hr).2
        exact absurd hlt (UInt64.not_lt.mpr this)
      · exact hr
    next hge =>
      rw [resultFromState_ok_iff]
      exact ⟨hnone, hreached.mpr (UInt64.not_lt.mp hge)⟩

/-- A single semaphore is decided when it is signaled. -/
theorem decided_singleton (sems : Semaphores ι ε) :
    Decided mode sems [(i, value)] ↔ isSignaled (sems i) value = true := by
  rw [decided_iff, isSignaled_iff]
  by_cases hf : Failed (sems i)
  · simp [SomeFailed, hf]
  · cases mode <;> simp [SomeFailed, ListReached, Reached, hf]

/-- The single wait returns when its notification would, with the result at that moment: its
    fast paths only save the wait. -/
theorem waitReturns_iff (mode : WaitMode) {timeout : Timeout} {start t : Nat} {status : Status} :
    WaitReturns timeline i value timeout start t status ↔
      Await (fun u => isSignaled (timeline u i) value = true) timeout start t ∧
        status = resultFromState mode (timeline t) [(i, value)] := by
  -- a notification whose condition holds at the start returns there
  have hstart : (isSignaled (timeline start i) value = true ∨ timeout.Expired start start) →
      ∀ u, Await (fun u => isSignaled (timeline u i) value = true) timeout start u ↔ u = start := by
    intro h u
    have hleast : Await (fun u => isSignaled (timeline u i) value = true) timeout start start :=
      ⟨⟨Nat.le_refl _, h⟩, fun v hv => hv.1⟩
    exact ⟨fun hu => hu.unique hleast, fun hu => hu ▸ hleast⟩
  rw [resultFromState_singleton, WaitReturns]
  split
  next hf =>
    rw [hstart (.inl ((isSignaled_iff _ _).mpr (.inr hf)))]
    apply and_congr_right
    rintro rfl
    rw [if_pos hf]
  next hf =>
    split
    next hreached =>
      rw [hstart (.inl ((isSignaled_iff _ _).mpr (.inl hreached)))]
      apply and_congr_right
      rintro rfl
      rw [if_neg hf, if_neg (UInt64.not_lt.mpr hreached)]
    next hreached =>
      split
      next himmediate =>
        rw [hstart (.inr ⟨start, by rw [himmediate]; rfl, Nat.le_refl _⟩)]
        apply and_congr_right
        rintro rfl
        rw [if_neg hf, if_pos (UInt64.not_le.mp hreached)]
      next => exact Iff.rfl

/-- **The single wait does what is asked**, for every timeout. -/
theorem waitReturns_honoursTimeout (timeout : Timeout) (start : Nat) :
    HonoursTimeout timeline mode [(i, value)] timeout start
      (WaitReturns timeline i value timeout start) := by
  apply honoursTimeout_of_result
  case hreturns =>
    intro d hd
    obtain ⟨t, hawait, -⟩ := exists_await (fun u => isSignaled (timeline u i) value = true)
      timeout (Nat.le_max_left start d) (.inr ⟨d, hd, Nat.le_max_right start d⟩)
    exact ⟨t, _, (waitReturns_iff mode).mpr ⟨hawait, rfl⟩⟩
  case hdecided =>
    rintro - ⟨u, hu, hdecided⟩
    obtain ⟨t, hawait, -⟩ := exists_await (fun u => isSignaled (timeline u i) value = true)
      timeout hu (.inl ((decided_singleton _).mp hdecided))
    exact ⟨t, _, (waitReturns_iff mode).mpr ⟨hawait, rfl⟩⟩
  case hinTime =>
    intro t status h
    obtain ⟨hawait, -⟩ := (waitReturns_iff mode).mp h
    refine ⟨hawait.1.1, fun d hd => hawait.2 ?_⟩
    exact ⟨Nat.le_max_left start d, .inr ⟨d, hd, Nat.le_max_right start d⟩⟩
  case hresult =>
    intro t status h
    exact ((waitReturns_iff mode).mp h).2
  case hexpired =>
    intro t status h
    obtain ⟨hawait, -⟩ := (waitReturns_iff mode).mp h
    exact hawait.1.2.imp_left (decided_singleton _).mpr

end Single

/-! ### The multi-wait -/

section Multi

variable {timeline : Timeline ι ε} {mode : WaitMode} {list : SemaphoreList ι}

/-- The poll does what is asked. -/
theorem poll_honoursTimeout (start : Nat) :
    HonoursTimeout timeline mode list .immediate start
      fun t status => t = start ∧ status = resultFromState mode (timeline start) list := by
  apply honoursTimeout_of_result
  case hreturns => exact fun _ _ => ⟨start, _, rfl, rfl⟩
  case hdecided => exact fun _ _ => ⟨start, _, rfl, rfl⟩
  case hinTime =>
    rintro t status ⟨rfl, -⟩
    exact ⟨Nat.le_refl _, fun d _ => Nat.le_max_left _ _⟩
  case hresult =>
    rintro t status ⟨rfl, h⟩
    exact h
  case hexpired =>
    rintro t status ⟨rfl, -⟩
    exact .inr ⟨t, rfl, Nat.le_refl t⟩

/-- Without a timeout the notification returns at the first moment at which its condition
    holds. -/
theorem await_infinite {condition : Nat → Prop} {start t : Nat} :
    Await condition .infinite start t ↔ IsLeast {u | start ≤ u ∧ condition u} t := by
  have hnever : ∀ u, ¬ Timeout.infinite.Expired start u := by
    rintro u ⟨d, hd, -⟩
    cases hd
  simp only [Await, hnever, or_false]

/-- The wait on the shared notification, without a timeout, does what is asked exactly when it
    is woken in time. -/
theorem notified_honoursTimeout_iff (timeout : Timeout) (start : Nat) :
    HonoursTimeout timeline mode list timeout start (fun t status =>
        Await (fun u => wakeCondition mode (timeline u) list = true) .infinite start t ∧
          status = resultFromState mode (timeline t) list) ↔
      WokenInTime timeline mode list timeout start := by
  simp only [await_infinite]
  constructor
  · intro h
    unfold WokenInTime
    split
    next d hd =>
      obtain ⟨t, status, hreturns⟩ := h.returns d hd
      have hle := (h.inTime t status hreturns).2 d hd
      exact ⟨t, hreturns.1.1.1, hle, hreturns.1.1.2⟩
    next hd =>
      intro hdecided
      obtain ⟨t, status, hreturns⟩ := h.decided hd hdecided
      exact ⟨t, hreturns.1.1⟩
  · intro h
    have hwoken : ∀ u, start ≤ u → wakeCondition mode (timeline u) list = true →
        ∃ t status, IsLeast {u | start ≤ u ∧ wakeCondition mode (timeline u) list = true} t ∧
          status = resultFromState mode (timeline t) list := by
      intro u hu hw
      obtain ⟨t, ht, -⟩ := exists_await
        (fun u => wakeCondition mode (timeline u) list = true) .infinite hu (.inl hw)
      exact ⟨t, _, await_infinite.mp ht, rfl⟩
    unfold WokenInTime at h
    apply honoursTimeout_of_result
    case hreturns =>
      intro d hd
      rw [hd] at h
      obtain ⟨u, hu, -, hw⟩ := h
      exact hwoken u hu hw
    case hdecided =>
      intro hd hdecided
      rw [hd] at h
      obtain ⟨u, hu, hw⟩ := h hdecided
      exact hwoken u hu hw
    case hinTime =>
      rintro t status ⟨hleast, -⟩
      refine ⟨hleast.1.1, fun d hd => ?_⟩
      rw [hd] at h
      obtain ⟨u, hu, hle, hw⟩ := h
      exact Nat.le_trans (hleast.2 ⟨hu, hw⟩) hle
    case hresult => exact fun t status hr => hr.2
    case hexpired => exact fun t status hr => .inl (decided_of_wakeCondition hr.1.1.2)

/-- **A multi-wait honours its timeout** and agrees with the single wait exactly when it is a wait
    for one semaphore or a poll, or its wake condition comes to hold in time: by the deadline,
    or, without one, some time if the result is ever decided. -/
theorem multiWait_honoursTimeout_iff (hlist : list ≠ []) (timeout : Timeout) (start : Nat) :
    HonoursTimeout timeline mode list timeout start
        (MultiWaitReturns timeline mode list timeout start) ↔
      list.length = 1 ∨ timeout = .immediate ∨ WokenInTime timeline mode list timeout start := by
  rcases list with _ | ⟨⟨i, value⟩, _ | ⟨e, list⟩⟩
  · exact absurd rfl hlist
  · exact ⟨fun _ => .inl rfl, fun _ => waitReturns_honoursTimeout timeout start⟩
  · have hlength : ¬ ((i, value) :: e :: list).length = 1 := by simp
    by_cases himmediate : timeout = .immediate
    · subst himmediate
      refine ⟨fun _ => .inr (.inl rfl), fun _ => ?_⟩
      have hpoll : MultiWaitReturns timeline mode ((i, value) :: e :: list) .immediate start
          = fun t status => t = start ∧
            status = resultFromState mode (timeline start) ((i, value) :: e :: list) := by
        funext t status
        simp only [MultiWaitReturns, if_true]
      rw [hpoll]
      exact poll_honoursTimeout start
    · rw [← notified_honoursTimeout_iff]
      simp only [hlength, himmediate, false_or]
      have hgeneral : MultiWaitReturns timeline mode ((i, value) :: e :: list) timeout start
          = fun t status => Await (fun u => wakeCondition mode (timeline u)
              ((i, value) :: e :: list) = true) .infinite start t ∧
            status = resultFromState mode (timeline t) ((i, value) :: e :: list) := by
        funext t status
        simp only [MultiWaitReturns, if_neg himmediate]
      rw [hgeneral]

end Multi

/-- Two semaphores that are never signaled. -/
def quiet : Timeline Bool Unit := fun _ _ => ⟨0, none⟩

/-- Polling the two returns at once. -/
theorem multiWait_honoursTimeout_iff_poll :
    HonoursTimeout quiet .all [(false, 1), (true, 1)] .immediate 0
      (MultiWaitReturns quiet .all [(false, 1), (true, 1)] .immediate 0) :=
  (multiWait_honoursTimeout_iff (by simp) .immediate 0).mpr (.inr (.inl rfl))

/-- Waiting for the two with a deadline never returns. -/
theorem quiet_never_returns :
    ¬ HonoursTimeout quiet .all [(false, 1), (true, 1)] (.finite 5) 0
      (MultiWaitReturns quiet .all [(false, 1), (true, 1)] (.finite 5) 0) := by
  intro h
  obtain ⟨t, status, hreturns⟩ := h.returns 5 rfl
  simp only [MultiWaitReturns] at hreturns
  obtain ⟨⟨-, hwake | ⟨d, hd, -⟩⟩, -⟩ := hreturns.1
  · revert hwake
    show wakeCondition .all (fun _ => (⟨0, none⟩ : Semaphore Unit)) [(false, 1), (true, 1)] = true
      → False
    decide
  · cases hd

end CoralNPU.Driver
