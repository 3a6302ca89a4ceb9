import CoralNPU.Driver.Queue

namespace CoralNPU.Driver

open Lib

/-!
# Submissions from several host threads

Host threads that call `queue_execute` one submission after the other, while the application
signals and fails semaphores on its own.

* `Submission`, `Phase`, `HostThread` — what a thread submits, and where it is in a call.
* `DeviceState`, `execute`, `submitStep` — the shared state, and the next step of a thread.  An
  interleaving is a list of actions.
* `Event`, `Event.Justified` — the history of the device, and what is asked of it.
* `HostThread.Undecided` — a wait that has still to read a semaphore.
* `runsInOrder_of_run` — in every interleaving a replay begins behind everything that it waits for.
* `execute_alone` — a thread that is not disturbed does what `queueExecute` does.

`iree_notification_await` returns behind a pass of its condition over the whole list that finds every
semaphore signaled.  How it sleeps up to then does not matter here.
-/

variable {τ ι ε : Type} {failureValue : UInt64}

/-! ### Threads -/

/-- A call of `queue_execute`: its lists, and what the replay of its command buffer returns
    (`none` is OK). -/
structure Submission (ι ε : Type) where
  waits : SemaphoreList ι
  replay : Option ε
  signals : SemaphoreList ι

/-- What a host thread submits, in order. -/
abbrev HostProgram (ι ε : Type) := List (Submission ι ε)

/-- Where a thread is in its call. -/
inductive Phase (ι : Type)
  /-- Before `iree_hal_coralnpu_semaphore_multi_wait`. -/
  | called
  /-- In `iree_notification_await`, with what its condition has not read yet. -/
  | awaiting (rest : SemaphoreList ι)
  /-- The loop of `iree_hal_coralnpu_semaphore_result_from_state`. -/
  | reading (flags : ListFlags) (rest : SemaphoreList ι)
  /-- The wait has returned OK. -/
  | granted
  /-- The command buffer is being replayed. -/
  | replaying
  /-- The loop of `iree_hal_coralnpu_semaphore_multi_signal`. -/
  | signaling (rest : SemaphoreList ι)

/-- A thread: the submission it is at. -/
structure HostThread (ι : Type) where
  next : Nat
  phase : Phase ι

/-- What is remembered: a replay of the `k`-th submission of thread `t`, or a signal that was
    accepted, from such a submission or from the application. -/
inductive Event (τ ι : Type)
  | began (t : τ) (k : Nat)
  | ended (t : τ) (k : Nat)
  | signaled (sender : Option (τ × Nat)) (semaphore : ι) (payload : UInt64)

/-- The semaphores, the threads, and the history with the newest event first. -/
structure DeviceState (τ ι ε : Type) where
  sems : Semaphores ι ε
  threads : τ → HostThread ι
  history : List (Event τ ι)

/-- No thread has called anything. -/
def DeviceState.initial (sems : Semaphores ι ε) : DeviceState τ ι ε :=
  ⟨sems, fun _ => ⟨0, .called⟩, []⟩

/-- What can happen next: a thread goes on, or the application signals or fails a semaphore. -/
inductive SubmitAction (τ ι ε : Type)
  | execute (thread : τ)
  | signal (semaphore : ι) (newValue : UInt64)
  | fail (semaphore : ι) (status : ε)

section Step

variable [DecidableEq τ] [DecidableEq ι]

/-- The state with thread `t` somewhere else. -/
def DeviceState.goto (s : DeviceState τ ι ε) (t : τ) (thread : HostThread ι) : DeviceState τ ι ε :=
  { s with threads := Function.update s.threads t thread }

omit [DecidableEq ι] in
theorem DeviceState.goto_self (s : DeviceState τ ι ε) (t : τ) (thread : HostThread ι) :
    (s.goto t thread).threads t = thread := Function.update_self _ _ _

omit [DecidableEq ι] in
theorem DeviceState.goto_of_ne (s : DeviceState τ ι ε) {t t' : τ} (h : t' ≠ t)
    (thread : HostThread ι) : (s.goto t thread).threads t' = s.threads t' :=
  Function.update_of_ne h _ _

/-- Thread `t` goes on in its call. -/
def DeviceState.enter (s : DeviceState τ ι ε) (t : τ) (phase : Phase ι) : DeviceState τ ι ε :=
  s.goto t ⟨(s.threads t).next, phase⟩

omit [DecidableEq ι] in
theorem DeviceState.enter_self (s : DeviceState τ ι ε) (t : τ) (phase : Phase ι) :
    (s.enter t phase).threads t = ⟨(s.threads t).next, phase⟩ := s.goto_self t _

/-- The call of thread `t` returns. -/
def DeviceState.leave (s : DeviceState τ ι ε) (t : τ) : DeviceState τ ι ε :=
  s.goto t ⟨(s.threads t).next + 1, .called⟩

/-- The next step of `iree_hal_coralnpu_device_queue_execute` in thread `t`, which is in at most one
    critical section; `none` when the thread waits, or has no submission left. -/
def execute (program : τ → HostProgram ι ε) (s : DeviceState τ ι ε) (t : τ) :
    Option (DeviceState τ ι ε) :=
  let k := (s.threads t).next
  match (program t)[k]? with
  | none => none
  | some submission =>
    match (s.threads t).phase with
    | .called =>
      match submission.waits with
      | [] => some (s.enter t .granted)
      -- `iree_hal_coralnpu_semaphore_wait` looks first
      | [(i, payload)] =>
        if (s.sems i).failureStatus.isSome then some (s.leave t)
        else if (s.sems i).currentValue ≥ payload then some (s.enter t .granted)
        else some (s.enter t (.awaiting submission.waits))
      | waits => some (s.enter t (.awaiting waits))
    | .awaiting [] => some (s.enter t (.reading ⟨false, true, false⟩ submission.waits))
    -- a pass that fails is begun again; what it has read stays signaled
    | .awaiting ((i, payload) :: rest) =>
      if isSignaled (s.sems i) payload then some (s.enter t (.awaiting rest)) else none
    | .reading flags (e :: rest) => some (s.enter t (.reading (listFlags s.sems flags [e]) rest))
    | .reading flags [] =>
      match flags.result .all with
      | .ok => some (s.enter t .granted)
      | _ => some (s.leave t)
    | .granted => some { s.enter t .replaying with history := .began t k :: s.history }
    | .replaying =>
      match submission.replay with
      | none => some { s.enter t (.signaling submission.signals) with
          history := .ended t k :: s.history }
      | some _ => some (s.leave t)
    | .signaling [] => some (s.leave t)
    | .signaling ((i, payload) :: rest) =>
      match signal s.sems i payload with
      | (sems, .ok) => some { s.enter t (.signaling rest) with
          sems, history := .signaled (some (t, k)) i payload :: s.history }
      -- the first signal that is rejected ends the loop
      | _ => some (s.leave t)

/-- One step of the system. -/
def submitStep (failureValue : UInt64) (program : τ → HostProgram ι ε) (s : DeviceState τ ι ε) :
    SubmitAction τ ι ε → Option (DeviceState τ ι ε)
  | .execute t => execute program s t
  | .signal i newValue =>
    match signal s.sems i newValue with
    | (sems, .ok) => some { s with sems, history := .signaled none i newValue :: s.history }
    | _ => some s
  | .fail i status => some { s with sems := fail failureValue s.sems i (some status) }

/-! ### What a step can do -/

/-- The steps of a thread that is at a submission. -/
inductive Executes (program : τ → HostProgram ι ε) (s : DeviceState τ ι ε) (t : τ)
    (submission : Submission ι ε) : DeviceState τ ι ε → Prop
  /-- The wait returns OK at once. -/
  | pass (phase : (s.threads t).phase = .called)
      (reached : ∀ e ∈ submission.waits, Reached (s.sems e.1) e.2) :
      Executes program s t submission (s.enter t .granted)
  | await (phase : (s.threads t).phase = .called) :
      Executes program s t submission (s.enter t (.awaiting submission.waits))
  | test {e : ι × UInt64} {rest : SemaphoreList ι} (phase : (s.threads t).phase = .awaiting (e :: rest))
      (signaled : isSignaled (s.sems e.1) e.2 = true) :
      Executes program s t submission (s.enter t (.awaiting rest))
  | wake (phase : (s.threads t).phase = .awaiting []) :
      Executes program s t submission (s.enter t (.reading ⟨false, true, false⟩ submission.waits))
  | read {flags : ListFlags} {e : ι × UInt64} {rest : SemaphoreList ι}
      (phase : (s.threads t).phase = .reading flags (e :: rest)) :
      Executes program s t submission (s.enter t (.reading (listFlags s.sems flags [e]) rest))
  | grant {flags : ListFlags} (phase : (s.threads t).phase = .reading flags [])
      (ok : flags.result .all = .ok) : Executes program s t submission (s.enter t .granted)
  | begin (phase : (s.threads t).phase = .granted) :
      Executes program s t submission { s.enter t .replaying with
        history := .began t (s.threads t).next :: s.history }
  | finish (phase : (s.threads t).phase = .replaying) (replay : submission.replay = none) :
      Executes program s t submission { s.enter t (.signaling submission.signals) with
        history := .ended t (s.threads t).next :: s.history }
  | signal {i : ι} {payload : UInt64} {rest : SemaphoreList ι}
      (phase : (s.threads t).phase = .signaling ((i, payload) :: rest))
      (due : (s.sems i).currentValue < payload) :
      Executes program s t submission
        { s.enter t (.signaling rest) with
          sems := Function.update s.sems i { s.sems i with currentValue := payload }
          history := .signaled (some (t, (s.threads t).next)) i payload :: s.history }
  | done (phase : (s.threads t).phase = .signaling []) :
      Executes program s t submission (s.leave t)
  /-- The call returns an error. -/
  | giveUp (reason : (s.threads t).phase = .called ∧ SomeFailed s.sems submission.waits ∨
      (∃ flags, (s.threads t).phase = .reading flags [] ∧ flags.result .all ≠ .ok) ∨
      (s.threads t).phase = .replaying ∧ submission.replay ≠ none ∨
      ∃ e rest, (s.threads t).phase = .signaling (e :: rest) ∧ ¬ (s.sems e.1).currentValue < e.2) :
      Executes program s t submission (s.leave t)

/-- **Inversion.** What a signal of the application does: nothing, or it raises the semaphore. -/
theorem signal_eq_some {program : τ → HostProgram ι ε} {s s' : DeviceState τ ι ε} {i : ι}
    {newValue : UInt64}
    (h : submitStep failureValue program s (.signal i newValue) = some s') :
    s' = s ∨ s' = { s with
      sems := Function.update s.sems i { s.sems i with currentValue := newValue }
      history := .signaled none i newValue :: s.history } := by
  rw [submitStep, Driver.signal] at h
  by_cases hdue : (s.sems i).currentValue < newValue
  · rw [Semaphore.signalUnsafe_of_lt hdue] at h
    exact .inr (Option.some.inj h).symm
  · rw [Semaphore.signalUnsafe, if_pos (UInt64.not_lt.mp hdue)] at h
    exact .inl (Option.some.inj h).symm

/-- A call begins: `iree_hal_coralnpu_semaphore_wait` for one semaphore, else the list. -/
theorem Executes.of_called {program : τ → HostProgram ι ε} {s s' : DeviceState τ ι ε} {t : τ}
    {submission : Submission ι ε} (hsub : (program t)[(s.threads t).next]? = some submission)
    (hphase : (s.threads t).phase = .called) (h : execute program s t = some s') :
    Executes program s t submission s' := by
  simp only [execute, hsub, hphase] at h
  split at h
  next hwaits =>
    obtain rfl := Option.some.inj h
    exact .pass hphase (by simp [hwaits])
  next i payload hwaits =>
    split at h
    next hfailed =>
      obtain rfl := Option.some.inj h
      exact .giveUp (.inl ⟨hphase, (i, payload), by simp [hwaits], hfailed⟩)
    next hnot =>
    split at h
    next hreached =>
      obtain rfl := Option.some.inj h
      exact .pass hphase (by simpa [hwaits] using ⟨hnot, hreached⟩)
    next =>
      obtain rfl := Option.some.inj h
      exact .await hphase
  next =>
    obtain rfl := Option.some.inj h
    exact .await hphase

/-- The next semaphore is signaled, or rejects the signal. -/
theorem Executes.of_signaling {program : τ → HostProgram ι ε} {s s' : DeviceState τ ι ε} {t : τ}
    {submission : Submission ι ε} {i : ι} {payload : UInt64} {rest : SemaphoreList ι}
    (hsub : (program t)[(s.threads t).next]? = some submission)
    (hphase : (s.threads t).phase = .signaling ((i, payload) :: rest))
    (h : execute program s t = some s') : Executes program s t submission s' := by
  simp only [execute, hsub, hphase, Driver.signal] at h
  by_cases hdue : (s.sems i).currentValue < payload
  · rw [Semaphore.signalUnsafe_of_lt hdue] at h
    obtain rfl := Option.some.inj h
    exact .signal hphase hdue
  · have hreject : (s.sems i).signalUnsafe payload
        = (s.sems i, .outOfRange (s.sems i).currentValue payload) :=
      if_pos (UInt64.not_lt.mp hdue)
    rw [hreject] at h
    obtain rfl := Option.some.inj h
    exact .giveUp (.inr (.inr (.inr ⟨_, _, hphase, hdue⟩)))

/-- **Inversion.** What a step of a thread does. -/
theorem execute_eq_some {program : τ → HostProgram ι ε} {s s' : DeviceState τ ι ε} {t : τ}
    (h : execute program s t = some s') :
    ∃ submission, (program t)[(s.threads t).next]? = some submission ∧
      Executes program s t submission s' := by
  have hexecute := h
  unfold execute at h
  cases hsub : (program t)[(s.threads t).next]? with
  | none => simp [hsub] at h
  | some submission =>
    refine ⟨submission, rfl, ?_⟩
    simp only [hsub] at h
    cases hphase : (s.threads t).phase with
    | called => exact .of_called hsub hphase hexecute
    | awaiting rest =>
      cases rest with
      | nil =>
        simp only [hphase] at h
        obtain rfl := Option.some.inj h
        exact .wake hphase
      | cons e rest =>
        simp only [hphase] at h
        split at h
        next hsignaled =>
          obtain rfl := Option.some.inj h
          exact .test hphase hsignaled
        next => cases h
    | reading flags rest =>
      cases rest with
      | nil =>
        simp only [hphase] at h
        split at h
        next hok =>
          obtain rfl := Option.some.inj h
          exact .grant hphase hok
        next hnot =>
          obtain rfl := Option.some.inj h
          exact .giveUp (.inr (.inl ⟨flags, hphase, hnot⟩))
      | cons e rest =>
        simp only [hphase] at h
        obtain rfl := Option.some.inj h
        exact .read hphase
    | granted =>
      simp only [hphase] at h
      obtain rfl := Option.some.inj h
      exact .begin hphase
    | replaying =>
      simp only [hphase] at h
      split at h
      next hreplay =>
        obtain rfl := Option.some.inj h
        exact .finish hphase hreplay
      next hreplay =>
        obtain rfl := Option.some.inj h
        exact .giveUp (.inr (.inr (.inl ⟨hphase, by simp [hreplay]⟩)))
    | signaling list =>
      cases list with
      | nil =>
        simp only [hphase] at h
        obtain rfl := Option.some.inj h
        exact .done hphase
      | cons e rest => exact .of_signaling hsub hphase hexecute

end Step

/-! ### Histories -/

section Throughout

variable {α : Type*} {P : List α → α → Prop}

/-- Every event of a history has `P` of the events before it; the newest event is the first. -/
def Throughout (P : List α → α → Prop) : List α → Prop
  | [] => True
  | event :: past => P past event ∧ Throughout P past

theorem throughout_iff {history : List α} : Throughout P history ↔
    ∀ later event past, history = later ++ event :: past → P past event := by
  induction history with
  | nil => exact iff_of_true trivial fun later event past h => by cases later <;> cases h
  | cons first rest ih =>
    rw [Throughout, ih]
    constructor
    · rintro ⟨hfirst, hrest⟩ later event past h
      cases later with
      | nil =>
        obtain ⟨rfl, rfl⟩ := List.cons.inj h
        exact hfirst
      | cons _ later => exact hrest later event past (List.cons.inj h).2
    · intro h
      exact ⟨h [] first rest rfl, fun later event past hsplit =>
        h (first :: later) event past (congrArg (first :: ·) hsplit)⟩

end Throughout

/-! ### The history -/

section History

variable {program : τ → HostProgram ι ε} {sems₀ : Semaphores ι ε} {past : List (Event τ ι)}

/-- The payload was there from the beginning, or a signal that reaches it has been accepted. -/
def Supplied (sems₀ : Semaphores ι ε) (past : List (Event τ ι)) (e : ι × UInt64) : Prop :=
  e.2 ≤ (sems₀ e.1).currentValue ∨
    ∃ sender payload, Event.signaled sender e.1 payload ∈ past ∧ e.2 ≤ payload

/-- What must have happened before an event. -/
def Event.Justified (program : τ → HostProgram ι ε) (sems₀ : Semaphores ι ε)
    (past : List (Event τ ι)) : Event τ ι → Prop
  -- a replay begins once, in the order of its thread, when all that it waits for is there
  | .began t k => (∀ j, Event.began t j ∈ past → j < k) ∧
      ∃ submission, (program t)[k]? = some submission ∧ ∀ e ∈ submission.waits, Supplied sems₀ past e
  | .ended t k => Event.began t k ∈ past ∧ Event.ended t k ∉ past ∧
      ∃ submission, (program t)[k]? = some submission ∧ submission.replay = none
  -- a submission signals what it is asked to, behind its replay
  | .signaled (some (t, k)) i payload => Event.ended t k ∈ past ∧
      ∃ submission, (program t)[k]? = some submission ∧ (i, payload) ∈ submission.signals
  | .signaled none _ _ => True

theorem Supplied.cons {e : ι × UInt64} (h : Supplied sems₀ past e) (event : Event τ ι) :
    Supplied sems₀ (event :: past) e :=
  h.imp_right fun ⟨sender, payload, hmem, hle⟩ => ⟨sender, payload, List.mem_cons_of_mem _ hmem, hle⟩

/-- The thread that an event is about. -/
def Event.thread : Event τ ι → Option τ
  | .began t _ => some t
  | .ended t _ => some t
  | .signaled _ _ _ => none

/-- The replay of the submission has begun. -/
def Phase.Begun : Phase ι → Prop
  | .replaying | .signaling _ => True
  | _ => False

/-- The replay of the submission has ended. -/
def Phase.Ended : Phase ι → Prop
  | .signaling _ => True
  | _ => False

/-- What a thread knows about the history from the submission `k` that it is at: what it has read is
    supplied, its replay, and what it still signals. -/
def PhaseOk (program : τ → HostProgram ι ε) (sems₀ : Semaphores ι ε) (past : List (Event τ ι)) (t : τ)
    (k : Nat) : Phase ι → Prop
  | .called | .awaiting _ => True
  | .reading flags rest => ∃ submission seen, (program t)[k]? = some submission ∧
      submission.waits = seen ++ rest ∧ (flags.result .all = .ok → ∀ e ∈ seen, Supplied sems₀ past e)
  | .granted => ∃ submission, (program t)[k]? = some submission ∧
      ∀ e ∈ submission.waits, Supplied sems₀ past e
  | .replaying => Event.began t k ∈ past
  | .signaling rest => Event.ended t k ∈ past ∧
      ∃ submission, (program t)[k]? = some submission ∧ rest ⊆ submission.signals

/-- What a thread knows about the history: its own replays, up to where it is. -/
structure ThreadOk (program : τ → HostProgram ι ε) (sems₀ : Semaphores ι ε) (past : List (Event τ ι))
    (t : τ) (thread : HostThread ι) : Prop where
  began : ∀ k, Event.began t k ∈ past → k < thread.next ∨ k = thread.next ∧ thread.phase.Begun
  ended : ∀ k, Event.ended t k ∈ past → k < thread.next ∨ k = thread.next ∧ thread.phase.Ended
  phase : PhaseOk program sems₀ past t thread.next thread.phase

/-- More history. -/
theorem PhaseOk.cons {t : τ} {k : Nat} {phase : Phase ι} (h : PhaseOk program sems₀ past t k phase)
    (event : Event τ ι) : PhaseOk program sems₀ (event :: past) t k phase := by
  cases phase with
  | called | awaiting => trivial
  | reading flags rest =>
    obtain ⟨submission, seen, hsub, hsplit, hseen⟩ := h
    exact ⟨submission, seen, hsub, hsplit, fun hok e he => (hseen hok e he).cons event⟩
  | granted =>
    obtain ⟨submission, hsub, hwaits⟩ := h
    exact ⟨submission, hsub, fun e he => (hwaits e he).cons event⟩
  | replaying => exact List.mem_cons_of_mem _ h
  | signaling rest => exact ⟨List.mem_cons_of_mem _ h.1, h.2⟩

/-- An event of another thread, or a signal. -/
theorem ThreadOk.cons {t : τ} {thread : HostThread ι} (h : ThreadOk program sems₀ past t thread)
    {event : Event τ ι} (hevent : event.thread ≠ some t) :
    ThreadOk program sems₀ (event :: past) t thread where
  began k hk := by
    refine h.began k ((List.mem_cons.mp hk).resolve_left ?_)
    rintro rfl
    exact hevent rfl
  ended k hk := by
    refine h.ended k ((List.mem_cons.mp hk).resolve_left ?_)
    rintro rfl
    exact hevent rfl
  phase := h.phase.cons event

/-- A step within the call. -/
theorem ThreadOk.enter {t : τ} {thread : HostThread ι} (h : ThreadOk program sems₀ past t thread)
    {phase : Phase ι} (hbegun : thread.phase.Begun → phase.Begun)
    (hended : thread.phase.Ended → phase.Ended)
    (hphase : PhaseOk program sems₀ past t thread.next phase) :
    ThreadOk program sems₀ past t ⟨thread.next, phase⟩ where
  began k hk := (h.began k hk).imp_right (And.imp_right hbegun)
  ended k hk := (h.ended k hk).imp_right (And.imp_right hended)
  phase := hphase

/-- A call begins, or the one that was made has returned. -/
theorem ThreadOk.leave {t : τ} {thread : HostThread ι} (h : ThreadOk program sems₀ past t thread) :
    ThreadOk program sems₀ past t ⟨thread.next + 1, .called⟩ where
  began k hk := by
    apply Or.inl
    rcases h.began k hk with hlt | ⟨rfl, -⟩
    · exact Nat.lt_succ_of_lt hlt
    · exact Nat.lt_succ_self _
  ended k hk := by
    apply Or.inl
    rcases h.ended k hk with hlt | ⟨rfl, -⟩
    · exact Nat.lt_succ_of_lt hlt
    · exact Nat.lt_succ_self _
  phase := trivial

/-- The invariant of the system. -/
structure SubmitInv (program : τ → HostProgram ι ε) (sems₀ : Semaphores ι ε)
    (s : DeviceState τ ι ε) : Prop where
  justified : Throughout (Event.Justified program sems₀) s.history
  supplied : ∀ e, Reached (s.sems e.1) e.2 → Supplied sems₀ s.history e
  threads : ∀ t, ThreadOk program sems₀ s.history t (s.threads t)

theorem submitInv_initial (program : τ → HostProgram ι ε) (sems₀ : Semaphores ι ε) :
    SubmitInv program sems₀ (DeviceState.initial sems₀) where
  justified := trivial
  supplied e he := .inl he.2
  threads t := by
    refine ⟨fun k hk => ?_, fun k hk => ?_, trivial⟩
    · cases hk
    · cases hk

theorem result_all_ok_iff (flags : ListFlags) :
    flags.result .all = .ok ↔ ¬ flags.anyFailed = true ∧ flags.allSignaled = true := by
  obtain ⟨any, all, failed⟩ := flags
  cases failed <;> cases all <;> simp [ListFlags.result]

/-- A read keeps the result OK exactly if the semaphore has reached its payload. -/
theorem result_read_ok_iff (sems : Semaphores ι ε) (flags : ListFlags) (e : ι × UInt64) :
    (listFlags sems flags [e]).result .all = .ok ↔
      flags.result .all = .ok ∧ Reached (sems e.1) e.2 := by
  obtain ⟨hfailed, hall, -⟩ := listFlags_eq sems [e] flags
  rw [result_all_ok_iff, result_all_ok_iff, hfailed, hall]
  simp only [List.mem_singleton, exists_eq_left, forall_eq, isSignaled_iff, Reached]
  tauto

variable [DecidableEq τ] [DecidableEq ι] {s : DeviceState τ ι ε}

omit [DecidableEq ι] in
/-- The threads after a step of one of them, which leaves at most one event. -/
theorem SubmitInv.threads_goto (h : SubmitInv program sems₀ s) {t : τ} {thread : HostThread ι}
    {event : Event τ ι} (hevent : ∀ t', t' ≠ t → event.thread ≠ some t')
    (hthread : ThreadOk program sems₀ (event :: s.history) t thread) (t' : τ) :
    ThreadOk program sems₀ (event :: s.history) t' ((s.goto t thread).threads t') := by
  by_cases heq : t' = t
  · rw [heq, s.goto_self]
    exact hthread
  · rw [s.goto_of_ne heq]
    exact (h.threads t').cons (hevent t' heq)

omit [DecidableEq ι] in
/-- A step without an event, that leaves the semaphores alone. -/
theorem SubmitInv.goto (h : SubmitInv program sems₀ s) {t : τ} {thread : HostThread ι}
    (hthread : ThreadOk program sems₀ s.history t thread) :
    SubmitInv program sems₀ (s.goto t thread) where
  justified := h.justified
  supplied := h.supplied
  threads t' := by
    by_cases heq : t' = t
    · rw [heq, s.goto_self]
      exact hthread
    · rw [s.goto_of_ne heq]
      exact h.threads t'

omit [DecidableEq ι] in
/-- A step of a wait. -/
theorem SubmitInv.enter (h : SubmitInv program sems₀ s) {t : τ} {phase phase' : Phase ι}
    (hold : (s.threads t).phase = phase) (hbegun : ¬ phase.Begun) (hended : ¬ phase.Ended)
    (hphase : PhaseOk program sems₀ s.history t (s.threads t).next phase') :
    SubmitInv program sems₀ (s.enter t phase') :=
  h.goto ((h.threads t).enter (fun hp => absurd (hold ▸ hp) hbegun)
    (fun hp => absurd (hold ▸ hp) hended) hphase)

omit [DecidableEq τ] in
/-- What is reached after an accepted signal. -/
theorem SubmitInv.supplied_signal (h : SubmitInv program sems₀ s) (i : ι) (payload : UInt64)
    (sender : Option (τ × Nat)) (e : ι × UInt64)
    (he : Reached (Function.update s.sems i { s.sems i with currentValue := payload } e.1) e.2) :
    Supplied sems₀ (.signaled sender i payload :: s.history) e := by
  obtain ⟨j, v⟩ := e
  by_cases hij : j = i
  · subst hij
    rw [Function.update_self] at he
    exact .inr ⟨sender, payload, List.mem_cons_self, he.2⟩
  · rw [Function.update_of_ne hij] at he
    exact (h.supplied (j, v) he).cons _

/-- **One step of a thread.** -/
theorem SubmitInv.executes (h : SubmitInv program sems₀ s) {s' : DeviceState τ ι ε} {t : τ}
    {submission : Submission ι ε} (hsub : (program t)[(s.threads t).next]? = some submission)
    (hstep : Executes program s t submission s') : SubmitInv program sems₀ s' := by
  have hthread := h.threads t
  have hok := hthread.phase
  -- an event of this thread is none of another
  have hown : ∀ t', t' ≠ t → some t ≠ some t' := fun t' hne heq => hne (Option.some.inj heq).symm
  cases hstep with
  | pass phase reached =>
    exact h.enter phase id id ⟨submission, hsub, fun e he => h.supplied e (reached e he)⟩
  | await phase => exact h.enter phase id id trivial
  | test phase signaled => exact h.enter phase id id trivial
  | wake phase => exact h.enter phase id id ⟨submission, [], hsub, rfl, fun _ => nofun⟩
  | @read flags e rest phase =>
    rw [phase] at hok
    obtain ⟨submission', seen, hsub', hsplit, hseen⟩ := hok
    refine h.enter phase id id ⟨submission', seen ++ [e], hsub', by simp [hsplit], fun hresult e' he' => ?_⟩
    obtain ⟨hflags, hreached⟩ := (result_read_ok_iff s.sems flags e).mp hresult
    rcases List.mem_append.mp he' with he' | he'
    · exact hseen hflags e' he'
    · exact List.mem_singleton.mp he' ▸ h.supplied e hreached
  | grant phase ok =>
    rw [phase] at hok
    obtain ⟨submission', seen, hsub', hsplit, hseen⟩ := hok
    rw [List.append_nil] at hsplit
    exact h.enter phase id id ⟨submission', hsub', hsplit ▸ hseen ok⟩
  | begin phase =>
    rw [phase] at hok
    have hbefore : ∀ j, Event.began t j ∈ s.history → j < (s.threads t).next := fun j hj =>
      (hthread.began j hj).resolve_right fun ⟨_, hp⟩ => by rwa [phase] at hp
    refine ⟨⟨⟨hbefore, hok⟩, h.justified⟩, fun e he => (h.supplied e he).cons _,
      h.threads_goto hown ⟨fun k hk => ?_, fun k hk => ?_, List.mem_cons_self⟩⟩
    · rcases List.mem_cons.mp hk with hk | hk
      · cases hk
        exact .inr ⟨rfl, trivial⟩
      · exact .inl (hbefore k hk)
    · refine .inl ((hthread.ended k ?_).resolve_right fun ⟨_, hp⟩ => ?_)
      · exact (List.mem_cons.mp hk).resolve_left nofun
      · rwa [phase] at hp
  | finish phase replay =>
    rw [phase] at hok
    have hbefore : ∀ j, Event.ended t j ∈ s.history → j < (s.threads t).next := fun j hj =>
      (hthread.ended j hj).resolve_right fun ⟨_, hp⟩ => by rwa [phase] at hp
    refine ⟨⟨⟨hok, fun hmem => Nat.lt_irrefl _ (hbefore _ hmem), submission, hsub, replay⟩, h.justified⟩,
      fun e he => (h.supplied e he).cons _,
      h.threads_goto hown ⟨fun k hk => ?_, fun k hk => ?_, List.mem_cons_self, submission, hsub,
        List.Subset.refl _⟩⟩
    · have hk := (List.mem_cons.mp hk).resolve_left nofun
      exact (hthread.began k hk).imp_right fun ⟨heq, _⟩ => ⟨heq, trivial⟩
    · rcases List.mem_cons.mp hk with hk | hk
      · cases hk
        exact .inr ⟨rfl, trivial⟩
      · exact .inl (hbefore k hk)
  | @signal i payload rest phase due =>
    rw [phase] at hok
    obtain ⟨hended, submission', hsub', hrest⟩ := hok
    have hgone : ThreadOk program sems₀ s.history t ⟨(s.threads t).next, .signaling rest⟩ :=
      hthread.enter (fun _ => trivial) (fun _ => trivial)
        ⟨hended, submission', hsub', List.subset_of_cons_subset hrest⟩
    exact ⟨⟨⟨hended, submission', hsub', hrest List.mem_cons_self⟩, h.justified⟩,
      h.supplied_signal i payload _, h.threads_goto (fun _ _ => nofun) (hgone.cons nofun)⟩
  | done phase => exact h.goto hthread.leave
  | giveUp reason => exact h.goto hthread.leave

/-- **One step of the system.** -/
theorem submitInv_step (h : SubmitInv program sems₀ s) {s' : DeviceState τ ι ε}
    {action : SubmitAction τ ι ε} (hstep : submitStep failureValue program s action = some s') :
    SubmitInv program sems₀ s' := by
  cases action with
  | execute t =>
    obtain ⟨submission, hsub, hexec⟩ := execute_eq_some hstep
    exact h.executes hsub hexec
  | signal i newValue =>
    obtain rfl | rfl := signal_eq_some hstep
    · exact h
    · exact ⟨⟨trivial, h.justified⟩, h.supplied_signal i newValue none,
        fun t => (h.threads t).cons (Option.some_ne_none t).symm⟩
  | fail i status =>
    obtain rfl := Option.some.inj hstep
    refine ⟨h.justified, fun e he => ?_, h.threads⟩
    -- what is reached has not failed, so it is another semaphore
    have hne : e.1 ≠ i := by
      intro heq
      have hfailed : Failed (fail failureValue s.sems i (some status) i) := by
        rw [Driver.fail, Function.update_self]
        exact Semaphore.failSection_failed _ rfl
      exact he.1 (heq ▸ hfailed)
    refine h.supplied e ?_
    have hsame : fail failureValue s.sems i (some status) e.1 = s.sems e.1 :=
      Function.update_of_ne hne _ _
    exact hsame ▸ he

/-- A failed semaphore stays failed. -/
theorem failed_step {s' : DeviceState τ ι ε} {action : SubmitAction τ ι ε}
    (hstep : submitStep failureValue program s action = some s') (i : ι)
    (hfailed : Failed (s.sems i)) : Failed (s'.sems i) := by
  have hsignal : ∀ (j : ι) (v : UInt64), Failed (Function.update s.sems j
      { s.sems j with currentValue := v } i) := by
    intro j v
    rw [Function.update_apply]
    split
    next heq =>
      subst heq
      exact hfailed
    next => exact hfailed
  cases action with
  | execute t =>
    obtain ⟨submission, -, hexec⟩ := execute_eq_some hstep
    cases hexec with
    | signal phase due => exact hsignal _ _
    | pass | await | test | wake | read | grant | begin | finish | done | giveUp => exact hfailed
  | signal j newValue =>
    obtain rfl | rfl := signal_eq_some hstep
    · exact hfailed
    · exact hsignal _ _
  | fail j status =>
    obtain rfl := Option.some.inj hstep
    exact fail_failed s.sems j rfl i (.inr hfailed)

/-! ### Waits that are not decided -/

/-- The wait has still to read the semaphore for its result, or is going to fail. -/
def Phase.Undecided (e : ι × UInt64) : Phase ι → Prop
  | .called | .awaiting _ => True
  | .reading flags rest => e ∈ rest ∨ flags.result .all ≠ .ok
  | _ => False

/-- The wait of the submission `k` has still to read the semaphore, or is going to fail. -/
def HostThread.Undecided (thread : HostThread ι) (k : Nat) (e : ι × UInt64) : Prop :=
  thread.next < k ∨ thread.next = k ∧ thread.phase.Undecided e

omit [DecidableEq τ] [DecidableEq ι] in
theorem HostThread.Undecided.of_lt {thread : HostThread ι} {k : Nat} {e : ι × UInt64}
    (h : thread.next < k) : HostThread.Undecided ⟨thread.next + 1, .called⟩ k e :=
  (Nat.lt_or_eq_of_le h).imp_right fun heq => ⟨heq, trivial⟩

/-- The submission `k` is not replayed, as a semaphore that it waits for has failed. -/
structure Refused (s : DeviceState τ ι ε) (t : τ) (k : Nat) (e : ι × UInt64) : Prop where
  failed : Failed (s.sems e.1)
  notBegun : Event.began t k ∉ s.history
  undecided : (s.threads t).Undecided k e ∨ k < (s.threads t).next

/-- A step of the thread. -/
theorem Refused.executes {t : τ} {k : Nat} {e : ι × UInt64} (h : Refused s t k e)
    (hwaits : ∀ submission, (program t)[k]? = some submission → e ∈ submission.waits)
    {s' : DeviceState τ ι ε} {submission : Submission ι ε}
    (hsub : (program t)[(s.threads t).next]? = some submission)
    (hstep : Executes program s t submission s') (hfailed : Failed (s'.sems e.1)) :
    Refused s' t k e := by
  obtain ⟨-, hbegan, hundecided⟩ := h
  -- a step within the wait, which stays undecided where it is the wait of the submission `k`
  have henter : ∀ {phase' : Phase ι},
      ((s.threads t).next = k → (s.threads t).phase.Undecided e → phase'.Undecided e) →
      ((s.enter t phase').threads t).Undecided k e ∨ k < ((s.enter t phase').threads t).next := by
    intro phase' hphase
    rw [s.enter_self]
    exact hundecided.imp_left (Or.imp_right fun ⟨heq, hu⟩ => ⟨heq, hphase heq hu⟩)
  have hleave : ((s.leave t).threads t).Undecided k e ∨ k < ((s.leave t).threads t).next := by
    rw [DeviceState.leave, s.goto_self]
    rcases hundecided with (hlt | ⟨heq, -⟩) | hgt
    · exact .inl (.of_lt hlt)
    · exact .inr (heq ▸ Nat.lt_succ_self _)
    · exact .inr (Nat.lt_succ_of_lt hgt)
  cases hstep with
  | pass phase reached =>
    refine ⟨hfailed, hbegan, henter fun heq _ => ?_⟩
    exact absurd hfailed (reached e (hwaits submission (heq ▸ hsub))).1
  | await phase => exact ⟨hfailed, hbegan, henter fun _ _ => trivial⟩
  | test phase signaled => exact ⟨hfailed, hbegan, henter fun _ _ => trivial⟩
  | wake phase =>
    exact ⟨hfailed, hbegan, henter fun heq _ => .inl (hwaits submission (heq ▸ hsub))⟩
  | @read flags e' rest phase =>
    refine ⟨hfailed, hbegan, henter fun _ hu => ?_⟩
    rw [phase] at hu
    have hread := result_read_ok_iff s.sems flags e'
    rcases hu with hmem | hnot
    · rcases List.mem_cons.mp hmem with rfl | hmem
      · exact .inr fun hok => (hread.mp hok).2.1 hfailed
      · exact .inl hmem
    · exact .inr fun hok => hnot (hread.mp hok).1
  | grant phase ok =>
    refine ⟨hfailed, hbegan, henter fun _ hu => ?_⟩
    rw [phase] at hu
    exact absurd ok (hu.resolve_left List.not_mem_nil)
  | begin phase =>
    have hne : (s.threads t).next ≠ k := by
      rintro heq
      rcases hundecided with (hlt | ⟨-, hu⟩) | hgt
      · omega
      · rwa [phase] at hu
      · omega
    refine ⟨hfailed, ?_, henter fun heq => absurd heq hne⟩
    rintro (_ | ⟨_, hmem⟩)
    · exact hne rfl
    · exact hbegan hmem
  | finish phase replay =>
    refine ⟨hfailed, fun hmem => hbegan ((List.mem_cons.mp hmem).resolve_left nofun),
      henter fun _ hu => ?_⟩
    rwa [phase] at hu
  | signal phase due =>
    refine ⟨hfailed, fun hmem => hbegan ((List.mem_cons.mp hmem).resolve_left nofun),
      henter fun _ hu => ?_⟩
    rwa [phase] at hu
  | done phase => exact ⟨hfailed, hbegan, hleave⟩
  | giveUp reason => exact ⟨hfailed, hbegan, hleave⟩

/-- A step of another thread. -/
theorem executes_other {s' : DeviceState τ ι ε} {t t' : τ} {submission : Submission ι ε}
    (hstep : Executes program s t' submission s') (hne : t ≠ t') :
    s'.threads t = s.threads t ∧ ∀ k, Event.began t k ∈ s'.history → Event.began t k ∈ s.history := by
  have hthread : ∀ thread, (s.goto t' thread).threads t = s.threads t := s.goto_of_ne hne
  cases hstep with
  | pass | await | test | wake | read | grant | done | giveUp => exact ⟨hthread _, fun _ => id⟩
  | begin phase =>
    refine ⟨hthread _, fun k hk => (List.mem_cons.mp hk).resolve_left fun heq => ?_⟩
    cases heq
    exact hne rfl
  | finish | signal => exact ⟨hthread _, fun k hk => (List.mem_cons.mp hk).resolve_left nofun⟩

/-- **A refused submission** stays refused. -/
theorem Refused.step {t : τ} {k : Nat} {e : ι × UInt64} (h : Refused s t k e)
    (hwaits : ∀ submission, (program t)[k]? = some submission → e ∈ submission.waits)
    {s' : DeviceState τ ι ε} {action : SubmitAction τ ι ε}
    (hstep : submitStep failureValue program s action = some s') : Refused s' t k e := by
  have hfailed := failed_step hstep e.1 h.failed
  cases action with
  | execute t' =>
    obtain ⟨submission, hsub, hexec⟩ := execute_eq_some hstep
    by_cases heq : t = t'
    · subst heq
      exact h.executes hwaits hsub hexec hfailed
    · obtain ⟨hthread, hbegan⟩ := executes_other hexec heq
      exact ⟨hfailed, mt (hbegan k) h.notBegun, hthread ▸ h.undecided⟩
  | signal j newValue =>
    obtain rfl | rfl := signal_eq_some hstep
    · exact h
    · exact ⟨hfailed, fun hmem => h.notBegun ((List.mem_cons.mp hmem).resolve_left nofun), h.undecided⟩
  | fail j status =>
    obtain rfl := Option.some.inj hstep
    exact ⟨hfailed, h.notBegun, h.undecided⟩

/-! ### Runs -/

/-- What holds of a state that a run comes to. -/
structure RunsInOrder (failureValue : UInt64) (program : τ → HostProgram ι ε)
    (sems₀ : Semaphores ι ε) (s : DeviceState τ ι ε) : Prop where
  /-- Every event is justified by those before it. -/
  justified : ∀ later event past, s.history = later ++ event :: past →
    event.Justified program sems₀ past
  /-- A replay never begins if a semaphore has failed that its wait has still to read. -/
  failed : ∀ t k submission, (program t)[k]? = some submission → ∀ e ∈ submission.waits,
    Failed (s.sems e.1) → (s.threads t).Undecided k e →
    ∀ more s', run (submitStep failureValue program) more s = some s' → Event.began t k ∉ s'.history
  /-- Behind its wait a submission is replayed, whatever fails. -/
  late : ∀ t submission, (program t)[(s.threads t).next]? = some submission →
    (s.threads t).phase = .granted → ∀ i status, ∃ s',
      run (submitStep failureValue program) [.fail i status, .execute t] s = some s' ∧
        Event.began t (s.threads t).next ∈ s'.history

/-- **In every interleaving** a replay begins behind everything that it waits for, and never when
    some of that has failed before the wait read it. -/
theorem runsInOrder_of_run {actions : List (SubmitAction τ ι ε)}
    (hrun : run (submitStep failureValue program) actions (.initial sems₀) = some s) :
    RunsInOrder failureValue program sems₀ s := by
  have hinv : SubmitInv program sems₀ s := run_invariant (V := fun _ => True)
    (fun _ _ _ h _ hstep => submitInv_step h hstep) (submitInv_initial program sems₀)
    (fun _ _ => trivial) hrun
  refine ⟨throughout_iff.mp hinv.justified, ?_, ?_⟩
  · intro t k submission hsub e he hfailed hundecided more s' hmore
    -- from `s` on the submission is refused
    have hbegan : Event.began t k ∉ s.history := by
      intro hmem
      rcases hundecided with hlt | ⟨heq, hu⟩
      · rcases (hinv.threads t).began k hmem with h | ⟨h, -⟩ <;> omega
      · rcases (hinv.threads t).began k hmem with h | ⟨-, hbegun⟩
        · omega
        · cases hphase : (s.threads t).phase with
          | called | awaiting | reading | granted => rwa [hphase] at hbegun
          | replaying | signaling => rwa [hphase] at hu
    have hrefused : Refused s' t k e := run_invariant (V := fun _ => True)
      (I := fun s₁ : DeviceState τ ι ε => Refused s₁ t k e)
      (fun s₁ action s₂ h _ hstep => h.step (fun submission' hsub' =>
        Option.some.inj (hsub.symm.trans hsub') ▸ he) hstep)
      ⟨hfailed, hbegan, .inl hundecided⟩ (fun _ _ => trivial) hmore
    exact hrefused.notBegun
  · intro t submission hsub hphase i status
    let failed : DeviceState τ ι ε := { s with sems := fail failureValue s.sems i (some status) }
    refine ⟨{ failed.enter t .replaying with history := .began t (s.threads t).next :: s.history }, ?_,
      List.mem_cons_self⟩
    simp [run, submitStep, execute, hsub, hphase, failed]

/-- Two threads, of which one waits for the other. -/
def producerConsumer : Bool → HostProgram Unit Unit
  | false => [⟨[], none, [((), 1)]⟩]
  | true => [⟨[((), 1)], none, []⟩]

/-- The producer goes first. -/
def producerFirst : List (SubmitAction Bool Unit Unit) :=
  List.replicate 5 (.execute false) ++ List.replicate 4 (.execute true)

theorem runsInOrder_producerConsumer : ∃ s,
    run (submitStep 100 producerConsumer) producerFirst (.initial fun _ => ⟨0, none⟩) = some s ∧
      s.history.length = 5 ∧ RunsInOrder 100 producerConsumer (fun _ => ⟨0, none⟩) s := by
  have hlength : (run (submitStep 100 producerConsumer) producerFirst
      (.initial fun _ => ⟨0, none⟩)).map (fun s => s.history.length) = some 5 := by decide
  obtain ⟨s, hrun, hs⟩ := Option.map_eq_some_iff.mp hlength
  exact ⟨s, hrun, hs, runsInOrder_of_run hrun⟩

end History

/-! ### A thread on its own -/

section Alone

variable [DecidableEq τ] [DecidableEq ι] {program : τ → HostProgram ι ε} {t : τ}
  {submission : Submission ι ε} {s : DeviceState τ ι ε} {sems : Semaphores ι ε}

/-- The thread takes steps until its call has returned, and leaves these semaphores. -/
def Returns (program : τ → HostProgram ι ε) (t : τ) (s : DeviceState τ ι ε) (sems : Semaphores ι ε) :
    Prop :=
  ∃ n s', run (execute program) (List.replicate n t) s = some s' ∧ s'.sems = sems ∧
    s'.threads t = ⟨(s.threads t).next + 1, .called⟩ ∧ ∀ t', t' ≠ t → s'.threads t' = s.threads t'

theorem Returns.leave (hstep : execute program s t = some (s.leave t)) : Returns program t s s.sems :=
  ⟨1, s.leave t, by simp [run, hstep], rfl, s.goto_self t _, fun _ hne => s.goto_of_ne hne _⟩

/-- A step within the call. -/
theorem Returns.step {s₁ : DeviceState τ ι ε} {phase : Phase ι}
    (hstep : execute program s t = some s₁) (hthreads : s₁.threads = (s.enter t phase).threads)
    (h : Returns program t s₁ sems) : Returns program t s sems := by
  obtain ⟨n, s', hrun, hsems, hthread, hother⟩ := h
  rw [hthreads, s.enter_self] at hthread
  refine ⟨n + 1, s', ?_, hsems, hthread, fun t' hne => ?_⟩
  · rw [List.replicate_succ, run, hstep]
    exact hrun
  · rw [hother t' hne, hthreads]
    exact s.goto_of_ne hne _

omit [DecidableEq τ] in
/-- A signal that is rejected changes nothing. -/
theorem signal_of_not_ok (sems : Semaphores ι ε) (i : ι) (payload : UInt64)
    (h : (signal sems i payload).2 ≠ .ok) : (signal sems i payload).1 = sems := by
  have hsame : ((sems i).signalUnsafe payload).1 = sems i := Semaphore.signalUnsafe_of_not_ok h
  exact (congrArg (Function.update sems i) hsame).trans (Function.update_eq_self i sems)

/-- The loop over the signal list. -/
theorem signaling_alone (rest : SemaphoreList ι) : ∀ s : DeviceState τ ι ε,
    (program t)[(s.threads t).next]? = some submission → (s.threads t).phase = .signaling rest →
      Returns program t s (signalInOrder s.sems rest).1 := by
  induction rest with
  | nil => exact fun s hsub hphase => .leave (by simp [execute, hsub, hphase])
  | cons e rest ih =>
    intro s hsub hphase
    obtain ⟨i, payload⟩ := e
    cases hsignal : signal s.sems i payload with
    | mk sems status =>
      cases status with
      | ok =>
        let s₁ : DeviceState τ ι ε := { s.enter t (.signaling rest) with
          sems, history := .signaled (some (t, (s.threads t).next)) i payload :: s.history }
        have hstep : execute program s t = some s₁ := by simp [execute, hsub, hphase, hsignal, s₁]
        have hthread : s₁.threads t = ⟨(s.threads t).next, .signaling rest⟩ := s.enter_self t _
        rw [signalInOrder, hsignal]
        exact .step hstep rfl (ih s₁ (by rw [hthread]; exact hsub) (by rw [hthread]))
      | outOfRange | aborted | deadlineExceeded =>
        have hsame : sems = s.sems := by
          have hfst := signal_of_not_ok s.sems i payload (by rw [hsignal]; exact Status.noConfusion)
          rw [← hfst, hsignal]
        rw [signalInOrder, hsignal, hsame]
        exact .leave (by simp [execute, hsub, hphase, hsignal])

/-- Behind the wait. -/
theorem granted_alone (hsub : (program t)[(s.threads t).next]? = some submission)
    (hphase : (s.threads t).phase = .granted) :
    Returns program t s (queueExecute none submission.replay submission.signals s.sems).1 := by
  let s₁ : DeviceState τ ι ε := { s.enter t .replaying with
    history := .began t (s.threads t).next :: s.history }
  have hthread₁ : s₁.threads t = ⟨(s.threads t).next, .replaying⟩ := s.enter_self t _
  have hsub₁ : (program t)[(s₁.threads t).next]? = some submission := by rw [hthread₁]; exact hsub
  have hstep₁ : execute program s t = some s₁ := by simp [execute, hsub, hphase, s₁]
  refine .step hstep₁ rfl ?_
  cases hreplay : submission.replay with
  | some error => exact .leave (by simp [execute, hsub, hthread₁, hreplay])
  | none =>
    let s₂ : DeviceState τ ι ε := { s₁.enter t (.signaling submission.signals) with
      history := .ended t (s₁.threads t).next :: s₁.history }
    have hthread₂ : s₂.threads t = ⟨(s₁.threads t).next, .signaling submission.signals⟩ :=
      s₁.enter_self t _
    have hstep₂ : execute program s₁ t = some s₂ := by simp [execute, hsub, hthread₁, hreplay, s₂]
    refine .step hstep₂ rfl ?_
    rw [queueExecute, returnSignal_fst, multiSignal_eq]
    exact signaling_alone submission.signals s₂ (by rw [hthread₂]; exact hsub₁) (by rw [hthread₂])

/-- The loop that reads the wait list. -/
theorem reading_alone (status : ε) (rest : SemaphoreList ι) : ∀ (s : DeviceState τ ι ε) (flags : ListFlags),
    (program t)[(s.threads t).next]? = some submission → (s.threads t).phase = .reading flags rest →
      Returns program t s (queueExecute
        (if (listFlags s.sems flags rest).result .all = .ok then none else some status)
        submission.replay submission.signals s.sems).1 := by
  induction rest with
  | nil =>
    intro s flags hsub hphase
    by_cases hok : flags.result .all = .ok
    · have hthread := s.enter_self t .granted
      have hstep : execute program s t = some (s.enter t .granted) := by
        simp [execute, hsub, hphase, hok]
      rw [listFlags, List.foldl_nil, if_pos hok]
      exact .step hstep rfl (granted_alone (by rw [hthread]; exact hsub) (by rw [hthread]))
    · rw [listFlags, List.foldl_nil, if_neg hok]
      exact .leave (by simp [execute, hsub, hphase])
  | cons e rest ih =>
    intro s flags hsub hphase
    have hthread := s.enter_self t (.reading (listFlags s.sems flags [e]) rest)
    exact .step (by simp [execute, hsub, hphase]) rfl
      (ih (s.enter t (.reading (listFlags s.sems flags [e]) rest)) (listFlags s.sems flags [e])
        (by rw [hthread]; exact hsub) (by rw [hthread]))

/-- A pass of the condition over semaphores that are signaled, and the wait behind it. -/
theorem awaiting_alone (status : ε) (rest : SemaphoreList ι) : ∀ s : DeviceState τ ι ε,
    (program t)[(s.threads t).next]? = some submission → (s.threads t).phase = .awaiting rest →
      (∀ e ∈ rest, isSignaled (s.sems e.1) e.2 = true) →
        Returns program t s (queueExecute
          (if resultFromState .all s.sems submission.waits = .ok then none else some status)
          submission.replay submission.signals s.sems).1 := by
  induction rest with
  | nil =>
    intro s hsub hphase _
    have hthread := s.enter_self t (.reading ⟨false, true, false⟩ submission.waits)
    have hstep : execute program s t
        = some (s.enter t (.reading ⟨false, true, false⟩ submission.waits)) := by
      simp [execute, hsub, hphase]
    exact .step hstep rfl
      (reading_alone status submission.waits _ ⟨false, true, false⟩ (by rw [hthread]; exact hsub)
        (by rw [hthread]))
  | cons e rest ih =>
    intro s hsub hphase hsignaled
    have hthread := s.enter_self t (.awaiting rest)
    exact .step (by simp [execute, hsub, hphase, hsignaled e List.mem_cons_self]) rfl
      (ih (s.enter t (.awaiting rest)) (by rw [hthread]; exact hsub) (by rw [hthread])
        fun e' he' => hsignaled e' (List.mem_cons_of_mem _ he'))

/-- **A thread that is not disturbed** does what `queueExecute` does. -/
theorem execute_alone (status : ε) (hsub : (program t)[(s.threads t).next]? = some submission)
    (hphase : (s.threads t).phase = .called)
    (hwake : wakeCondition .all s.sems submission.waits = true) :
    Returns program t s (queueExecute
      (if resultFromState .all s.sems submission.waits = .ok then none else some status)
      submission.replay submission.signals s.sems).1 := by
  have hsignaled := (allSignaled_iff s.sems submission.waits).mp hwake
  have hthread : ∀ phase, (s.enter t phase).threads t = ⟨(s.threads t).next, phase⟩ := s.enter_self t
  have hgranted : (∀ e ∈ submission.waits, Reached (s.sems e.1) e.2) →
      execute program s t = some (s.enter t .granted) → Returns program t s (queueExecute
        (if resultFromState .all s.sems submission.waits = .ok then none else some status)
        submission.replay submission.signals s.sems).1 := by
    intro hreached hstep
    have hok : resultFromState .all s.sems submission.waits = .ok :=
      (resultFromState_ok_iff _ _ _).mpr ⟨fun ⟨e, he, hf⟩ => (hreached e he).1 hf, hreached⟩
    rw [if_pos hok]
    exact .step hstep rfl (granted_alone (by rw [hthread]; exact hsub) (by rw [hthread]))
  have hawait : execute program s t = some (s.enter t (.awaiting submission.waits)) →
      Returns program t s (queueExecute
        (if resultFromState .all s.sems submission.waits = .ok then none else some status)
        submission.replay submission.signals s.sems).1 := fun hstep =>
    .step hstep rfl (awaiting_alone status submission.waits _ (by rw [hthread]; exact hsub)
      (by rw [hthread]) hsignaled)
  rcases hwaits : submission.waits with _ | ⟨⟨i, payload⟩, _ | ⟨e', rest⟩⟩
  · rw [← hwaits]
    exact hgranted (by simp [hwaits]) (by simp [execute, hsub, hphase, hwaits])
  · -- the only semaphore is looked at first
    rw [← hwaits]
    by_cases hf : Failed (s.sems i)
    · have hnot : resultFromState .all s.sems submission.waits ≠ .ok := fun hok =>
        ((resultFromState_ok_iff _ _ _).mp hok).1 ⟨(i, payload), by simp [hwaits], hf⟩
      rw [if_neg hnot]
      have hf' : (s.sems i).failureStatus.isSome = true := hf
      exact .leave (by simp [execute, hsub, hphase, hwaits, hf'])
    · have hf' : (s.sems i).failureStatus.isSome = false := by simpa [Failed] using hf
      by_cases hv : payload ≤ (s.sems i).currentValue
      · exact hgranted (by simpa [hwaits] using ⟨hf, hv⟩) (by simp [execute, hsub, hphase, hwaits, hf', hv])
      · exact hawait (by simp [execute, hsub, hphase, hwaits, hf', hv])
  · rw [← hwaits]
    exact hawait (by simp [execute, hsub, hphase, hwaits])

end Alone

end CoralNPU.Driver
