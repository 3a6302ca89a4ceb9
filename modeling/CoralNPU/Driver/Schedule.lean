import CoralNPU.Driver.Submissions
import Mathlib.Algebra.BigOperators.Group.Finset.Basic
import Mathlib.Algebra.Order.BigOperators.Group.Finset
import Mathlib.Data.Fintype.Basic
import Mathlib.Tactic.TFAE

namespace CoralNPU.Driver

open Lib

/-!
# When submissions complete

Host threads that wait for each other, without the application.  Every semaphore is a timeline of one
thread, which signals growing payloads.

* `OneProducer` — the condition on the threads.
* `Schedule` — an order of all submissions in which each waits for earlier ones only.
* `pending`, `ProgressInv` — the signals that are still to come, and the invariant.
* `work`, `remaining` — every step leaves less to do.
* `completes_tfae` — whether everything is submitted depends on the submissions only, and not on the
  interleaving.
-/

variable {τ ι ε : Type}

/-! ### The condition and the order -/

/-- All signals of a thread, in order. -/
def signalsOf (program : HostProgram ι ε) : SemaphoreList ι := program.flatMap Submission.signals

/-- Every semaphore is signaled by one thread, with payloads that grow from its value on, and
    nothing fails. -/
structure OneProducer (program : τ → HostProgram ι ε) (sems₀ : Semaphores ι ε) : Prop where
  ascending : ∀ t, (signalsOf (program t)).Pairwise fun d e => d.1 = e.1 → d.2 < e.2
  above : ∀ t, ∀ e ∈ signalsOf (program t), (sems₀ e.1).currentValue < e.2
  separate : ∀ t t', t ≠ t' → ∀ d ∈ signalsOf (program t), ∀ e ∈ signalsOf (program t'), d.1 ≠ e.1
  unfailed : ∀ i, ¬ Failed (sems₀ i)
  replays : ∀ t, ∀ submission ∈ program t, submission.replay = none

/-- The payload is there from the beginning, or one of the submissions signals it. -/
def SuppliedBy (program : τ → HostProgram ι ε) (sems₀ : Semaphores ι ε) (before : List (τ × Nat))
    (e : ι × UInt64) : Prop :=
  e.2 ≤ (sems₀ e.1).currentValue ∨ ∃ t k submission, (t, k) ∈ before ∧
    (program t)[k]? = some submission ∧ ∃ d ∈ submission.signals, d.1 = e.1 ∧ e.2 ≤ d.2

/-- All submissions, each behind those of its thread before it and behind what it waits for. -/
structure Schedule (program : τ → HostProgram ι ε) (sems₀ : Semaphores ι ε)
    (order : List (τ × Nat)) : Prop where
  all : ∀ t, ∀ k < (program t).length, (t, k) ∈ order
  behind : ∀ before t k after, order = before ++ (t, k) :: after →
    (∀ j < k, (t, j) ∈ before) ∧ ∀ submission, (program t)[k]? = some submission →
      ∀ e ∈ submission.waits, SuppliedBy program sems₀ before e

/-- Every call has returned, after its replay, and every payload is reached. -/
structure Complete (program : τ → HostProgram ι ε) (s : DeviceState τ ι ε) : Prop where
  returned : ∀ t, (s.threads t).next = (program t).length
  replayed : ∀ t, ∀ k < (program t).length, Event.ended t k ∈ s.history
  reached : ∀ t, ∀ submission ∈ program t, ∀ e ∈ submission.signals, Reached (s.sems e.1) e.2

/-! ### What a thread still signals -/

/-- The signals that a thread has not come to. -/
def pending (program : HostProgram ι ε) (thread : HostThread ι) : SemaphoreList ι :=
  match thread.phase with
  | .signaling rest => rest ++ signalsOf (program.drop (thread.next + 1))
  | _ => signalsOf (program.drop thread.next)

/-- A thread that does not signal has the signals of its submissions before it. -/
theorem pending_of_ne {program : HostProgram ι ε} {thread : HostThread ι}
    (h : ∀ rest, thread.phase ≠ .signaling rest) :
    pending program thread = signalsOf (program.drop thread.next) := by
  unfold pending
  split
  next rest hphase => exact absurd hphase (h rest)
  next => rfl

/-- The signals from a submission on: its own, then those of the rest. -/
theorem signalsOf_drop {program : HostProgram ι ε} {k : Nat} {submission : Submission ι ε}
    (h : program[k]? = some submission) :
    signalsOf (program.drop k) = submission.signals ++ signalsOf (program.drop (k + 1)) := by
  obtain ⟨hlt, rfl⟩ := List.getElem?_eq_some_iff.mp h
  rw [List.drop_eq_getElem_cons hlt]
  exact List.flatMap_cons

/-- They are the last ones of the program. -/
theorem signalsOf_drop_suffix (program : HostProgram ι ε) (k : Nat) :
    signalsOf (program.drop k) <:+ signalsOf program := by
  refine ⟨signalsOf (program.take k), ?_⟩
  rw [signalsOf, signalsOf, ← List.flatMap_append, List.take_append_drop]
  rfl

/-! ### The invariant -/

/-- What a thread has done so far. -/
structure Progress (program : HostProgram ι ε) (s : DeviceState τ ι ε) (t : τ)
    (thread : HostThread ι) : Prop where
  next_le : thread.next ≤ program.length
  returned : ∀ k < thread.next, Event.ended t k ∈ s.history ∧ ∀ submission,
    program[k]? = some submission → ∀ e ∈ submission.signals, e.2 ≤ (s.sems e.1).currentValue
  awaiting : ∀ rest, thread.phase = .awaiting rest → ∀ submission,
    program[thread.next]? = some submission → ∃ seen, submission.waits = seen ++ rest ∧
      ∀ e ∈ seen, e.2 ≤ (s.sems e.1).currentValue
  /-- The result of the wait is going to be OK. -/
  reading : ∀ flags rest, thread.phase = .reading flags rest →
    flags.result .all = .ok ∧ ∀ e ∈ rest, e.2 ≤ (s.sems e.1).currentValue
  signaling : ∀ rest, thread.phase = .signaling rest → Event.ended t thread.next ∈ s.history ∧
    ∀ submission, program[thread.next]? = some submission → ∃ done, submission.signals = done ++ rest ∧
      ∀ e ∈ done, e.2 ≤ (s.sems e.1).currentValue

/-- An event of a run without the application: a replay that begins is behind those of its thread. -/
def Event.Own (past : List (Event τ ι)) : Event τ ι → Prop
  | .began t k => ∀ j < k, Event.ended t j ∈ past
  | .ended _ _ => True
  | .signaled sender _ _ => sender.isSome

/-- The invariant of threads that wait for each other only. -/
structure ProgressInv (program : τ → HostProgram ι ε) (sems₀ : Semaphores ι ε)
    (s : DeviceState τ ι ε) : Prop where
  unfailed : ∀ i, ¬ Failed (s.sems i)
  grown : ∀ i, (sems₀ i).currentValue ≤ (s.sems i).currentValue
  due : ∀ t, ∀ e ∈ pending (program t) (s.threads t), (s.sems e.1).currentValue < e.2
  suffix : ∀ t, pending (program t) (s.threads t) <:+ signalsOf (program t)
  own : Throughout Event.Own s.history
  threads : ∀ t, Progress (program t) s t (s.threads t)

/-- More history, and values that have grown. -/
theorem Progress.mono {program : HostProgram ι ε} {s s' : DeviceState τ ι ε} {t : τ}
    {thread : HostThread ι} (h : Progress program s t thread)
    (hvalue : ∀ i, (s.sems i).currentValue ≤ (s'.sems i).currentValue)
    (hhistory : s.history ⊆ s'.history) : Progress program s' t thread where
  next_le := h.next_le
  returned k hk := by
    obtain ⟨hended, hsignals⟩ := h.returned k hk
    exact ⟨hhistory hended, fun submission hsub e he =>
      UInt64.le_trans (hsignals submission hsub e he) (hvalue _)⟩
  awaiting rest hphase submission hsub := by
    obtain ⟨seen, hsplit, hseen⟩ := h.awaiting rest hphase submission hsub
    exact ⟨seen, hsplit, fun e he => UInt64.le_trans (hseen e he) (hvalue _)⟩
  reading flags rest hphase := by
    obtain ⟨hok, hrest⟩ := h.reading flags rest hphase
    exact ⟨hok, fun e he => UInt64.le_trans (hrest e he) (hvalue _)⟩
  signaling rest hphase := by
    obtain ⟨hended, hsignals⟩ := h.signaling rest hphase
    refine ⟨hhistory hended, fun submission hsub => ?_⟩
    obtain ⟨done, hsplit, hdone⟩ := hsignals submission hsub
    exact ⟨done, hsplit, fun e he => UInt64.le_trans (hdone e he) (hvalue _)⟩

/-- The invariant holds initially. -/
theorem progressInv_initial {program : τ → HostProgram ι ε} {sems₀ : Semaphores ι ε}
    (h : OneProducer program sems₀) : ProgressInv program sems₀ (.initial sems₀) where
  unfailed := h.unfailed
  grown i := UInt64.le_refl _
  due := h.above
  suffix t := signalsOf_drop_suffix (program t) 0
  own := trivial
  threads t := by
    exact ⟨Nat.zero_le _, fun k hk => absurd hk (Nat.not_lt_zero k), nofun, nofun, nofun⟩

section Step

variable [DecidableEq τ] [DecidableEq ι] {program : τ → HostProgram ι ε} {sems₀ : Semaphores ι ε}
  {s : DeviceState τ ι ε}

omit [DecidableEq ι] in
/-- A step of a thread that leaves the semaphores alone, and signals nothing. -/
theorem ProgressInv.goto (h : ProgressInv program sems₀ s) {t : τ} {thread : HostThread ι}
    {history : List (Event τ ι)}
    (hpending : pending (program t) thread = pending (program t) (s.threads t))
    (hhistory : s.history ⊆ history) (hown : Throughout Event.Own history)
    (hthread : Progress (program t) { s with history } t thread) :
    ProgressInv program sems₀ { s.goto t thread with history } := by
  have hthreads : ∀ t', pending (program t') ((s.goto t thread).threads t')
      = pending (program t') (s.threads t') := by
    intro t'
    by_cases heq : t' = t
    · rw [heq, s.goto_self, hpending]
    · rw [s.goto_of_ne heq]
  refine ⟨h.unfailed, h.grown, fun t' => ?_, fun t' => ?_, hown, fun t' => ?_⟩
  · show ∀ e ∈ pending (program t') ((s.goto t thread).threads t'), _
    rw [hthreads]
    exact h.due t'
  · show pending (program t') ((s.goto t thread).threads t') <:+ _
    rw [hthreads]
    exact h.suffix t'
  · show Progress (program t') _ t' ((s.goto t thread).threads t')
    by_cases heq : t' = t
    · rw [heq, s.goto_self]
      exact hthread.mono (fun _ => UInt64.le_refl _) (List.Subset.refl _)
    · rw [s.goto_of_ne heq]
      exact (h.threads t').mono (fun _ => UInt64.le_refl _) hhistory

/-- A signal that is accepted. -/
theorem ProgressInv.signal (hone : OneProducer program sems₀) (h : ProgressInv program sems₀ s)
    {t : τ} {submission : Submission ι ε} {i : ι} {payload : UInt64} {rest : SemaphoreList ι}
    (hsub : (program t)[(s.threads t).next]? = some submission)
    (phase : (s.threads t).phase = .signaling ((i, payload) :: rest))
    (due : (s.sems i).currentValue < payload) :
    ProgressInv program sems₀ { s.enter t (.signaling rest) with
      sems := Function.update s.sems i { s.sems i with currentValue := payload }
      history := .signaled (some (t, (s.threads t).next)) i payload :: s.history } := by
  have hthread := h.threads t
  have hlt : (s.threads t).next < (program t).length := (List.getElem?_eq_some_iff.mp hsub).1
  have hpending : pending (program t) (s.threads t)
      = (i, payload) :: (rest ++ signalsOf ((program t).drop ((s.threads t).next + 1))) := by
    rw [pending, phase]
    rfl
  obtain ⟨hended, hsplit⟩ := hthread.signaling _ phase
  have hsuffix := h.suffix t
  have hdue := h.due t
  rw [hpending] at hsuffix hdue
  -- the payloads of the thread for this semaphore are larger, those of other threads are for others
  have hlater := List.pairwise_cons.mp ((hone.ascending t).sublist hsuffix.sublist)
  have hmine : (i, payload) ∈ signalsOf (program t) := hsuffix.mem List.mem_cons_self
  have hvalue : ∀ j, (s.sems j).currentValue
      ≤ (Function.update s.sems i { s.sems i with currentValue := payload } j).currentValue := by
    intro j
    rw [Function.update_apply]
    split
    next hj =>
      subst hj
      exact UInt64.le_of_lt due
    next => exact UInt64.le_refl _
  have hother : ∀ t', t' ≠ t → (s.enter t (.signaling rest)).threads t' = s.threads t' :=
    fun t' hne => s.goto_of_ne hne _
  refine ⟨fun j => ?_, fun j => UInt64.le_trans (h.grown j) (hvalue j), fun t' e he => ?_,
    fun t' => ?_, ⟨rfl, h.own⟩, fun t' => ?_⟩
  · show ¬ Failed (Function.update s.sems i _ j)
    rw [Function.update_apply]
    split
    next hj => exact hj ▸ h.unfailed j
    next => exact h.unfailed j
  · show (Function.update s.sems i _ e.1).currentValue < e.2
    replace he : e ∈ pending (program t')
      ((s.enter t (.signaling rest)).threads t') := he
    by_cases heq : t' = t
    · rw [heq, s.enter_self] at he
      rw [Function.update_apply]
      split
      next hj => exact hlater.1 e he hj.symm
      next => exact hdue e (List.mem_cons_of_mem _ he)
    · rw [hother t' heq] at he
      rw [Function.update_of_ne (hone.separate t' t heq e ((h.suffix t').mem he) _ hmine)]
      exact h.due t' e he
  · show pending (program t') ((s.enter t (.signaling rest)).threads t') <:+ _
    by_cases heq : t' = t
    · rw [heq, s.enter_self]
      exact (List.suffix_cons _ _).trans hsuffix
    · rw [hother t' heq]
      exact h.suffix t'
  · show Progress (program t') _ t' ((s.enter t (.signaling rest)).threads t')
    by_cases heq : t' = t
    · rw [heq, s.enter_self]
      have hmono : Progress (program t) { s.enter t (.signaling rest) with
          sems := Function.update s.sems i { s.sems i with currentValue := payload }
          history := .signaled (some (t, (s.threads t).next)) i payload :: s.history } t
          (s.threads t) := hthread.mono hvalue (List.subset_cons_self _ _)
      refine ⟨hthread.next_le, hmono.returned, nofun, nofun, fun rest' hp => ?_⟩
      obtain rfl := Phase.signaling.inj hp
      refine ⟨List.mem_cons_of_mem _ hended, fun submission' hsub' => ?_⟩
      obtain ⟨done, hdone, hreached⟩ := (hmono.signaling _ phase).2 submission' hsub'
      refine ⟨done ++ [(i, payload)], by rw [hdone, List.append_assoc]; rfl, fun e he => ?_⟩
      rcases List.mem_append.mp he with he | he
      · exact hreached e he
      · rw [List.mem_singleton.mp he]
        show payload ≤ (Function.update s.sems i _ i).currentValue
        rw [Function.update_self]
        exact UInt64.le_refl _
    · rw [hother t' heq]
      exact (h.threads t').mono hvalue (List.subset_cons_self _ _)

omit [DecidableEq ι] in
/-- A step within a call that is not at its signals, with at most an event. -/
theorem ProgressInv.enter (h : ProgressInv program sems₀ s) {t : τ} {phase phase' : Phase ι}
    {history : List (Event τ ι)} (hold : (s.threads t).phase = phase)
    (hsignaling : ∀ rest, phase ≠ .signaling rest) (hsignaling' : ∀ rest, phase' ≠ .signaling rest)
    (hhistory : s.history ⊆ history) (hown : Throughout Event.Own history)
    (hawaiting : ∀ rest, phase' = .awaiting rest → ∀ submission,
      (program t)[(s.threads t).next]? = some submission → ∃ seen, submission.waits = seen ++ rest ∧
        ∀ e ∈ seen, e.2 ≤ (s.sems e.1).currentValue)
    (hreading : ∀ flags rest, phase' = .reading flags rest →
      flags.result .all = .ok ∧ ∀ e ∈ rest, e.2 ≤ (s.sems e.1).currentValue) :
    ProgressInv program sems₀ { s.enter t phase' with history } := by
  have hthread := h.threads t
  refine h.goto ?_ hhistory hown ⟨hthread.next_le, fun k hk => ?_, hawaiting, hreading,
    fun rest hp => absurd hp (hsignaling' rest)⟩
  · rw [pending_of_ne hsignaling', pending_of_ne fun rest => hold ▸ hsignaling rest]
  · obtain ⟨hended, hsignals⟩ := hthread.returned k hk
    exact ⟨hhistory hended, hsignals⟩

/-- **One step of a thread.** -/
theorem ProgressInv.executes (hone : OneProducer program sems₀) (h : ProgressInv program sems₀ s)
    {s' : DeviceState τ ι ε} {t : τ} {submission : Submission ι ε}
    (hsub : (program t)[(s.threads t).next]? = some submission)
    (hstep : Executes program s t submission s') : ProgressInv program sems₀ s' := by
  have hthread := h.threads t
  have hlt : (s.threads t).next < (program t).length := (List.getElem?_eq_some_iff.mp hsub).1
  have hthis : ∀ submission', (program t)[(s.threads t).next]? = some submission' →
      submission' = submission := fun _ hsub' => Option.some.inj (hsub'.symm.trans hsub)
  have hreached : ∀ {e : ι × UInt64}, e.2 ≤ (s.sems e.1).currentValue → Reached (s.sems e.1) e.2 :=
    fun hle => ⟨h.unfailed _, hle⟩
  cases hstep with
  | pass phase reached =>
    exact h.enter phase nofun nofun (List.Subset.refl _) h.own nofun nofun
  | await phase =>
    refine h.enter phase nofun nofun (List.Subset.refl _) h.own (fun rest hp submission' hsub' => ?_) nofun
    obtain rfl := Phase.awaiting.inj hp
    exact ⟨[], by rw [hthis _ hsub', List.nil_append], nofun⟩
  | @test e rest phase signaled =>
    refine h.enter phase nofun nofun (List.Subset.refl _) h.own (fun rest' hp submission' hsub' => ?_) nofun
    obtain rfl := Phase.awaiting.inj hp
    obtain ⟨seen, hsplit, hseen⟩ := hthread.awaiting _ phase submission' hsub'
    refine ⟨seen ++ [e], by rw [hsplit, List.append_assoc]; rfl, fun e' he' => ?_⟩
    rcases List.mem_append.mp he' with he' | he'
    · exact hseen e' he'
    · rw [List.mem_singleton.mp he']
      exact ((isSignaled_iff _ _).mp signaled).resolve_right (h.unfailed e.1)
  | wake phase =>
    refine h.enter phase nofun nofun (List.Subset.refl _) h.own nofun fun flags rest hp => ?_
    obtain ⟨rfl, rfl⟩ := Phase.reading.inj hp
    obtain ⟨seen, hsplit, hseen⟩ := hthread.awaiting _ phase submission hsub
    rw [List.append_nil] at hsplit
    exact ⟨rfl, hsplit ▸ hseen⟩
  | @read flags e rest phase =>
    refine h.enter phase nofun nofun (List.Subset.refl _) h.own nofun fun flags' rest' hp => ?_
    obtain ⟨rfl, rfl⟩ := Phase.reading.inj hp
    obtain ⟨hok, hrest⟩ := hthread.reading _ _ phase
    exact ⟨(result_read_ok_iff _ _ _).mpr ⟨hok, hreached (hrest e List.mem_cons_self)⟩,
      fun e' he' => hrest e' (List.mem_cons_of_mem _ he')⟩
  | grant phase ok => exact h.enter phase nofun nofun (List.Subset.refl _) h.own nofun nofun
  | begin phase =>
    exact h.enter phase nofun nofun (List.subset_cons_self _ _)
      ⟨fun j hj => (hthread.returned j hj).1, h.own⟩ nofun nofun
  | finish phase replay =>
    have hpending : pending (program t) ⟨(s.threads t).next, .signaling submission.signals⟩
        = pending (program t) (s.threads t) := by
      have hnot : ∀ rest, (s.threads t).phase ≠ .signaling rest := by
        rw [phase]
        exact fun _ => nofun
      rw [pending_of_ne hnot, signalsOf_drop hsub]
      rfl
    refine h.goto hpending (List.subset_cons_self _ _) ⟨trivial, h.own⟩
      ⟨hthread.next_le, fun k hk => ?_, nofun, nofun, fun rest hp => ?_⟩
    · obtain ⟨hended, hsignals⟩ := hthread.returned k hk
      exact ⟨List.mem_cons_of_mem _ hended, hsignals⟩
    · obtain rfl := Phase.signaling.inj hp
      exact ⟨List.mem_cons_self, fun submission' hsub' => ⟨[], by rw [hthis _ hsub', List.nil_append],
        nofun⟩⟩
  | signal phase due => exact h.signal hone hsub phase due
  | done phase =>
    obtain ⟨hended, hsplit⟩ := hthread.signaling _ phase
    obtain ⟨done, hdone, hreached⟩ := hsplit submission hsub
    rw [List.append_nil] at hdone
    have hpending : pending (program t) (s.threads t)
        = signalsOf ((program t).drop ((s.threads t).next + 1)) := by
      rw [pending, phase]
      rfl
    refine h.goto hpending.symm (List.Subset.refl _) h.own ⟨hlt, fun k hk => ?_, nofun, nofun, nofun⟩
    rcases Nat.lt_succ_iff_lt_or_eq.mp hk with hk | rfl
    · exact hthread.returned k hk
    · refine ⟨hended, fun submission' hsub' => ?_⟩
      rw [hthis _ hsub', hdone]
      exact hreached
  | giveUp reason =>
    exfalso
    rcases reason with ⟨-, e, -, hfailed⟩ | ⟨flags, phase, hnot⟩ | ⟨-, hreplay⟩ | ⟨e, rest, phase, hdue⟩
    · exact h.unfailed e.1 hfailed
    · exact hnot (hthread.reading _ _ phase).1
    · exact hreplay (hone.replays t submission (List.mem_of_getElem? hsub))
    · refine hdue (h.due t e ?_)
      rw [pending, phase]
      exact List.mem_cons_self

/-- So it holds in every run. -/
theorem progressInv_run (hone : OneProducer program sems₀) {schedule : List τ}
    (hrun : run (execute program) schedule (.initial sems₀) = some s) :
    ProgressInv program sems₀ s := by
  refine run_invariant (V := fun _ => True) (fun s₁ t s₂ h _ hstep => ?_) (progressInv_initial hone)
    (fun _ _ => trivial) hrun
  obtain ⟨submission, hsub, hexec⟩ := execute_eq_some hstep
  exact h.executes hone hsub hexec

omit [DecidableEq τ] [DecidableEq ι] in
/-- A state in which every thread is through is complete. -/
theorem ProgressInv.complete (h : ProgressInv program sems₀ s)
    (hnext : ∀ t, (s.threads t).next = (program t).length) : Complete program s where
  returned := hnext
  replayed t k hk := ((h.threads t).returned k (hnext t ▸ hk)).1
  reached t submission hmem e he := by
    obtain ⟨k, hk, rfl⟩ := List.getElem_of_mem hmem
    exact ⟨h.unfailed e.1, ((h.threads t).returned k (hnext t ▸ hk)).2 _
      (List.getElem?_eq_getElem hk) e he⟩

/-! ### Going on -/

omit [DecidableEq τ] in
/-- A thread waits for a semaphore, or has a next step. -/
theorem execute_isSome [DecidableEq τ] {t : τ} {submission : Submission ι ε}
    (hsub : (program t)[(s.threads t).next]? = some submission)
    (hwake : ∀ e rest, (s.threads t).phase = .awaiting (e :: rest) → isSignaled (s.sems e.1) e.2 = true) :
    ∃ s', execute program s t = some s' := by
  unfold execute
  simp only [hsub]
  cases hphase : (s.threads t).phase with
  | called =>
    dsimp only
    split
    · exact ⟨_, rfl⟩
    · split
      · exact ⟨_, rfl⟩
      · split <;> exact ⟨_, rfl⟩
    · exact ⟨_, rfl⟩
  | awaiting rest =>
    cases rest with
    | nil => exact ⟨_, rfl⟩
    | cons e rest => exact ⟨_, if_pos (hwake e rest hphase)⟩
  | reading flags rest =>
    cases rest with
    | nil =>
      dsimp only
      split <;> exact ⟨_, rfl⟩
    | cons e rest => exact ⟨_, rfl⟩
  | granted => exact ⟨_, rfl⟩
  | replaying =>
    dsimp only
    split <;> exact ⟨_, rfl⟩
  | signaling rest =>
    cases rest with
    | nil => exact ⟨_, rfl⟩
    | cons e rest =>
      dsimp only
      split <;> exact ⟨_, rfl⟩

/-- **An order of the submissions** leaves no thread waiting forever. -/
theorem exists_execute_of_schedule {order : List (τ × Nat)} (horder : Schedule program sems₀ order)
    (h : ProgressInv program sems₀ s) (hnot : ¬ Complete program s) :
    ∃ t s', execute program s t = some s' := by
  obtain ⟨t₀, ht₀⟩ := not_forall.mp (mt h.complete hnot)
  have hlt₀ : (s.threads t₀).next < (program t₀).length :=
    Nat.lt_of_le_of_ne (h.threads t₀).next_le ht₀
  -- the first submission of the order that has not returned
  let unreturned : τ × Nat → Bool := fun e =>
    decide ((s.threads e.1).next ≤ e.2 ∧ e.2 < (program e.1).length)
  have hsome : (order.find? unreturned).isSome := by
    refine List.find?_isSome.mpr ⟨_, horder.all t₀ _ hlt₀, ?_⟩
    exact decide_eq_true ⟨Nat.le_refl _, hlt₀⟩
  obtain ⟨⟨t, k⟩, hfind⟩ := Option.isSome_iff_exists.mp hsome
  obtain ⟨hfirst, before, after, hsplit, hbefore⟩ := List.find?_eq_some_iff_append.mp hfind
  obtain ⟨hle, hlt⟩ := of_decide_eq_true hfirst
  have hreturned : ∀ t' k', (t', k') ∈ before → k' < (program t').length →
      k' < (s.threads t').next := by
    intro t' k' hmem hlt'
    have hno : k' < (s.threads t').next ∨ (program t').length ≤ k' := by
      simpa [unreturned] using hbefore (t', k') hmem
    exact hno.resolve_right (Nat.not_le.mpr hlt')
  obtain ⟨hthread, hwaits⟩ := horder.behind before t k after hsplit
  have hnext : (s.threads t).next = k := by
    by_contra hne
    have hlt' : (s.threads t).next < k := Nat.lt_of_le_of_ne hle hne
    exact Nat.lt_irrefl _ (hreturned t _ (hthread _ hlt') (Nat.lt_trans hlt' hlt))
  have hsub : (program t)[k]? = some (program t)[k] := List.getElem?_eq_getElem hlt
  have hwaited : ∀ e ∈ (program t)[k].waits, e.2 ≤ (s.sems e.1).currentValue := by
    intro e he
    rcases hwaits _ hsub e he with hinit | ⟨t', k', submission', hmem, hsub', d, hd, hde, hle'⟩
    · exact UInt64.le_trans hinit (h.grown e.1)
    · have hk' := hreturned t' k' hmem (List.getElem?_eq_some_iff.mp hsub').1
      have hd' := ((h.threads t').returned k' hk').2 submission' hsub' d hd
      exact UInt64.le_trans hle' (hde ▸ hd')
  obtain ⟨s', hs'⟩ := execute_isSome (by rw [hnext]; exact hsub) fun e rest hphase => by
    obtain ⟨seen, hsplit, -⟩ := (h.threads t).awaiting _ hphase _ (by rw [hnext]; exact hsub)
    exact (isSignaled_iff _ _).mpr (.inl (hwaited e (by simp [hsplit])))
  exact ⟨t, s', hs'⟩

/-! ### Less to do -/

/-- The steps of a call that are left at most. -/
def Phase.work (submission : Submission ι ε) : Phase ι → Nat
  | .called => 2 * submission.waits.length + submission.signals.length + 6
  | .awaiting rest => rest.length + submission.waits.length + submission.signals.length + 5
  | .reading _ rest => rest.length + submission.signals.length + 4
  | .granted => submission.signals.length + 3
  | .replaying => submission.signals.length + 2
  | .signaling rest => rest.length + 1

/-- The steps of some submissions. -/
def work : HostProgram ι ε → Nat
  | [] => 0
  | submission :: rest => Phase.called.work submission + work rest

/-- The steps of a thread that are left at most. -/
def remaining (program : HostProgram ι ε) (thread : HostThread ι) : Nat :=
  match program.drop thread.next with
  | [] => 0
  | submission :: rest => thread.phase.work submission + work rest

omit [DecidableEq τ] [DecidableEq ι] in
/-- A thread that calls has all the work of its submissions left. -/
theorem remaining_called (program : HostProgram ι ε) (k : Nat) :
    remaining program ⟨k, .called⟩ = work (program.drop k) := by
  unfold remaining
  cases program.drop k <;> rfl

omit [DecidableEq τ] [DecidableEq ι] in
/-- What is left, from the phase of a submission on. -/
theorem remaining_eq {program : HostProgram ι ε} {k : Nat} {submission : Submission ι ε}
    (h : program[k]? = some submission) (phase : Phase ι) :
    remaining program ⟨k, phase⟩ = phase.work submission + work (program.drop (k + 1)) := by
  obtain ⟨hlt, rfl⟩ := List.getElem?_eq_some_iff.mp h
  rw [remaining, List.drop_eq_getElem_cons hlt]

/-- A step of a thread. -/
theorem remaining_executes {s' : DeviceState τ ι ε} {t : τ} {submission : Submission ι ε}
    (hsub : (program t)[(s.threads t).next]? = some submission)
    (hstep : Executes program s t submission s') :
    remaining (program t) (s'.threads t) < remaining (program t) (s.threads t) ∧
      ∀ t', t' ≠ t → s'.threads t' = s.threads t' := by
  have hold : remaining (program t) (s.threads t) = (s.threads t).phase.work submission
      + work ((program t).drop ((s.threads t).next + 1)) := remaining_eq hsub _
  have henter : ∀ phase', phase'.work submission < (s.threads t).phase.work submission →
      remaining (program t) ((s.enter t phase').threads t) < remaining (program t) (s.threads t) ∧
        ∀ t', t' ≠ t → (s.enter t phase').threads t' = s.threads t' := by
    intro phase' hlt
    rw [s.enter_self, remaining_eq hsub]
    exact ⟨by omega, fun t' hne => s.goto_of_ne hne _⟩
  have hleave : 0 < (s.threads t).phase.work submission →
      remaining (program t) ((s.leave t).threads t) < remaining (program t) (s.threads t) ∧
        ∀ t', t' ≠ t → (s.leave t).threads t' = s.threads t' := by
    intro hlt
    rw [DeviceState.leave, s.goto_self, remaining_called]
    exact ⟨by omega, fun t' hne => s.goto_of_ne hne _⟩
  cases hstep with
  | pass phase reached => exact henter _ (by simp only [phase, Phase.work]; omega)
  | await phase => exact henter _ (by simp only [phase, Phase.work]; omega)
  | test phase signaled => exact henter _ (by simp only [phase, Phase.work, List.length_cons]; omega)
  | wake phase => exact henter _ (by simp only [phase, Phase.work, List.length_nil]; omega)
  | read phase => exact henter _ (by simp only [phase, Phase.work, List.length_cons]; omega)
  | grant phase ok => exact henter _ (by simp only [phase, Phase.work, List.length_nil]; omega)
  | begin phase => exact henter _ (by simp only [phase, Phase.work]; omega)
  | finish phase replay => exact henter _ (by simp only [phase, Phase.work]; omega)
  | signal phase due => exact henter _ (by simp only [phase, Phase.work, List.length_cons]; omega)
  | done phase => exact hleave (by simp only [phase, Phase.work]; omega)
  | giveUp reason =>
    refine hleave ?_
    rcases reason with ⟨phase, -⟩ | ⟨flags, phase, -⟩ | ⟨phase, -⟩ | ⟨e, rest, phase, -⟩
    all_goals
      simp only [phase, Phase.work]
      omega

/-- The steps of all threads that are left. -/
def total [Fintype τ] (program : τ → HostProgram ι ε) (s : DeviceState τ ι ε) : Nat :=
  ∑ t, remaining (program t) (s.threads t)

/-- **Every step takes some of the work away.** -/
theorem total_execute [Fintype τ] {s' : DeviceState τ ι ε} {t : τ}
    (hstep : execute program s t = some s') : total program s' < total program s := by
  obtain ⟨submission, hsub, hexec⟩ := execute_eq_some hstep
  obtain ⟨hlt, hother⟩ := remaining_executes hsub hexec
  refine Finset.sum_lt_sum (fun t' _ => ?_) ⟨t, Finset.mem_univ t, hlt⟩
  by_cases heq : t' = t
  · exact heq ▸ Nat.le_of_lt hlt
  · rw [hother t' heq]

/-- Every run can be continued until no thread has a next step. -/
theorem exists_maximal_run [Fintype τ] (program : τ → HostProgram ι ε) :
    ∀ s : DeviceState τ ι ε, ∃ schedule s', run (execute program) schedule s = some s' ∧
      ∀ t, execute program s' t = none := by
  intro s
  induction h : total program s using Nat.strong_induction_on generalizing s with
  | _ n ih =>
    by_cases hstuck : ∀ t, execute program s t = none
    · exact ⟨[], s, rfl, hstuck⟩
    · obtain ⟨t, ht⟩ := not_forall.mp hstuck
      obtain ⟨s₁, hs₁⟩ := Option.ne_none_iff_exists'.mp ht
      obtain ⟨schedule, s', hrun, hend⟩ := ih _ (h ▸ total_execute hs₁) s₁ rfl
      exact ⟨t :: schedule, s', run_cons_eq_some.mpr ⟨s₁, hs₁, hrun⟩, hend⟩

/-! ### The order of a run -/

/-- The submission whose replay begins. -/
def Event.replay? : Event τ ι → Option (τ × Nat)
  | .began t k => some (t, k)
  | _ => none

omit [DecidableEq τ] [DecidableEq ι] in
/-- The replays in a history. -/
theorem Event.mem_replays {past : List (Event τ ι)} {t : τ} {k : Nat} :
    (t, k) ∈ past.filterMap Event.replay? ↔ Event.began t k ∈ past := by
  rw [List.mem_filterMap]
  constructor
  · rintro ⟨event, hmem, heq⟩
    cases event with
    | began t' k' =>
      obtain ⟨rfl, rfl⟩ := Prod.mk.inj (Option.some.inj heq)
      exact hmem
    | ended | signaled => cases heq
  · intro hmem
    exact ⟨_, hmem, rfl⟩

omit [DecidableEq τ] [DecidableEq ι] in
/-- A replay that has ended has begun. -/
theorem SubmitInv.began_of_ended (h : SubmitInv program sems₀ s) {later past : List (Event τ ι)}
    (hsplit : s.history = later ++ past) {t : τ} {k : Nat} (hended : Event.ended t k ∈ past) :
    Event.began t k ∈ past := by
  obtain ⟨later', past', rfl⟩ := List.append_of_mem hended
  have hjust : Event.Justified program sems₀ past' (.ended t k) :=
    throughout_iff.mp h.justified (later ++ later') _ past' (by rw [hsplit, List.append_assoc])
  exact List.mem_append_right _ (List.mem_cons_of_mem _ hjust.1)

omit [DecidableEq τ] [DecidableEq ι] in
/-- **The replays of a complete run** are an order of the submissions. -/
theorem schedule_of_complete (hsubmit : SubmitInv program sems₀ s) (h : ProgressInv program sems₀ s)
    (hcomplete : Complete program s) :
    Schedule program sems₀ (s.history.filterMap Event.replay?).reverse where
  all t k hk := by
    rw [List.mem_reverse, Event.mem_replays]
    exact hsubmit.began_of_ended (List.nil_append _).symm (hcomplete.replayed t k hk)
  behind before t k after hsplit := by
    -- the place of the replay in the history
    have hreplays : s.history.filterMap Event.replay? = after.reverse ++ (t, k) :: before.reverse := by
      rw [← List.reverse_inj, hsplit]
      simp
    obtain ⟨later, rest, hhistory, -, hrest⟩ := List.filterMap_eq_append_iff.mp hreplays
    obtain ⟨between, event, past, rfl, -, hevent, hpast⟩ := List.filterMap_eq_cons_iff.mp hrest
    obtain rfl : event = .began t k := by
      cases event with
      | began t' k' =>
        obtain ⟨rfl, rfl⟩ := Prod.mk.inj (Option.some.inj hevent)
        rfl
      | ended | signaled => cases hevent
    have hplace : s.history = (later ++ between) ++ Event.began t k :: past := by
      rw [hhistory, List.append_assoc]
    have hbehind : s.history = (later ++ between ++ [Event.began t k]) ++ past := by
      rw [hplace, List.append_assoc _ [_]]
      rfl
    have hbefore : ∀ {t' k'}, Event.ended t' k' ∈ past → (t', k') ∈ before := by
      intro t' k' hended
      rw [← List.mem_reverse, ← hpast, Event.mem_replays]
      exact hsubmit.began_of_ended hbehind hended
    have hown : Event.Own past (.began t k) := throughout_iff.mp h.own _ _ past hplace
    have hjust : Event.Justified program sems₀ past (.began t k) :=
      throughout_iff.mp hsubmit.justified _ _ past hplace
    refine ⟨fun j hj => hbefore (hown j hj), fun submission hsub e he => ?_⟩
    obtain ⟨-, submission', hsub', hwaits⟩ := hjust
    obtain rfl := Option.some.inj (hsub'.symm.trans hsub)
    refine (hwaits e he).imp_right ?_
    rintro ⟨sender, payload, hsignaled, hle⟩
    -- the signal comes from a submission, behind its replay
    obtain ⟨later', past', rfl⟩ := List.append_of_mem hsignaled
    have hsignal : s.history = (later ++ between ++ [Event.began t k] ++ later') ++
        Event.signaled sender e.1 payload :: past' := hbehind.trans (List.append_assoc _ _ _).symm
    have hsome : sender.isSome := throughout_iff.mp h.own _ _ past' hsignal
    obtain ⟨⟨t', k'⟩, rfl⟩ := Option.isSome_iff_exists.mp hsome
    have hsent : Event.Justified program sems₀ past' (.signaled (some (t', k')) e.1 payload) :=
      throughout_iff.mp hsubmit.justified _ _ past' hsignal
    obtain ⟨hended, submission'', hsub'', hmem⟩ := hsent
    exact ⟨t', k', submission'', hbefore (List.mem_append_right _ (List.mem_cons_of_mem _ hended)),
      hsub'', (e.1, payload), hmem, rfl, hle⟩

/-- The invariant of submissions holds in every run. -/
theorem submitInv_run {schedule : List τ}
    (hrun : run (execute program) schedule (.initial sems₀) = some s) :
    SubmitInv program sems₀ s := by
  refine run_invariant (V := fun _ => True) (fun s₁ t s₂ h _ hstep => ?_)
    (submitInv_initial program sems₀) (fun _ _ => trivial) hrun
  obtain ⟨submission, hsub, hexec⟩ := execute_eq_some hstep
  exact h.executes hsub hexec

/-- **Whether all submissions complete** does not depend on the interleaving: they do in every run
    that is not cut short, or in none, and they do when they have an order. -/
theorem completes_tfae [Fintype τ] (hone : OneProducer program sems₀) :
    [∃ order, Schedule program sems₀ order,
      ∀ schedule s, run (execute program) schedule (.initial sems₀) = some s →
        (∀ t, execute program s t = none) → Complete program s,
      ∃ schedule s, run (execute program) schedule (.initial sems₀) = some s ∧
        Complete program s].TFAE := by
  tfae_have 1 → 2 := by
    rintro ⟨order, horder⟩ schedule s hrun hstuck
    by_contra hnot
    obtain ⟨t, s', hstep⟩ := exists_execute_of_schedule horder (progressInv_run hone hrun) hnot
    rw [hstuck t] at hstep
    cases hstep
  tfae_have 2 → 3 := by
    intro h
    obtain ⟨schedule, s, hrun, hstuck⟩ := exists_maximal_run program (.initial sems₀)
    exact ⟨schedule, s, hrun, h schedule s hrun hstuck⟩
  tfae_have 3 → 1 := by
    rintro ⟨schedule, s, hrun, hcomplete⟩
    exact ⟨_, schedule_of_complete (submitInv_run hrun) (progressInv_run hone hrun) hcomplete⟩
  tfae_finish

end Step

/-! ### Two threads that wait for each other -/

/-- The first thread signals, and waits for the answer of the second one. -/
def askAndAnswer : Bool → HostProgram Bool Unit
  | false => [⟨[], none, [(false, 1)]⟩, ⟨[(true, 1)], none, []⟩]
  | true => [⟨[(false, 1)], none, [(true, 1)]⟩]

/-- Every value has one producer. -/
theorem askAndAnswer_oneProducer : OneProducer askAndAnswer fun _ => ⟨0, none⟩ where
  ascending t := by cases t <;> exact List.pairwise_singleton _ _
  above t e he := by
    cases t
    all_goals
      obtain rfl := List.mem_singleton.mp he
      decide
  separate t t' hne d hd e he := by
    cases t with
    | false =>
      cases t' with
      | false => exact absurd rfl hne
      | true =>
        rw [List.mem_singleton.mp hd, List.mem_singleton.mp he]
        decide
    | true =>
      cases t' with
      | false =>
        rw [List.mem_singleton.mp hd, List.mem_singleton.mp he]
        decide
      | true => exact absurd rfl hne
  unfailed i := by decide
  replays t submission hmem := by
    cases t with
    | false => rcases List.mem_pair.mp hmem with rfl | rfl <;> rfl
    | true => rw [List.mem_singleton.mp hmem]

/-- They complete if and only if they can be ordered. -/
theorem askAndAnswer_completes_iff :
    (∃ order, Schedule askAndAnswer (fun _ => ⟨0, none⟩) order) ↔
      ∀ schedule s, run (execute askAndAnswer) schedule (.initial fun _ => ⟨0, none⟩) = some s →
        (∀ t, execute askAndAnswer s t = none) → Complete askAndAnswer s :=
  (completes_tfae askAndAnswer_oneProducer).out 0 1

end CoralNPU.Driver
