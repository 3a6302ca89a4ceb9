import CoralNPU.Driver.Semaphore
import CoralNPU.Lib.Steps

namespace CoralNPU.Driver

open Lib

/-!
# Semaphores under any interleaving

Threads that signal, fail and wait, one critical section at a time.

* `Call`, `Waiter` — what a thread can begin; `Pc` — where a thread is in it.  A waiter is a
  thread in `iree_notification_await`: it takes a token, tests its condition one semaphore at a
  time, and sleeps until the notification has been posted since.
* `Pc.advance`, `Effect` — the next step of a thread, and what it does to what the threads share.
* `System`, `step` — the shared state with the threads.  An interleaving is a list of actions.
* `Inv`, `inv_step` — the invariant and the step lemma.
* `semaphores_monotone` — what holds in every state of every interleaving.

Between its critical section and its post a thread notifies the timepoints of the semaphore;
that step touches nothing that is modelled.
-/

variable {ι ε : Type} {failureValue : UInt64}

/-! ### Threads -/

/-- The calls that change semaphores. -/
inductive Call (ι ε : Type)
  | signal (semaphore : ι) (newValue : UInt64)
  | fail (semaphore : ι) (status : Option ε)
  | multiSignal (list : SemaphoreList ι)

/-- What a waiter waits for. -/
structure Waiter (ι : Type) where
  mode : WaitMode
  list : SemaphoreList ι

/-- Where a thread is. -/
inductive Pc (ι ε : Type)
  /-- In no call.  `returned` is the status of the last one, if it returned one. -/
  | idle (returned : Option Status)
  /-- Before the critical section of `iree_hal_coralnpu_semaphore_signal`. -/
  | signal (semaphore : ι) (newValue : UInt64)
  /-- Before the critical section of `iree_hal_coralnpu_semaphore_fail`. -/
  | fail (semaphore : ι) (status : Option ε)
  /-- The loop of `iree_hal_coralnpu_semaphore_multi_signal`. -/
  | multiSignal (rest : SemaphoreList ι)
  /-- Before `iree_notification_post`, with the status to return. -/
  | post (status : Option Status)
  /-- In `iree_notification_await`: before the token is taken, testing the condition, asleep. -/
  | prepareWait (waiter : Waiter ι)
  | checkWait (waiter : Waiter ι) (token : Nat) (rest : SemaphoreList ι)
  | asleep (waiter : Waiter ι) (token : Nat)

/-- What a step of a thread does to the shared state. -/
inductive Effect (ι ε : Type)
  | nothing
  | change (semaphore : ι) (new : Semaphore ε)
  | post

/-- Where a call begins. -/
def Call.start : Call ι ε → Pc ι ε
  | .signal i v => .signal i v
  | .fail i status => .fail i status
  | .multiSignal [] => .idle (some .ok)
  -- the fast path for a single semaphore
  | .multiSignal [(i, v)] => .signal i v
  | .multiSignal list => .multiSignal list

/-- The step of a waiter that tests its next semaphore. -/
def Waiter.check (w : Waiter ι) (token : Nat) (signaled : Bool) (rest : SemaphoreList ι) :
    Pc ι ε :=
  match w.mode with
  | .any => if signaled then .idle none else .checkWait w token rest
  | .all => if signaled then .checkWait w token rest else .asleep w token

/-- The next step of a thread; `none` when it has none. -/
def Pc.advance (failureValue : UInt64) (sems : Semaphores ι ε) (epoch : Nat) :
    Pc ι ε → Option (Pc ι ε × Effect ι ε)
  | .idle _ => none
  | .signal i v =>
    match (sems i).signalUnsafe v with
    | (new, .ok) => some (.post (some .ok), .change i new)
    | (_, status) => some (.idle (some status), .nothing)
  | .fail i status =>
    match (sems i).failSection failureValue status with
    | (new, true) => some (.post none, .change i new)
    | (_, false) => some (.idle none, .nothing)
  | .multiSignal [] => some (.post (some .ok), .nothing)
  | .multiSignal ((i, v) :: rest) =>
    match (sems i).signalUnsafe v with
    | (new, .ok) => some (.multiSignal rest, .change i new)
    | (_, status) => some (.post (some status), .nothing)
  | .post status => some (.idle status, .post)
  | .prepareWait w => some (.checkWait w epoch w.list, .nothing)
  | .checkWait w token [] =>
    match w.mode with
    | .any => some (.asleep w token, .nothing)
    | .all => some (.idle none, .nothing)
  | .checkWait w token ((i, v) :: rest) =>
    some (w.check token (isSignaled (sems i) v) rest, .nothing)
  | .asleep w token => if epoch = token then none else some (.prepareWait w, .nothing)

/-! ### The system -/

/-- A thread.  `unposted` records that its call has changed a semaphore and has not posted the
    notification since. -/
structure Thread (ι ε : Type) where
  pc : Pc ι ε
  unposted : Bool

/-- The semaphores, the number of posts of the shared notification, and the threads. -/
structure System (ι ε : Type) where
  sems : Semaphores ι ε
  epoch : Nat
  threads : Nat → Thread ι ε

/-- What can happen next: a thread begins a call or a wait, goes on, or gives up waiting. -/
inductive Action (ι ε : Type)
  | call (thread : Nat) (call : Call ι ε)
  | wait (thread : Nat) (waiter : Waiter ι)
  | advance (thread : Nat)
  | timeout (thread : Nat)

section Step

variable [DecidableEq ι]

/-- The system with thread `t` at `pc`, after an effect of it. -/
def System.apply (s : System ι ε) (t : Nat) (pc : Pc ι ε) : Effect ι ε → System ι ε
  | .nothing =>
    { s with threads := Function.update s.threads t { (s.threads t) with pc } }
  | .change i new =>
    { s with
      sems := Function.update s.sems i new
      threads := Function.update s.threads t { pc, unposted := true } }
  | .post =>
    { s with
      epoch := s.epoch + 1
      threads := Function.update s.threads t { pc, unposted := false } }

/-- One action. -/
def step (failureValue : UInt64) (s : System ι ε) : Action ι ε → Option (System ι ε)
  | .call t c =>
    match (s.threads t).pc with
    | .idle _ => some (s.apply t c.start .nothing)
    | _ => none
  | .wait t w =>
    match (s.threads t).pc with
    | .idle _ => some (s.apply t (.prepareWait w) .nothing)
    | _ => none
  | .advance t =>
    ((s.threads t).pc.advance failureValue s.sems s.epoch).map fun next =>
      s.apply t next.1 next.2
  | .timeout t =>
    match (s.threads t).pc with
    | .asleep _ _ => some (s.apply t (.idle none) .nothing)
    | _ => none

end Step

/-- The payloads of a call are below the failure value, and what it fails with is not OK. -/
def Call.Valid (failureValue : UInt64) : Call ι ε → Prop
  | .signal _ v => v < failureValue
  | .fail _ status => status.isSome
  | .multiSignal list => ∀ e ∈ list, e.2 < failureValue

/-- Only valid calls are made. -/
def Action.Valid (failureValue : UInt64) : Action ι ε → Prop
  | .call _ c => c.Valid failureValue
  | _ => True

/-- A system before the first call. -/
structure System.Initial (failureValue : UInt64) (s : System ι ε) : Prop where
  value : ∀ i, (s.sems i).currentValue < failureValue
  status : ∀ i, (s.sems i).failureStatus = none
  idle : ∀ t, (s.threads t).pc = .idle none
  posted : ∀ t, (s.threads t).unposted = false

/-! ### What a thread step can do -/

/-- A thread here posts the notification before it returns. -/
def Pc.WillPost : Pc ι ε → Prop
  | .multiSignal _ | .post _ => True
  | _ => False

/-- The payloads that a thread carries are below the failure value. -/
def Pc.Valid (failureValue : UInt64) : Pc ι ε → Prop
  | .signal _ v => v < failureValue
  | .fail _ status => status.isSome
  | .multiSignal rest => ∀ e ∈ rest, e.2 < failureValue
  | _ => True

theorem Call.start_valid {c : Call ι ε} (h : c.Valid failureValue) :
    c.start.Valid failureValue := by
  cases c with
  | signal i v => exact h
  | fail i status => exact h
  | multiSignal list =>
    rcases list with _ | ⟨e, _ | ⟨e', list⟩⟩
    · exact trivial
    · exact h e (by simp)
    · exact h

/-- What a thread step does to the semaphores, and where the thread is then. -/
structure AdvanceSpec (failureValue : UInt64) (sems : Semaphores ι ε) (pc pc' : Pc ι ε)
    (effect : Effect ι ε) : Prop where
  valid : pc'.Valid failureValue
  /-- A change keeps the invariant of the semaphore, and the thread will post it. -/
  change : ∀ i new, effect = .change i new →
    (new.Valid failureValue ∧ (sems i).LE new) ∧ pc'.WillPost
  /-- A thread that will post goes on until it does. -/
  nothing : effect = .nothing → pc.WillPost → pc'.WillPost

/-- **The steps of a thread.** -/
theorem Pc.advance_spec {sems : Semaphores ι ε} {epoch : Nat} {pc pc' : Pc ι ε}
    {effect : Effect ι ε} (hsems : ∀ i, (sems i).Valid failureValue)
    (hpc : pc.Valid failureValue)
    (h : pc.advance failureValue sems epoch = some (pc', effect)) :
    AdvanceSpec failureValue sems pc pc' effect := by
  cases pc with
  | idle returned => cases h
  | signal i v =>
    have hvalid := Semaphore.signalUnsafe_valid (hsems i) hpc
    simp only [advance] at h
    split at h
    next new hnew =>
      rw [hnew] at hvalid
      obtain ⟨rfl, rfl⟩ := Prod.mk.inj (Option.some.inj h)
      refine ⟨trivial, fun j new' he => ?_, fun _ _ => trivial⟩
      obtain ⟨rfl, rfl⟩ := Effect.change.inj he
      exact ⟨hvalid, trivial⟩
    next =>
      obtain ⟨rfl, rfl⟩ := Prod.mk.inj (Option.some.inj h)
      exact ⟨trivial, nofun, fun _ hpost => hpost.elim⟩
  | fail i status =>
    have hvalid := Semaphore.failSection_valid (hsems i) hpc
    simp only [advance] at h
    split at h
    next new hnew =>
      rw [hnew] at hvalid
      obtain ⟨rfl, rfl⟩ := Prod.mk.inj (Option.some.inj h)
      refine ⟨trivial, fun j new' he => ?_, fun _ _ => trivial⟩
      obtain ⟨rfl, rfl⟩ := Effect.change.inj he
      exact ⟨hvalid, trivial⟩
    next =>
      obtain ⟨rfl, rfl⟩ := Prod.mk.inj (Option.some.inj h)
      exact ⟨trivial, nofun, fun _ hpost => hpost.elim⟩
  | multiSignal rest =>
    rcases rest with _ | ⟨⟨i, v⟩, rest⟩
    · obtain ⟨rfl, rfl⟩ := Prod.mk.inj (Option.some.inj h)
      exact ⟨trivial, nofun, fun _ _ => trivial⟩
    · have hvalid := Semaphore.signalUnsafe_valid (hsems i) (hpc (i, v) (by simp))
      simp only [advance] at h
      split at h
      next new hnew =>
        rw [hnew] at hvalid
        obtain ⟨rfl, rfl⟩ := Prod.mk.inj (Option.some.inj h)
        refine ⟨fun e he => hpc e (by simp [he]), fun j new' he => ?_, fun _ _ => trivial⟩
        obtain ⟨rfl, rfl⟩ := Effect.change.inj he
        exact ⟨hvalid, trivial⟩
      next =>
        obtain ⟨rfl, rfl⟩ := Prod.mk.inj (Option.some.inj h)
        exact ⟨trivial, nofun, fun _ _ => trivial⟩
  | post status =>
    obtain ⟨rfl, rfl⟩ := Prod.mk.inj (Option.some.inj h)
    exact ⟨trivial, nofun, nofun⟩
  | prepareWait w =>
    obtain ⟨rfl, rfl⟩ := Prod.mk.inj (Option.some.inj h)
    exact ⟨trivial, nofun, fun _ hpost => hpost.elim⟩
  | checkWait w token rest =>
    obtain ⟨mode, list⟩ := w
    rcases rest with _ | ⟨⟨i, v⟩, rest⟩
    · cases mode with
      | any =>
        obtain ⟨rfl, rfl⟩ := Prod.mk.inj (Option.some.inj h)
        exact ⟨trivial, nofun, fun _ hpost => hpost.elim⟩
      | all =>
        obtain ⟨rfl, rfl⟩ := Prod.mk.inj (Option.some.inj h)
        exact ⟨trivial, nofun, fun _ hpost => hpost.elim⟩
    · obtain ⟨rfl, rfl⟩ := Prod.mk.inj (Option.some.inj h)
      refine ⟨?_, nofun, fun _ hpost => hpost.elim⟩
      unfold Waiter.check
      cases mode <;> cases isSignaled (sems i) v <;> exact trivial
  | asleep w token =>
    simp only [advance] at h
    split at h
    · cases h
    · obtain ⟨rfl, rfl⟩ := Prod.mk.inj (Option.some.inj h)
      exact ⟨trivial, nofun, fun _ hpost => hpost.elim⟩

/-- A thread that will post is never blocked. -/
theorem Pc.WillPost.advance_isSome {sems : Semaphores ι ε} {epoch : Nat} {pc : Pc ι ε}
    (h : pc.WillPost) : (pc.advance failureValue sems epoch).isSome := by
  cases pc with
  | multiSignal rest =>
    rcases rest with _ | ⟨⟨i, v⟩, rest⟩
    · rfl
    · simp only [advance]
      split <;> rfl
  | post status => rfl
  | _ => exact h.elim

/-! ### Waiters -/

/-- Some call has changed a semaphore and has not posted the notification since. -/
def System.Unposted (s : System ι ε) : Prop := ∃ t, (s.threads t).unposted = true

/-- What is known about a waiter: unless a post is due or has been made since it took its token,
    the semaphores that it has found unsignaled are so, and if it sleeps then its condition does
    not hold. -/
def WaiterOk (s : System ι ε) : Pc ι ε → Prop
  | .checkWait w token rest => token ≤ s.epoch ∧ ∃ seen, w.list = seen ++ rest ∧
      (s.epoch = token → s.Unposted ∨
        (w.mode = .any → ∀ e ∈ seen, isSignaled (s.sems e.1) e.2 = false))
  | .asleep w token => token ≤ s.epoch ∧
      (s.epoch = token → s.Unposted ∨ wakeCondition w.mode s.sems w.list = false)
  | _ => True

/-- A waiter stays so while the semaphores and the notification do, or a post becomes due, or a
    post is made. -/
theorem WaiterOk.mono {s s' : System ι ε} {pc : Pc ι ε} (h : WaiterOk s pc)
    (hepoch : s.epoch ≤ s'.epoch)
    (hsame : s'.epoch = s.epoch → s'.Unposted ∨ (s'.sems = s.sems ∧ ¬ s.Unposted)) :
    WaiterOk s' pc := by
  cases pc with
  | checkWait w token rest =>
    obtain ⟨htoken, seen, hlist, hseen⟩ := h
    refine ⟨Nat.le_trans htoken hepoch, seen, hlist, fun heq => ?_⟩
    have heq' : s.epoch = token := by omega
    rcases hsame (by omega) with hun | ⟨hsems, hnot⟩
    · exact .inl hun
    · rw [hsems]
      exact .inr ((hseen heq').resolve_left hnot)
  | asleep w token =>
    obtain ⟨htoken, hasleep⟩ := h
    refine ⟨Nat.le_trans htoken hepoch, fun heq => ?_⟩
    have heq' : s.epoch = token := by omega
    rcases hsame (by omega) with hun | ⟨hsems, hnot⟩
    · exact .inl hun
    · rw [hsems]
      exact .inr ((hasleep heq').resolve_left hnot)
  | _ => trivial

/-- A waiter that finds its condition false goes to sleep only while the condition is false. -/
theorem waiterOk_advance {s : System ι ε} {pc pc' : Pc ι ε} {effect : Effect ι ε}
    (hok : WaiterOk s pc) (h : pc.advance failureValue s.sems s.epoch = some (pc', effect)) :
    WaiterOk s pc' := by
  cases pc with
  | idle returned => cases h
  | signal i v =>
    simp only [Pc.advance] at h
    split at h <;>
    · obtain ⟨rfl, rfl⟩ := Prod.mk.inj (Option.some.inj h)
      trivial
  | fail i status =>
    simp only [Pc.advance] at h
    split at h <;>
    · obtain ⟨rfl, rfl⟩ := Prod.mk.inj (Option.some.inj h)
      trivial
  | multiSignal rest =>
    rcases rest with _ | ⟨⟨i, v⟩, rest⟩
    · obtain ⟨rfl, rfl⟩ := Prod.mk.inj (Option.some.inj h)
      trivial
    · simp only [Pc.advance] at h
      split at h <;>
      · obtain ⟨rfl, rfl⟩ := Prod.mk.inj (Option.some.inj h)
        trivial
  | post status =>
    obtain ⟨rfl, rfl⟩ := Prod.mk.inj (Option.some.inj h)
    trivial
  | prepareWait w =>
    obtain ⟨rfl, rfl⟩ := Prod.mk.inj (Option.some.inj h)
    exact ⟨Nat.le_refl _, [], rfl, fun _ => .inr fun _ e he => by cases he⟩
  | checkWait w token rest =>
    obtain ⟨mode, list⟩ := w
    obtain ⟨htoken, seen, hlist, hseen⟩ := hok
    simp only at hlist hseen
    rcases rest with _ | ⟨⟨i, v⟩, rest⟩
    · cases mode with
      | all =>
        obtain ⟨rfl, rfl⟩ := Prod.mk.inj (Option.some.inj h)
        trivial
      | any =>
        -- every semaphore of the list was found unsignaled
        obtain ⟨rfl, rfl⟩ := Prod.mk.inj (Option.some.inj h)
        refine ⟨htoken, fun heq => (hseen heq).imp_right fun hall => ?_⟩
        rw [List.append_nil] at hlist
        rw [wakeCondition, ← Bool.not_eq_true, anySignaled_iff, hlist]
        rintro ⟨e, he, hsig⟩
        rw [hall rfl e he] at hsig
        cases hsig
    · obtain ⟨rfl, rfl⟩ := Prod.mk.inj (Option.some.inj h)
      cases hsig : isSignaled (s.sems i) v with
      | true =>
        cases mode with
        | any => trivial
        | all => exact ⟨htoken, seen ++ [(i, v)], by simp [hlist], fun _ => .inr nofun⟩
      | false =>
        cases mode with
        | any =>
          refine ⟨htoken, seen ++ [(i, v)], by simp [hlist], fun heq => ?_⟩
          refine (hseen heq).imp_right fun hall _ e he => ?_
          rcases List.mem_append.mp he with he | he
          · exact hall rfl e he
          · rw [List.mem_singleton.mp he]
            exact hsig
        | all =>
          -- one unsignaled semaphore is enough
          refine ⟨htoken, fun _ => .inr ?_⟩
          rw [wakeCondition, ← Bool.not_eq_true, allSignaled_iff]
          intro hall
          rw [hall (i, v) (by simp [hlist])] at hsig
          cases hsig
  | asleep w token =>
    simp only [Pc.advance] at h
    split at h
    · cases h
    · obtain ⟨rfl, rfl⟩ := Prod.mk.inj (Option.some.inj h)
      trivial

/-! ### The invariant -/

/-- What holds in every state of a system: of the semaphores, and of each thread. -/
structure Inv (failureValue : UInt64) (s : System ι ε) : Prop where
  sems : ∀ i, (s.sems i).Valid failureValue
  payloads : ∀ t, (s.threads t).pc.Valid failureValue
  /-- A change that has not been posted is posted by its thread. -/
  posts : ∀ t, (s.threads t).unposted = true → (s.threads t).pc.WillPost
  waiters : ∀ t, WaiterOk s (s.threads t).pc

theorem inv_initial {s : System ι ε} (h : s.Initial failureValue) : Inv failureValue s := by
  refine ⟨fun i => ⟨?_, UInt64.le_of_lt (h.value i)⟩, fun t => ?_, fun t ht => ?_, fun t => ?_⟩
  · have hne := UInt64.ne_of_lt (h.value i)
    simp [hne, Failed, h.status i]
  · rw [h.idle t]
    trivial
  · rw [h.posted t] at ht
    cases ht
  · rw [h.idle t]
    trivial

variable [DecidableEq ι]

section Apply

variable {s : System ι ε} {t : Nat} {pc : Pc ι ε}

/-- The waiters after an effect of thread `t`: the others by `WaiterOk.mono`, thread `t` as
    given. -/
theorem waiters_apply {effect : Effect ι ε} (h : Inv failureValue s)
    (hpc : WaiterOk s pc) : ∀ u, WaiterOk (s.apply t pc effect)
      ((s.apply t pc effect).threads u).pc := by
  -- every waiter of the old state is one of the new state
  have hkeep : ∀ pc', WaiterOk s pc' → WaiterOk (s.apply t pc effect) pc' := by
    intro pc' hok
    cases effect with
    | nothing =>
      apply hok.mono (show s.epoch ≤ (s.apply t pc .nothing).epoch from Nat.le_refl _)
      intro _
      by_cases hun : s.Unposted
      · obtain ⟨u, hu⟩ := hun
        refine .inl ⟨u, ?_⟩
        simp only [System.apply, Function.update_apply]
        split
        next heq => exact heq ▸ hu
        next => exact hu
      · exact .inr ⟨rfl, hun⟩
    | change i new =>
      apply hok.mono (show s.epoch ≤ (s.apply t pc (.change i new)).epoch from Nat.le_refl _)
      exact fun _ => .inl ⟨t, by simp [System.apply]⟩
    | post =>
      apply hok.mono (show s.epoch ≤ (s.apply t pc .post).epoch from Nat.le_succ _)
      intro heq
      simp [System.apply] at heq
  intro u
  have hthread : ((s.apply t pc effect).threads u).pc = if u = t then pc else (s.threads u).pc := by
    cases effect <;> simp only [System.apply, Function.update_apply] <;> split <;> rfl
  rw [hthread]
  split
  · exact hkeep pc hpc
  · exact hkeep _ (h.waiters u)

/-- The invariant after an effect of thread `t`. -/
theorem inv_apply {effect : Effect ι ε} (h : Inv failureValue s)
    (hspec : AdvanceSpec failureValue s.sems (s.threads t).pc pc effect)
    (hpc : WaiterOk s pc) : Inv failureValue (s.apply t pc effect) := by
  refine ⟨fun i => ?_, fun u => ?_, fun u hu => ?_, waiters_apply h hpc⟩
  · cases effect with
    | nothing => exact h.sems i
    | post => exact h.sems i
    | change j new =>
      simp only [System.apply, Function.update_apply]
      split
      · exact (hspec.change j new rfl).1.1
      · exact h.sems i
  · cases effect <;> simp only [System.apply, Function.update_apply] <;> split
    all_goals first | exact hspec.valid | exact h.payloads u
  · cases effect with
    | nothing =>
      simp only [System.apply, Function.update_apply] at hu ⊢
      split at hu
      next heq =>
        rw [if_pos heq]
        exact hspec.nothing rfl (h.posts t hu)
      next hne =>
        rw [if_neg hne]
        exact h.posts u hu
    | change j new =>
      simp only [System.apply, Function.update_apply] at hu ⊢
      split at hu
      next heq =>
        rw [if_pos heq]
        exact (hspec.change j new rfl).2
      next hne =>
        rw [if_neg hne]
        exact h.posts u hu
    | post =>
      simp only [System.apply, Function.update_apply] at hu ⊢
      split at hu
      next => cases hu
      next hne =>
        rw [if_neg hne]
        exact h.posts u hu

/-- An effect of thread `t` moves every semaphore up. -/
theorem le_apply {effect : Effect ι ε}
    (hspec : AdvanceSpec failureValue s.sems (s.threads t).pc pc effect) (i : ι) :
    (s.sems i).LE ((s.apply t pc effect).sems i) := by
  cases effect with
  | nothing => exact Semaphore.LE.refl _
  | post => exact Semaphore.LE.refl _
  | change j new =>
    simp only [System.apply, Function.update_apply]
    split
    next heq => exact heq ▸ (hspec.change j new rfl).1.2
    next => exact Semaphore.LE.refl _

end Apply

/-- Every action is a step of one thread: what it does, and where the thread is then. -/
theorem step_eq_some {s s' : System ι ε} {a : Action ι ε} (hinv : Inv failureValue s)
    (ha : a.Valid failureValue) (h : step failureValue s a = some s') :
    ∃ t pc effect, s' = s.apply t pc effect ∧
      AdvanceSpec failureValue s.sems (s.threads t).pc pc effect ∧ WaiterOk s pc := by
  cases a with
  | call t c =>
    simp only [step] at h
    split at h
    next returned hidle =>
      refine ⟨t, c.start, .nothing, (Option.some.inj h).symm, ?_, ?_⟩
      · rw [hidle]
        exact ⟨Call.start_valid ha, nofun, fun _ hpost => hpost.elim⟩
      · rcases c with ⟨i, v⟩ | ⟨i, status⟩ | ⟨_ | ⟨e, _ | ⟨e', list⟩⟩⟩ <;> trivial
    next => cases h
  | wait t w =>
    simp only [step] at h
    split at h
    next returned hidle =>
      refine ⟨t, .prepareWait w, .nothing, (Option.some.inj h).symm, ?_, trivial⟩
      rw [hidle]
      exact ⟨trivial, nofun, fun _ hpost => hpost.elim⟩
    next => cases h
  | advance t =>
    obtain ⟨⟨pc, effect⟩, hadvance, rfl⟩ := Option.map_eq_some_iff.mp h
    exact ⟨t, pc, effect, rfl, Pc.advance_spec hinv.sems (hinv.payloads t) hadvance,
      waiterOk_advance (hinv.waiters t) hadvance⟩
  | timeout t =>
    simp only [step] at h
    split at h
    next w token hasleep =>
      refine ⟨t, .idle none, .nothing, (Option.some.inj h).symm, ?_, trivial⟩
      rw [hasleep]
      exact ⟨trivial, nofun, fun _ hpost => hpost.elim⟩
    next => cases h

/-- **Step.** Every action keeps the invariant and moves every semaphore up. -/
theorem inv_step {s s' : System ι ε} {a : Action ι ε} (hinv : Inv failureValue s)
    (ha : a.Valid failureValue) (h : step failureValue s a = some s') :
    Inv failureValue s' ∧ ∀ i, (s.sems i).LE (s'.sems i) := by
  obtain ⟨t, pc, effect, rfl, hspec, hwaiter⟩ := step_eq_some hinv ha h
  exact ⟨inv_apply hinv hspec hwaiter, le_apply hspec⟩

/-- **Run.** So does every interleaving. -/
theorem inv_run {s s' : System ι ε} {schedule : List (Action ι ε)} (hinv : Inv failureValue s)
    (hvalid : ∀ a ∈ schedule, a.Valid failureValue)
    (h : run (step failureValue) schedule s = some s') :
    Inv failureValue s' ∧ ∀ i, (s.sems i).LE (s'.sems i) := by
  constructor
  · exact run_invariant (fun s a s' hs ha hstep => (inv_step hs ha hstep).1) hinv hvalid h
  · refine run_relates (I := Inv failureValue) (R := fun s s' => ∀ i, (s.sems i).LE (s'.sems i))
      (fun s i => Semaphore.LE.refl (s.sems i)) (fun s s' s'' h₁ h₂ i => (h₁ i).trans (h₂ i))
      ?_ hinv hvalid h
    intro s a s' hs ha hstep
    exact inv_step hs ha hstep

/-! ### Signals -/

/-- The semaphore and the payload of a critical section of a signal that a thread is about to
    enter, and the rest of its list. -/
def Pc.signals : Pc ι ε → Option (ι × UInt64)
  | .signal i v => some (i, v)
  | .multiSignal ((i, v) :: _) => some (i, v)
  | _ => none

/-- The status that a thread returns, or has returned. -/
def Pc.status : Pc ι ε → Option Status
  | .idle returned => returned
  | .post status => status
  | _ => none

/-- A signal whose payload exceeds the current value sets it and nothing else; any other signal
    changes nothing and is reported. -/
theorem signals_advance {s s' : System ι ε} {t : Nat} {i : ι} {v : UInt64}
    (hpc : (s.threads t).pc.signals = some (i, v))
    (h : step failureValue s (.advance t) = some s') :
    if (s.sems i).currentValue < v then
      s'.sems = Function.update s.sems i { s.sems i with currentValue := v }
    else
      s'.sems = s.sems ∧
        (s'.threads t).pc.status = some (.outOfRange (s.sems i).currentValue v) := by
  obtain ⟨⟨pc, effect⟩, hadvance, rfl⟩ := Option.map_eq_some_iff.mp h
  generalize hold : (s.threads t).pc = old at hpc hadvance
  by_cases hlt : (s.sems i).currentValue < v
  · rw [if_pos hlt]
    have haccept := Semaphore.signalUnsafe_of_lt hlt
    cases old with
    | signal j w =>
      obtain ⟨rfl, rfl⟩ := Prod.mk.inj (Option.some.inj hpc)
      simp only [Pc.advance, haccept] at hadvance
      obtain ⟨rfl, rfl⟩ := Prod.mk.inj (Option.some.inj hadvance)
      rfl
    | multiSignal list =>
      rcases list with _ | ⟨⟨j, w⟩, rest⟩
      · cases hpc
      · obtain ⟨rfl, rfl⟩ := Prod.mk.inj (Option.some.inj hpc)
        simp only [Pc.advance, haccept] at hadvance
        obtain ⟨rfl, rfl⟩ := Prod.mk.inj (Option.some.inj hadvance)
        rfl
    | _ => cases hpc
  · rw [if_neg hlt]
    have hreject : (s.sems i).signalUnsafe v
        = (s.sems i, .outOfRange (s.sems i).currentValue v) := by
      rw [Semaphore.signalUnsafe, if_pos (UInt64.not_lt.mp hlt)]
    cases old with
    | signal j w =>
      obtain ⟨rfl, rfl⟩ := Prod.mk.inj (Option.some.inj hpc)
      simp only [Pc.advance, hreject] at hadvance
      obtain ⟨rfl, rfl⟩ := Prod.mk.inj (Option.some.inj hadvance)
      exact ⟨rfl, by simp [System.apply, Pc.status]⟩
    | multiSignal list =>
      rcases list with _ | ⟨⟨j, w⟩, rest⟩
      · cases hpc
      · obtain ⟨rfl, rfl⟩ := Prod.mk.inj (Option.some.inj hpc)
        simp only [Pc.advance, hreject] at hadvance
        obtain ⟨rfl, rfl⟩ := Prod.mk.inj (Option.some.inj hadvance)
        exact ⟨rfl, by simp [System.apply, Pc.status]⟩
    | _ => cases hpc

/-- The first failure of a semaphore sets the failure value and its status; a later one changes
    nothing. -/
theorem fails_advance {s s' : System ι ε} {t : Nat} {i : ι} {status : Option ε}
    (hpc : (s.threads t).pc = .fail i status)
    (h : step failureValue s (.advance t) = some s') :
    if Failed (s.sems i) then s'.sems = s.sems
    else s'.sems = Function.update s.sems i ⟨failureValue, status⟩ := by
  obtain ⟨⟨pc, effect⟩, hadvance, rfl⟩ := Option.map_eq_some_iff.mp h
  rw [hpc] at hadvance
  by_cases hfailed : Failed (s.sems i)
  · rw [if_pos hfailed]
    have hkept : (s.sems i).failSection failureValue status = (s.sems i, false) := if_pos hfailed
    simp only [Pc.advance, hkept] at hadvance
    obtain ⟨rfl, rfl⟩ := Prod.mk.inj (Option.some.inj hadvance)
    rfl
  · rw [if_neg hfailed]
    have hset : (s.sems i).failSection failureValue status = (⟨failureValue, status⟩, true) :=
      if_neg hfailed
    simp only [Pc.advance, hset] at hadvance
    obtain ⟨rfl, rfl⟩ := Prod.mk.inj (Option.some.inj hadvance)
    rfl

/-! ### Every interleaving -/

/-- **Semaphores are monotone and failures are sticky.** In every state that an interleaving of
    valid calls reaches:

    * a semaphore has the failure value exactly when its failure status is not OK, which a query
      returns, and from there on no value decreases and no failure status is replaced;
    * a signal is accepted exactly when its payload exceeds the current value, and a failure is
      recorded exactly when it is the first;
    * a thread outside of a call has posted the notification since its last change, and a thread
      that has not is not blocked;
    * a waiter that sleeps while its condition holds has been woken, or will be: the notification
      has been posted since it took its token, or a call is about to post it. -/
theorem semaphores_monotone {s₀ s : System ι ε} (hinit : s₀.Initial failureValue)
    {schedule : List (Action ι ε)} (hvalid : ∀ a ∈ schedule, a.Valid failureValue)
    (hrun : run (step failureValue) schedule s₀ = some s) :
    (∀ i, ((s.sems i).currentValue = failureValue ↔ Failed (s.sems i)) ∧
      (s.sems i).query failureValue = ((s.sems i).currentValue, (s.sems i).failureStatus)) ∧
    (∀ schedule' s', (∀ a ∈ schedule', a.Valid failureValue) →
      run (step failureValue) schedule' s = some s' →
      ∀ i, (s.sems i).currentValue ≤ (s'.sems i).currentValue ∧
        ∀ status, (s.sems i).failureStatus = some status →
          (s'.sems i).failureStatus = some status) ∧
    (∀ t i v s', (s.threads t).pc.signals = some (i, v) →
      step failureValue s (.advance t) = some s' →
      if (s.sems i).currentValue < v then
        s'.sems = Function.update s.sems i { s.sems i with currentValue := v }
      else
        s'.sems = s.sems ∧
          (s'.threads t).pc.status = some (.outOfRange (s.sems i).currentValue v)) ∧
    (∀ t i status s', (s.threads t).pc = .fail i status →
      step failureValue s (.advance t) = some s' →
      if Failed (s.sems i) then s'.sems = s.sems
      else s'.sems = Function.update s.sems i ⟨failureValue, status⟩) ∧
    (∀ t, (∀ returned, (s.threads t).pc = .idle returned → (s.threads t).unposted = false) ∧
      ((s.threads t).unposted = true → (step failureValue s (.advance t)).isSome)) ∧
    ∀ t w token, (s.threads t).pc = .asleep w token →
      wakeCondition w.mode s.sems w.list = true → s.epoch ≠ token ∨ s.Unposted := by
  obtain ⟨hinv, -⟩ := inv_run (inv_initial hinit) hvalid hrun
  refine ⟨fun i => ⟨(hinv.sems i).1, (hinv.sems i).query_eq⟩, fun schedule' s' hvalid' hrun' => ?_,
    fun t i v s' hpc hstep => signals_advance hpc hstep,
    fun t i status s' hpc hstep => fails_advance hpc hstep, fun t => ⟨fun returned hidle => ?_,
    fun hun => ?_⟩, fun t w token hasleep hwake => ?_⟩
  · exact (inv_run hinv hvalid' hrun').2
  · rw [← Bool.not_eq_true]
    intro hun
    have hpost := hinv.posts t hun
    rw [hidle] at hpost
    exact hpost
  · rw [step, Option.isSome_map]
    exact (hinv.posts t hun).advance_isSome
  · have hok := hinv.waiters t
    rw [hasleep] at hok
    by_cases heq : s.epoch = token
    · apply Or.inr
      apply (hok.2 heq).resolve_right
      rw [hwake]
      decide
    · exact .inl heq

/-- Two semaphores at zero, and threads in no call. -/
def twoSemaphores : System Bool Unit where
  sems := fun _ => ⟨0, none⟩
  epoch := 0
  threads := fun _ => ⟨.idle none, false⟩

/-- A waiter goes to sleep before a call signals both semaphores and is about to post. -/
def signalBoth : List (Action Bool Unit) :=
  [.wait 1 ⟨.all, [(false, 1), (true, 1)]⟩, .advance 1, .advance 1,
    .call 0 (.multiSignal [(false, 1), (true, 1)]), .advance 0, .advance 0]

theorem twoSemaphores_initial : twoSemaphores.Initial 100 :=
  ⟨fun _ => show (0 : UInt64) < 100 by decide, fun _ => rfl, fun _ => rfl, fun _ => rfl⟩

theorem signalBoth_valid : ∀ a ∈ signalBoth, a.Valid 100 := by
  simp [signalBoth, Action.Valid, Call.Valid]

/-- The waiter sleeps although its condition holds, and the post is due. -/
theorem semaphores_monotone_signalBoth :
    ∃ s, run (step 100) signalBoth twoSemaphores = some s ∧
      wakeCondition .all s.sems [(false, 1), (true, 1)] = true ∧ (s.epoch ≠ 0 ∨ s.Unposted) := by
  have hwake : (run (step 100) signalBoth twoSemaphores).map
      (fun s => wakeCondition .all s.sems [(false, 1), (true, 1)]) = some true := by decide
  obtain ⟨s, hrun, hw⟩ := Option.map_eq_some_iff.mp hwake
  have hasleep : (s.threads 1).pc = .asleep ⟨.all, [(false, 1), (true, 1)]⟩ 0 := by
    obtain rfl := Option.some.inj hrun
    rfl
  have hall := semaphores_monotone twoSemaphores_initial signalBoth_valid hrun
  exact ⟨s, hrun, hw, hall.2.2.2.2.2 1 _ 0 hasleep hw⟩

end CoralNPU.Driver
