import CoralNPU.Driver.SemaphoreWait

namespace CoralNPU.Driver

/-!
# Queue operations and the semaphores they signal

`queue_alloca`, `queue_host_call` and `queue_execute` of the device: wait, do the work, signal.

* `signal`, `fail`, `multiSignal` — the semaphore functions, run to their end.
* `ListOps` — the functions on semaphore lists that the device takes from the HAL;
  `ListOps.Lawful` — they go through the list and stop at the first error.
* `QueueOp`, `QueueOp.run` — an operation with the outcomes of its steps, and what it leaves.
* `delivered` — the signals of a list that are accepted.
* `queueOp_releases_iff` — when every semaphore of the signal list is reached or failed at the
  end.
-/

variable {ι ε : Type} [DecidableEq ι] {failureValue : UInt64}

/-! ### Signaling lists of semaphores -/

/-- `iree_hal_coralnpu_semaphore_signal` -/
def signal (sems : Semaphores ι ε) (i : ι) (newValue : UInt64) : Semaphores ι ε × Status :=
  let (new, status) := (sems i).signalUnsafe newValue
  (Function.update sems i new, status)

/-- `iree_hal_coralnpu_semaphore_fail` -/
def fail (failureValue : UInt64) (sems : Semaphores ι ε) (i : ι) (status : Option ε) :
    Semaphores ι ε :=
  Function.update sems i ((sems i).failSection failureValue status).1

/-- The loop over a signal list, which stops at the first error. -/
def signalInOrder (sems : Semaphores ι ε) : SemaphoreList ι → Semaphores ι ε × Status
  | [] => (sems, .ok)
  | (i, payload) :: list =>
    match signal sems i payload with
    | (sems, .ok) => signalInOrder sems list
    | (sems, status) => (sems, status)

/-- `iree_hal_coralnpu_semaphore_multi_signal` -/
def multiSignal (sems : Semaphores ι ε) (list : SemaphoreList ι) : Semaphores ι ε × Status :=
  match list with
  | [] => (sems, .ok)
  | [(i, payload)] => signal sems i payload
  | list => signalInOrder sems list

/-- `iree_hal_semaphore_list_signal` and `iree_hal_semaphore_list_fail` of the HAL. -/
structure ListOps (ι ε : Type) where
  signal : Semaphores ι ε → SemaphoreList ι → Semaphores ι ε × Status
  fail : Semaphores ι ε → SemaphoreList ι → ε → Semaphores ι ε

/-- The HAL signals the semaphores of a list in order, up to the first error, and fails every
    semaphore of a list. -/
structure ListOps.Lawful (failureValue : UInt64) (hal : ListOps ι ε) : Prop where
  signal_eq : ∀ sems list, hal.signal sems list = signalInOrder sems list
  fail_eq : ∀ sems list status, hal.fail sems list status
    = list.foldl (fun sems e => Driver.fail failureValue sems e.1 (some status)) sems

/-! ### The operations -/

/-- What the call of a host call returns. -/
inductive CallStatus (ε : Type)
  | ok
  | deferred
  | failed (status : ε)

/-- What a queue operation returns. -/
inductive QueueStatus (ε : Type)
  | ok
  | failed (status : ε)
  | rejected (status : Status)

/-- The queue operations, with the outcomes of their steps: `none` is OK. -/
inductive QueueOp (ε : Type)
  | alloca (wait allocate : Option ε)
  | hostCall (wait : Option ε) (isNonblocking : Bool) (call : CallStatus ε)
  | execute (wait replay : Option ε)

/-- The end of an operation that returns the status of its signals. -/
def returnSignal (signaled : Semaphores ι ε × Status) : Semaphores ι ε × QueueStatus ε :=
  match signaled with
  | (sems, .ok) => (sems, .ok)
  | (sems, status) => (sems, .rejected status)

/-- `iree_hal_coralnpu_device_queue_alloca` -/
def queueAlloca (hal : ListOps ι ε) (wait allocate : Option ε) (signals : SemaphoreList ι)
    (sems : Semaphores ι ε) : Semaphores ι ε × QueueStatus ε :=
  match wait with
  | some status => (sems, .failed status)
  | none =>
    match allocate with
    | some status => (sems, .failed status)
    | none => returnSignal (hal.signal sems signals)

/-- `iree_hal_coralnpu_device_queue_host_call` -/
def queueHostCall (hal : ListOps ι ε) (wait : Option ε) (isNonblocking : Bool)
    (call : CallStatus ε) (signals : SemaphoreList ι) (sems : Semaphores ι ε) :
    Semaphores ι ε × QueueStatus ε :=
  match wait with
  | some status => (sems, .failed status)
  | none =>
    if isNonblocking then
      -- the call itself comes after the signals, and its status is ignored
      returnSignal (hal.signal sems signals)
    else
      match call with
      | .deferred => (sems, .ok)
      | .ok => returnSignal (hal.signal sems signals)
      | .failed status => (hal.fail sems signals status, .ok)

/-- `iree_hal_coralnpu_device_queue_execute` -/
def queueExecute (wait replay : Option ε) (signals : SemaphoreList ι) (sems : Semaphores ι ε) :
    Semaphores ι ε × QueueStatus ε :=
  match wait with
  | some status => (sems, .failed status)
  | none =>
    match replay with
    | some status => (sems, .failed status)
    | none => returnSignal (multiSignal sems signals)

/-- What an operation leaves.  The semaphores are those that it finds when it comes to its
    signals, or returns without: others may have moved them up to then. -/
def QueueOp.run (hal : ListOps ι ε) (signals : SemaphoreList ι) (sems : Semaphores ι ε) :
    QueueOp ε → Semaphores ι ε × QueueStatus ε
  | .alloca wait allocate => queueAlloca hal wait allocate signals sems
  | .hostCall wait isNonblocking call => queueHostCall hal wait isNonblocking call signals sems
  | .execute wait replay => queueExecute wait replay signals sems

/-! ### The signals of a list -/

/-- The payload of a signal exceeds the value of its semaphore, and the payloads that come before
    it for the same semaphore. -/
def Due (sems : Semaphores ι ε) (earlier : SemaphoreList ι) (e : ι × UInt64) : Prop :=
  (sems e.1).currentValue < e.2 ∧ ∀ d ∈ earlier, d.1 = e.1 → d.2 < e.2

instance (sems : Semaphores ι ε) (earlier : SemaphoreList ι) (e : ι × UInt64) :
    Decidable (Due sems earlier e) := inferInstanceAs (Decidable (_ ∧ _))

/-- The signals up to the first one that is not due, after the `earlier` ones. -/
def delivered (sems : Semaphores ι ε) (earlier : SemaphoreList ι) :
    SemaphoreList ι → SemaphoreList ι
  | [] => earlier
  | e :: list => if Due sems earlier e then delivered sems (earlier ++ [e]) list else earlier

/-- The semaphores after some signals: each has the largest of its value and the payloads. -/
structure Signaled (sems sems' : Semaphores ι ε) (signals : SemaphoreList ι) : Prop where
  status : ∀ i, (sems' i).failureStatus = (sems i).failureStatus
  value : ∀ i v, v ≤ (sems' i).currentValue ↔
    v ≤ (sems i).currentValue ∨ ∃ d ∈ signals, d.1 = i ∧ v ≤ d.2

omit [DecidableEq ι] in
theorem Signaled.nil (sems : Semaphores ι ε) : Signaled sems sems [] :=
  ⟨fun _ => rfl, fun i v => by simp⟩

omit [DecidableEq ι] in
/-- A signal is accepted exactly when it is due. -/
theorem Signaled.lt_iff {sems sems' : Semaphores ι ε} {earlier : SemaphoreList ι}
    (h : Signaled sems sems' earlier) (e : ι × UInt64) :
    (sems' e.1).currentValue < e.2 ↔ Due sems earlier e := by
  rw [← UInt64.not_le, h.value, not_or, UInt64.not_le, Due]
  apply and_congr_right
  intro _
  simp only [not_exists, not_and, UInt64.not_le]

/-- One more signal that is due. -/
theorem Signaled.snoc {sems sems' : Semaphores ι ε} {earlier : SemaphoreList ι}
    (h : Signaled sems sems' earlier) {e : ι × UInt64} (hlt : (sems' e.1).currentValue < e.2) :
    Signaled sems
      (Function.update sems' e.1 { sems' e.1 with currentValue := e.2 }) (earlier ++ [e]) := by
  refine ⟨fun i => ?_, fun i v => ?_⟩
  · rw [Function.update_apply]
    split
    next heq => rw [heq]; exact h.status e.1
    next => exact h.status i
  · have hlist : (∃ d ∈ earlier ++ [e], d.1 = i ∧ v ≤ d.2) ↔
        (∃ d ∈ earlier, d.1 = i ∧ v ≤ d.2) ∨ (e.1 = i ∧ v ≤ e.2) := by
      simp only [List.mem_append, List.mem_singleton, or_and_right, exists_or, exists_eq_left]
    rw [Function.update_apply, hlist, ← or_assoc, ← h.value]
    split
    next heq =>
      subst heq
      -- the new value is above the old one
      exact ⟨fun hv => .inr ⟨rfl, hv⟩, fun hv => hv.elim
        (fun hold => UInt64.le_trans hold (UInt64.le_of_lt hlt)) And.right⟩
    next hne =>
      exact ⟨.inl, fun hv => hv.resolve_right fun hr => hne hr.1.symm⟩

/-- **What signaling a list does**: the signals up to the first that is not due. -/
theorem signalInOrder_signaled {sems : Semaphores ι ε} {list : SemaphoreList ι} :
    ∀ {sems' : Semaphores ι ε} {earlier : SemaphoreList ι}, Signaled sems sems' earlier →
      Signaled sems (signalInOrder sems' list).1 (delivered sems earlier list) := by
  induction list with
  | nil => exact fun h => h
  | cons e list ih =>
    intro sems' earlier h
    rw [signalInOrder, delivered, signal]
    by_cases hlt : (sems' e.1).currentValue < e.2
    · rw [if_pos ((h.lt_iff e).mp hlt), Semaphore.signalUnsafe_of_lt hlt]
      exact ih (h.snoc hlt)
    · rw [if_neg fun hdue => hlt ((h.lt_iff e).mpr hdue), Semaphore.signalUnsafe,
        if_pos (UInt64.not_lt.mp hlt)]
      simp only [Function.update_eq_self]
      exact h

/-- The fast paths of `multi_signal` do what its loop does. -/
theorem multiSignal_eq (sems : Semaphores ι ε) (list : SemaphoreList ι) :
    multiSignal sems list = signalInOrder sems list := by
  rcases list with _ | ⟨⟨i, payload⟩, _ | ⟨e, list⟩⟩
  · rfl
  · rw [multiSignal, signalInOrder]
    split
    next _ h => exact h
    next _ _ _ h => exact h
  · rfl

omit [DecidableEq ι] in
@[simp] theorem returnSignal_fst (signaled : Semaphores ι ε × Status) :
    (returnSignal signaled).1 = signaled.1 := by
  unfold returnSignal
  split <;> rfl

/-- The semaphores of a list that are reached or failed once the list has been signaled. -/
theorem signalInOrder_releases_iff (sems : Semaphores ι ε) (list : SemaphoreList ι) :
    AllReachedOrFailed (signalInOrder sems list).1 list ↔
      ∀ e ∈ list, (e.2 ≤ (sems e.1).currentValue ∨ Failed (sems e.1)) ∨
        ∃ d ∈ delivered sems [] list, d.1 = e.1 ∧ e.2 ≤ d.2 := by
  have h : Signaled sems (signalInOrder sems list).1 (delivered sems [] list) :=
    signalInOrder_signaled (Signaled.nil sems)
  apply forall₂_congr
  intro e _
  rw [h.value, Failed, Failed, h.status]
  exact or_right_comm

/-- Failing a semaphore leaves the failed ones failed. -/
theorem fail_failed (sems : Semaphores ι ε) (i : ι) {status : Option ε} (h : status.isSome) :
    ∀ j, j = i ∨ Failed (sems j) → Failed (fail failureValue sems i status j) := by
  intro j hj
  rw [fail, Function.update_apply]
  split
  · exact Semaphore.failSection_failed (sems i) h
  next hne => exact hj.resolve_left hne

/-- A list that was failed is failed. -/
theorem failList_failed (status : ε) (list : SemaphoreList ι) :
    ∀ (sems : Semaphores ι ε) (j : ι), Failed (sems j) ∨ j ∈ list.map Prod.fst →
      Failed (list.foldl (fun sems e => fail failureValue sems e.1 (some status)) sems j) := by
  induction list with
  | nil => intro sems j h; simpa using h
  | cons e list ih =>
    intro sems j h
    rw [List.foldl_cons]
    apply ih
    rw [List.map_cons, List.mem_cons] at h
    have hfail : j = e.1 ∨ Failed (sems j) →
        Failed (fail failureValue sems e.1 (some status) j) := fail_failed sems e.1 rfl j
    rcases h with h | h | h
    · exact .inl (hfail (.inr h))
    · exact .inl (hfail (.inl h))
    · exact .inr h

/-! ### Stranded semaphores -/

/-- The call defers its signals to its callback. -/
def QueueOp.Defers : QueueOp ε → Prop
  | .hostCall none false .deferred => True
  | _ => False

/-- The operation comes to its signals. -/
def QueueOp.Signals : QueueOp ε → Prop
  | .alloca none none => True
  | .hostCall none true _ => True
  | .hostCall none false .ok => True
  | .execute none none => True
  | _ => False

/-- The operation fails its signal list. -/
def QueueOp.FailsList : QueueOp ε → Prop
  | .hostCall none false (.failed _) => True
  | _ => False

/-- Every signal of a list that is not delivered is for a semaphore that had reached its payload
    or failed, or reaches it by a delivered one. -/
def Delivers (sems : Semaphores ι ε) (signals : SemaphoreList ι) : Prop :=
  ∀ e ∈ signals, (e.2 ≤ (sems e.1).currentValue ∨ Failed (sems e.1)) ∨
    ∃ d ∈ delivered sems [] signals, d.1 = e.1 ∧ e.2 ≤ d.2

instance (sems : Semaphores ι ε) (signals : SemaphoreList ι) :
    Decidable (Delivers sems signals) := inferInstanceAs (Decidable (∀ e ∈ signals, _))

/-- How an operation leaves the semaphores: its list is signaled, failed or left alone. -/
theorem QueueOp.run_cases {hal : ListOps ι ε} (hhal : hal.Lawful failureValue)
    (signals : SemaphoreList ι) (sems : Semaphores ι ε) (op : QueueOp ε) :
    (op.Signals ∧ ¬ op.FailsList ∧ (op.run hal signals sems).1 = (signalInOrder sems signals).1) ∨
    (op.FailsList ∧ ∃ status, (op.run hal signals sems).1 =
      signals.foldl (fun sems e => fail failureValue sems e.1 (some status)) sems) ∨
    (¬ op.Signals ∧ ¬ op.FailsList ∧ (op.run hal signals sems).1 = sems) := by
  cases op with
  | alloca wait allocate =>
    rcases wait with _ | status
    · rcases allocate with _ | status
      · exact .inl ⟨trivial, id, by rw [run, queueAlloca, returnSignal_fst, hhal.signal_eq]⟩
      · exact .inr (.inr ⟨id, id, rfl⟩)
    · exact .inr (.inr ⟨id, id, rfl⟩)
  | hostCall wait isNonblocking call =>
    rcases wait with _ | status
    · cases isNonblocking with
      | true =>
        refine .inl ⟨trivial, id, ?_⟩
        show (returnSignal (hal.signal sems signals)).1 = _
        rw [returnSignal_fst, hhal.signal_eq]
      | false =>
        cases call with
        | ok =>
          refine .inl ⟨trivial, id, ?_⟩
          show (returnSignal (hal.signal sems signals)).1 = _
          rw [returnSignal_fst, hhal.signal_eq]
        | deferred => exact .inr (.inr ⟨id, id, rfl⟩)
        | failed status =>
          exact .inr (.inl ⟨trivial, status, hhal.fail_eq sems signals status⟩)
    · exact .inr (.inr ⟨id, id, rfl⟩)
  | execute wait replay =>
    rcases wait with _ | status
    · rcases replay with _ | status
      · exact .inl ⟨trivial, id, by rw [run, queueExecute, returnSignal_fst, multiSignal_eq]⟩
      · exact .inr (.inr ⟨id, id, rfl⟩)
    · exact .inr (.inr ⟨id, id, rfl⟩)

/-- **When an operation strands no semaphore** of its signal list: when it comes to its signals
    and each is delivered or not needed, when it fails the list, or when there was nothing to
    signal. -/
theorem queueOp_releases_iff {hal : ListOps ι ε} (hhal : hal.Lawful failureValue)
    (signals : SemaphoreList ι) (sems : Semaphores ι ε) (op : QueueOp ε) :
    (op.Defers ∨ AllReachedOrFailed (op.run hal signals sems).1 signals) ↔
      op.Defers ∨ op.FailsList ∨ AllReachedOrFailed sems signals ∨
        (op.Signals ∧ Delivers sems signals) := by
  apply or_congr_right'
  intro _
  rcases op.run_cases hhal signals sems with ⟨hs, hf, hrun⟩ | ⟨hf, status, hrun⟩ | ⟨hs, hf, hrun⟩
  · rw [hrun, signalInOrder_releases_iff, ← Delivers]
    simp only [hs, hf, true_and, false_or]
    exact ⟨.inr, fun h => h.elim (fun hall e he => .inl (hall e he)) id⟩
  · rw [hrun]
    refine ⟨fun _ => .inl hf, fun _ e he => ?_⟩
    apply Or.inr
    exact failList_failed status signals sems e.1 (.inr (List.mem_map_of_mem he))
  · rw [hrun]
    simp only [hs, hf, false_and, false_or, or_false]

/-- The functions on semaphore lists that go through the list. -/
def listOps (failureValue : UInt64) : ListOps ι ε where
  signal := signalInOrder
  fail sems list status := list.foldl (fun sems e => fail failureValue sems e.1 (some status)) sems

/-- An execution after which both semaphores are reached. -/
theorem queueOp_releases_iff_execute :
    (QueueOp.execute none none : QueueOp Unit).Defers ∨
      AllReachedOrFailed ((QueueOp.execute none none : QueueOp Unit).run (listOps 100)
        [(false, 1), (true, 1)] (fun _ => ⟨0, none⟩)).1 [(false, 1), (true, 1)] :=
  have hhal : (listOps 100 : ListOps Bool Unit).Lawful 100 :=
    ⟨fun _ _ => rfl, fun _ _ _ => rfl⟩
  (queueOp_releases_iff hhal [(false, 1), (true, 1)] (fun _ => ⟨0, none⟩) (.execute none none)).mpr
    (.inr (.inr (.inr ⟨trivial, by decide⟩)))

/-- A wait that fails strands the semaphores that the operation was to signal. -/
theorem queueOp_strands :
    ∃ op : QueueOp Unit, ∃ signals : SemaphoreList Bool, ∃ sems : Semaphores Bool Unit,
      ¬ (op.Defers ∨ AllReachedOrFailed (op.run (listOps 100) signals sems).1 signals) := by
  refine ⟨.execute (some ()) none, [(true, 1)], fun _ => ⟨0, none⟩, ?_⟩
  rintro (h | h)
  · exact h
  · exact absurd (h (true, 1) List.mem_cons_self) (by decide)

end CoralNPU.Driver
