import CoralNPU.Lib.Rv32
import Mathlib.Data.List.Basic

namespace CoralNPU.Crt

open Lib.Rv32 (Word)

/-!
# Crt — destructors of static objects

`cxx_guards.cc`: what the compiler calls for the destructors of objects with static storage.

* `Atexit`, `cxaAtexit`, `cxaFinalize` — the table of eight registered destructors.
* `AtexitAction`, `runAtexit` — any sequence of registrations and finalizations. A destructor may itself
  register further ones.
* `expectedDestroyed` — the first eight registrations since the last finalization, the latest first.
* `destroyed_runAtexit` — exactly these destructors are called, whatever the destructors register.
-/

/-! ### The table -/

/-- `atexit_entry`: the address of a destructor, and its argument. -/
structure AtexitEntry where
  destructor : Word
  arg : Word
  deriving DecidableEq, Repr

/-- `atexit_entries` and `atexit_count`. -/
structure Atexit where
  entries : Vector AtexitEntry 8
  count : Nat
  count_le : count ≤ 8

/-- What happens to the entries: one is registered, with the result of `__cxa_atexit`, or its destructor
    is called. -/
inductive AtexitEvent
  | registered (entry : AtexitEntry) (result : Int)
  | destroyed (entry : AtexitEntry)
  deriving DecidableEq, Repr

/-- `__cxa_atexit` -/
def cxaAtexit (s : Atexit) (entry : AtexitEntry) : Atexit × Int :=
  if h : s.count ≥ 8 then (s, -1)
  else ({ entries := s.entries.set s.count entry, count := s.count + 1, count_le := by omega }, 0)

/-- The state with the events so far. -/
structure AtexitRun where
  state : Atexit
  trace : List AtexitEvent

/-- One registration. -/
def AtexitRun.register (run : AtexitRun) (entry : AtexitEntry) : AtexitRun :=
  ⟨(cxaAtexit run.state entry).1, run.trace ++ [.registered entry (cxaAtexit run.state entry).2]⟩

/-- What a destructor registers when it is called, after these events. -/
abbrev Registers := List AtexitEvent → AtexitEntry → List AtexitEntry

/-- The loop of `__cxa_finalize` from `atexit_entries[i - 1]` down. -/
def finalizeLoop (registers : Registers) : (i : Nat) → i ≤ 8 → AtexitRun → AtexitRun
  | 0, _, run => run
  | i + 1, hi, run =>
    let entry := run.state.entries[i]
    if entry.destructor ≠ 0 then
      let called : AtexitRun := ⟨run.state, run.trace ++ [.destroyed entry]⟩
      finalizeLoop registers i (Nat.le_of_succ_le hi)
        ((registers called.trace entry).foldl AtexitRun.register called)
    else finalizeLoop registers i (Nat.le_of_succ_le hi) run

/-- `__cxa_finalize` -/
def cxaFinalize (registers : Registers) (run : AtexitRun) : AtexitRun :=
  let done := finalizeLoop registers run.state.count run.state.count_le run
  ⟨⟨done.state.entries, 0, Nat.zero_le 8⟩, done.trace⟩

/-- What a program does with the table. -/
inductive AtexitAction
  | atexit (entry : AtexitEntry)
  | finalize
  deriving DecidableEq, Repr

/-- A sequence of actions. -/
def runAtexit (registers : Registers) (actions : List AtexitAction) (run : AtexitRun) : AtexitRun :=
  actions.foldl (fun run action =>
    match action with
    | .atexit entry => run.register entry
    | .finalize => cxaFinalize registers run) run

/-- The table of a program that has just been started. -/
def AtexitRun.initial : AtexitRun := ⟨⟨Vector.replicate 8 ⟨0, 0⟩, 0, Nat.zero_le 8⟩, []⟩

/-! ### What is called -/

/-- The entries whose destructors are called. -/
def destroyed (trace : List AtexitEvent) : List AtexitEntry :=
  trace.filterMap fun event =>
    match event with
    | .destroyed entry => some entry
    | .registered _ _ => none

/-- What is to be destroyed, with the registrations since the last finalization: the first eight of
    them, the latest first, and no null pointers. -/
def expectedDestroyed : List AtexitAction → List AtexitEntry → List AtexitEntry
  | [], _ => []
  | .atexit entry :: actions, pending => expectedDestroyed actions (pending ++ [entry])
  | .finalize :: actions, pending =>
    (pending.take 8).reverse.filter (fun entry => entry.destructor ≠ 0) ++ expectedDestroyed actions []

/-- The table holds these entries, and possibly others behind them. -/
def Holds (s : Atexit) (entries : List AtexitEntry) : Prop :=
  entries.length ≤ s.count ∧ ∀ i (h : i < entries.length) (hi : i < 8), s.entries[i] = entries[i]

/-- A registration goes behind the entries that are there. -/
theorem Holds.cxaAtexit {s : Atexit} {entries : List AtexitEntry} (h : Holds s entries)
    (entry : AtexitEntry) : Holds (cxaAtexit s entry).1 entries := by
  rw [Crt.cxaAtexit]
  split
  next => exact h
  next hroom =>
    refine ⟨Nat.le_succ_of_le h.1, fun i hi hi8 => ?_⟩
    have hne : s.count ≠ i := Nat.ne_of_gt (Nat.lt_of_lt_of_le hi h.1)
    exact (Vector.getElem_set_ne (Nat.not_le.1 hroom) hi8 hne).trans (h.2 i hi hi8)

/-- Registrations do not destroy anything. -/
theorem foldl_register (es : List AtexitEntry) : ∀ (run : AtexitRun) {entries : List AtexitEntry},
    Holds run.state entries → Holds (es.foldl AtexitRun.register run).state entries ∧
      destroyed (es.foldl AtexitRun.register run).trace = destroyed run.trace := by
  induction es with
  | nil => exact fun _ _ h => ⟨h, rfl⟩
  | cons e es ih =>
    intro run entries h
    obtain ⟨hholds, hdestroyed⟩ := ih (run.register e) (h.cxaAtexit e)
    refine ⟨hholds, hdestroyed.trans ?_⟩
    rw [AtexitRun.register, destroyed, destroyed, List.filterMap_append]
    exact List.append_nil _

/-- **The loop** destroys the entries below `i`, the last one first. -/
theorem destroyed_finalizeLoop (registers : Registers) (entries : List AtexitEntry) :
    ∀ (i : Nat) (hi : i ≤ 8) (run : AtexitRun), i ≤ entries.length → Holds run.state entries →
      destroyed (finalizeLoop registers i hi run).trace = destroyed run.trace ++
        (entries.take i).reverse.filter (fun entry => entry.destructor ≠ 0) := by
  intro i
  induction i with
  | zero =>
    intro hi run _ _
    exact (List.append_nil _).symm
  | succ i ih =>
    intro hi run hlt hholds
    have hentry : run.state.entries[i] = entries[i] := hholds.2 i hlt hi
    have htake : (entries.take (i + 1)).reverse = entries[i] :: (entries.take i).reverse := by
      rw [List.take_succ_eq_append_getElem hlt, List.reverse_append]
      rfl
    rw [finalizeLoop, htake]
    simp only [hentry]
    by_cases hnull : entries[i].destructor ≠ 0
    · obtain ⟨hholds', hsame⟩ := foldl_register
        (registers (run.trace ++ [.destroyed entries[i]]) entries[i])
        ⟨run.state, run.trace ++ [.destroyed entries[i]]⟩ hholds
      have hfilter : (entries[i] :: (entries.take i).reverse).filter
            (fun entry => entry.destructor ≠ 0) = entries[i] ::
          (entries.take i).reverse.filter (fun entry => entry.destructor ≠ 0) :=
        List.filter_cons_of_pos (decide_eq_true hnull)
      rw [if_pos hnull, ih _ _ (Nat.le_of_succ_le hlt) hholds', hsame, hfilter, destroyed,
        destroyed, List.filterMap_append, List.append_assoc]
      exact congrArg _ (List.singleton_append ..)
    · rw [if_neg hnull, ih _ _ (Nat.le_of_succ_le hlt) hholds,
        List.filter_cons_of_neg (by simpa using hnull)]

/-- The table holds the first eight of the registrations since the last finalization. -/
structure Pending (s : Atexit) (pending : List AtexitEntry) : Prop where
  count : s.count = (pending.take 8).length
  holds : Holds s (pending.take 8)

/-- One more registration. -/
theorem Pending.cxaAtexit {s : Atexit} {pending : List AtexitEntry} (h : Pending s pending)
    (entry : AtexitEntry) : Pending (cxaAtexit s entry).1 (pending ++ [entry]) := by
  have hcount := h.count
  rw [List.length_take] at hcount
  rw [Crt.cxaAtexit]
  by_cases hfull : s.count ≥ 8
  · -- a ninth one is not there
    have hsame : (pending ++ [entry]).take 8 = pending.take 8 :=
      List.take_append_of_le_length (by omega)
    rw [dif_pos hfull]
    exact ⟨hsame ▸ h.count, hsame ▸ h.holds⟩
  · have hshort : pending.length < 8 := by omega
    have hlast : (pending ++ [entry]).take 8 = pending ++ [entry] :=
      List.take_of_length_le (by rw [List.length_append, List.length_singleton]; omega)
    have hpending : pending.take 8 = pending := List.take_of_length_le (by omega)
    obtain ⟨-, hholds⟩ := h.holds
    rw [dif_neg hfull]
    have hlength : s.count + 1 = (pending ++ [entry]).length := by
      rw [List.length_append, List.length_singleton]
      omega
    refine ⟨by rw [hlast]; exact hlength, ?_⟩
    rw [hlast]
    refine ⟨Nat.le_of_eq hlength.symm, fun i hi hi8 => ?_⟩
    by_cases heq : s.count = i
    · subst heq
      have hlen : s.count = pending.length := by omega
      rw [Vector.getElem_set_self]
      simp [hlen]
    · have hlt : i < pending.length := by omega
      rw [Vector.getElem_set_ne _ _ heq, List.getElem_append_left hlt]
      simpa only [hpending] using hholds i (by rw [hpending]; exact hlt) hi8

/-- **The destructors that are called**, in any sequence of actions. -/
theorem destroyed_runAtexit (registers : Registers) (actions : List AtexitAction) :
    destroyed (runAtexit registers actions .initial).trace = expectedDestroyed actions [] := by
  have hrun : ∀ (actions : List AtexitAction) (run : AtexitRun) (pending : List AtexitEntry),
      Pending run.state pending → destroyed (runAtexit registers actions run).trace
        = destroyed run.trace ++ expectedDestroyed actions pending := by
    intro actions
    induction actions with
    | nil => exact fun run pending _ => (List.append_nil _).symm
    | cons action actions ih =>
      intro run pending h
      cases action with
      | atexit entry =>
        have hsame := (foldl_register [entry] run h.holds).2
        exact (ih (run.register entry) _ (h.cxaAtexit entry)).trans
          (congrArg (· ++ expectedDestroyed actions (pending ++ [entry])) hsame)
      | finalize =>
        have hloop := destroyed_finalizeLoop registers (pending.take 8) run.state.count
          run.state.count_le run (Nat.le_of_eq h.count) h.holds
        rw [List.take_of_length_le (Nat.le_of_eq h.count.symm)] at hloop
        have hempty : Pending (cxaFinalize registers run).state [] := ⟨rfl, Nat.le_refl 0, nofun⟩
        refine (ih (cxaFinalize registers run) [] hempty).trans ?_
        rw [expectedDestroyed, ← List.append_assoc]
        exact congrArg (· ++ expectedDestroyed actions []) hloop
  exact hrun actions .initial [] ⟨rfl, Nat.le_refl 0, nofun⟩

/-- Nine registrations, of which the last one is lost. -/
example : (runAtexit (fun _ _ => [⟨1, 1⟩]) ((List.range 9).map fun i =>
    .atexit ⟨1, BitVec.ofNat 32 i⟩) .initial).trace.getLast? = some (.registered ⟨1, 8⟩ (-1)) := by
  decide

end CoralNPU.Crt
