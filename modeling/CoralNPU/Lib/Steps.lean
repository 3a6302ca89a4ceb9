import Mathlib.Order.Basic

namespace Lib

/-!
# Runs of a system that takes actions

`step s a` is the state after action `a`, or `none` where `a` is not possible.  A run is a list of
actions; an interleaving of several actors is a list of the actions of all of them.

* `run` — the state that a list of actions leads to;
* `run_invariant` — what every step keeps holds at the end of a run;
* `run_relates` — an order in which every step moves up relates the ends of a run;
* `run_map` — a map that takes every step to a step of another system takes runs to its runs.
-/

variable {σ α : Type*} {step : σ → α → Option σ}

/-- Take the actions one after the other. -/
def run (step : σ → α → Option σ) : List α → σ → Option σ
  | [], s => some s
  | a :: as, s => (step s a).bind (run step as)

/-- A run without steps. -/
@[simp] theorem run_nil (s : σ) : run step [] s = some s := rfl

/-- A run, by its first step. -/
theorem run_cons_eq_some {a : α} {as : List α} {s s'' : σ} :
    run step (a :: as) s = some s'' ↔ ∃ s', step s a = some s' ∧ run step as s' = some s'' :=
  Option.bind_eq_some_iff

/-- **Invariant.** What every step with an action in `V` keeps holds at the end of a run of such
    actions. -/
theorem run_invariant {I : σ → Prop} {V : α → Prop}
    (hstep : ∀ s a s', I s → V a → step s a = some s' → I s') {as : List α} :
    ∀ {s s' : σ}, I s → (∀ a ∈ as, V a) → run step as s = some s' → I s' := by
  induction as with
  | nil =>
    intro s s' hs _ h
    exact Option.some.inj h ▸ hs
  | cons a as ih =>
    intro s s' hs hV h
    obtain ⟨s₁, hone, hrest⟩ := run_cons_eq_some.mp h
    have hs₁ := hstep s a s₁ hs (hV a List.mem_cons_self) hone
    exact ih hs₁ (fun b hb => hV b (List.mem_cons_of_mem a hb)) hrest

/-- **Monotone runs.** If every step from a state with the invariant moves up in `R`, then so
    does a run. -/
theorem run_relates {I : σ → Prop} {V : α → Prop} {R : σ → σ → Prop} (hrefl : ∀ s, R s s)
    (htrans : ∀ s s' s'', R s s' → R s' s'' → R s s'')
    (hstep : ∀ s a s', I s → V a → step s a = some s' → I s' ∧ R s s') {as : List α} :
    ∀ {s s' : σ}, I s → (∀ a ∈ as, V a) → run step as s = some s' → R s s' := by
  induction as with
  | nil =>
    intro s s' _ _ h
    exact Option.some.inj h ▸ hrefl s
  | cons a as ih =>
    intro s s' hs hV h
    obtain ⟨s₁, hone, hrest⟩ := run_cons_eq_some.mp h
    obtain ⟨hs₁, hup⟩ := hstep s a s₁ hs (hV a List.mem_cons_self) hone
    exact htrans s s₁ s' hup (ih hs₁ (fun b hb => hV b (List.mem_cons_of_mem a hb)) hrest)

/-- **Runs of a system that another one describes.**  A map that takes every step with an action in `V`
    from a state with the invariant to a step of the other system takes a run to a run. -/
theorem run_map {τ : Type*} {step' : τ → α → Option τ} {f : σ → τ} {I : σ → Prop} {V : α → Prop}
    (hstep : ∀ s a, I s → V a → (step s a).map f = step' (f s) a)
    (hkeep : ∀ s a s', I s → V a → step s a = some s' → I s') (as : List α) (hV : ∀ a ∈ as, V a) :
    ∀ {s : σ}, I s → (run step as s).map f = run step' as (f s) := by
  induction as with
  | nil => exact fun _ => rfl
  | cons a as ih =>
    intro s hs
    have ha := hV a List.mem_cons_self
    show ((step s a).bind (run step as)).map f = (step' (f s) a).bind (run step' as)
    rw [← hstep s a hs ha]
    cases h : step s a with
    | none => rfl
    | some s' => exact ih (fun b hb => hV b (List.mem_cons_of_mem a hb)) (hkeep s a s' hs ha h)

end Lib
