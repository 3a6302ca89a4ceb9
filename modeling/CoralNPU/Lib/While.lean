import Mathlib.Data.Nat.Basic
import Mathlib.Logic.Relation
import Mathlib.Order.Basic

namespace Lib

/-!
# While loops with an exit value

A loop body maps a state either to the next state (`Sum.inl`) or to the value
the loop exits with (`Sum.inr`).  `iterate body n s` runs the body at most `n`
times; `none` means that `n` iterations were not enough.  The rules a loop proof
uses are collected here once:

* `iterate_isSome` — a measure that drops on every continued iteration bounds
  the number of iterations;
* `iterate_exit` — an invariant holds in the state the loop exits from;
* `visited` — the states a loop passes through; `forall_mem_visited` and `getLast?_visited` are the
  two rules above for all of them;
* `countP_visited_le_one` — a kind of state that cannot come back is passed through once.

For a loop whose number of iterations is not looked at, `Continues` says that it gets from one state
to another, and `Exits` that it ends.
-/

variable {σ ρ : Type*}

/-- Run `body` from `s` for at most `n` iterations. -/
def iterate (body : σ → σ ⊕ ρ) : Nat → σ → Option ρ
  | 0, _ => none
  | n + 1, s =>
    match body s with
    | .inl s' => iterate body n s'
    | .inr r => some r

/-- A loop that goes on. -/
theorem iterate_succ_inl {body : σ → σ ⊕ ρ} {s s' : σ} (h : body s = .inl s') (n : Nat) :
    iterate body (n + 1) s = iterate body n s' := by
  simp only [iterate, h]

/-- A loop that ends. -/
theorem iterate_succ_inr {body : σ → σ ⊕ ρ} {s : σ} {r : ρ} (h : body s = .inr r) (n : Nat) :
    iterate body (n + 1) s = some r := by
  simp only [iterate, h]

/-- **Termination.** If every continued iteration keeps `I` and lowers the measure
    `μ`, then more iterations than the measure of the first state suffice. -/
theorem iterate_isSome {body : σ → σ ⊕ ρ} (I : σ → Prop) (μ : σ → Nat)
    (hstep : ∀ s s', I s → body s = .inl s' → I s' ∧ μ s' < μ s) :
    ∀ (n : Nat) (s : σ), I s → μ s < n → ∃ r, iterate body n s = some r := by
  intro n
  induction n with
  | zero => intro s _ hn; omega
  | succ n ih =>
    intro s hs hn
    cases hb : body s with
    | inr r => exact ⟨r, iterate_succ_inr hb n⟩
    | inl s' =>
      obtain ⟨hs', hμ⟩ := hstep s s' hs hb
      obtain ⟨r, hr⟩ := ih s' hs' (by omega)
      exact ⟨r, by rw [iterate_succ_inl hb]; exact hr⟩

/-- **Invariant at the exit.** An invariant kept by every continued iteration holds
    in the state from which the loop exits, and that state exits with the loop's value. -/
theorem iterate_exit {body : σ → σ ⊕ ρ} (I : σ → Prop)
    (hstep : ∀ s s', I s → body s = .inl s' → I s') :
    ∀ (n : Nat) (s : σ) (r : ρ), I s → iterate body n s = some r →
      ∃ s', I s' ∧ body s' = .inr r := by
  intro n
  induction n with
  | zero => intro s r _ h; simp [iterate] at h
  | succ n ih =>
    intro s r hs h
    cases hb : body s with
    | inr r' =>
      rw [iterate_succ_inr hb] at h
      cases h
      exact ⟨s, hs, hb⟩
    | inl s' =>
      rw [iterate_succ_inl hb] at h
      exact ih s' r (hstep s s' hs hb) h

/-! ### The states of a run -/

/-- The states of at most `n` iterations from `s`, the first and the last included. -/
def visited (body : σ → σ ⊕ ρ) : Nat → σ → List σ
  | 0, s => [s]
  | n + 1, s =>
    match body s with
    | .inl s' => s :: visited body n s'
    | .inr _ => [s]

/-- The states of a loop that goes on. -/
theorem visited_succ_inl {body : σ → σ ⊕ ρ} {s s' : σ} (h : body s = .inl s') (n : Nat) :
    visited body (n + 1) s = s :: visited body n s' := by
  simp only [visited, h]

/-- Those of a loop that ends. -/
theorem visited_succ_inr {body : σ → σ ⊕ ρ} {s : σ} {r : ρ} (h : body s = .inr r) (n : Nat) :
    visited body (n + 1) s = [s] := by
  simp only [visited, h]

/-- An invariant kept by every continued iteration holds in every state of the run. -/
theorem forall_mem_visited {body : σ → σ ⊕ ρ} (I : σ → Prop)
    (hstep : ∀ s s', I s → body s = .inl s' → I s') :
    ∀ (n : Nat) (s : σ), I s → ∀ t ∈ visited body n s, I t := by
  intro n
  induction n with
  | zero =>
    intro s hs t ht
    exact List.mem_singleton.mp ht ▸ hs
  | succ n ih =>
    intro s hs t ht
    cases hb : body s with
    | inr r =>
      rw [visited_succ_inr hb] at ht
      exact List.mem_singleton.mp ht ▸ hs
    | inl s' =>
      rw [visited_succ_inl hb] at ht
      rcases List.mem_cons.mp ht with rfl | ht
      · exact hs
      · exact ih s' (hstep s s' hs hb) t ht

/-- The last state of a run that ends is the one it exits from. -/
theorem getLast?_visited {body : σ → σ ⊕ ρ} :
    ∀ (n : Nat) (s : σ) (r : ρ), iterate body n s = some r →
      ∃ t, (visited body n s).getLast? = some t ∧ body t = .inr r := by
  intro n
  induction n with
  | zero => intro s r h; cases h
  | succ n ih =>
    intro s r h
    cases hb : body s with
    | inr r' =>
      rw [iterate_succ_inr hb] at h
      rw [visited_succ_inr hb]
      obtain rfl := Option.some.inj h
      exact ⟨s, rfl, hb⟩
    | inl s' =>
      rw [iterate_succ_inl hb] at h
      obtain ⟨t, hlast, hexit⟩ := ih s' r h
      rw [visited_succ_inl hb]
      refine ⟨t, ?_, hexit⟩
      rw [List.getLast?_cons, hlast]
      rfl

/-- **At most once.** `N` holds from the state after the first one with `P` on, and excludes `P`. -/
theorem countP_visited_le_one {body : σ → σ ⊕ ρ} {P : σ → Bool} (I N : σ → Prop)
    (hstep : ∀ s s', I s → body s = .inl s' → I s') (hnot : ∀ s, N s → P s = false)
    (hkeep : ∀ s s', N s → body s = .inl s' → N s')
    (hafter : ∀ s s', I s → P s = true → body s = .inl s' → N s') :
    ∀ (n : Nat) (s : σ), I s → (visited body n s).countP P ≤ 1 := by
  have hnone : ∀ n s, N s → (visited body n s).countP P = 0 := by
    intro n s hs
    refine List.countP_eq_zero.mpr fun t ht => ?_
    rw [hnot t (forall_mem_visited N hkeep n s hs t ht)]
    exact Bool.false_ne_true
  intro n
  induction n with
  | zero => exact fun s _ => List.countP_le_length
  | succ n ih =>
    intro s hs
    cases hb : body s with
    | inr r =>
      rw [visited_succ_inr hb]
      exact List.countP_le_length
    | inl s' =>
      rw [visited_succ_inl hb, List.countP_cons]
      cases hP : P s with
      | false => exact ih s' (hstep s s' hs hb)
      | true =>
        rw [hnone n s' (hafter s s' hs hP hb)]
        decide

/-! ### Without counting -/

/-- The loop gets from one state to the other. -/
abbrev Continues (body : σ → σ ⊕ ρ) : σ → σ → Prop :=
  Relation.ReflTransGen fun s s' => body s = .inl s'

/-- The loop ends with the value. -/
def Exits (body : σ → σ ⊕ ρ) (s : σ) (r : ρ) : Prop := ∃ n, iterate body n s = some r

section Exits

variable {body : σ → σ ⊕ ρ} {s s' : σ} {r r' : ρ}

/-- A loop that ends has its result. -/
theorem Exits.of_inr (h : body s = .inr r) : Exits body s r := ⟨1, iterate_succ_inr h 0⟩

/-- A loop that goes on has the result of the rest. -/
theorem Exits.of_continues (h : Continues body s s') (hr : Exits body s' r) : Exits body s r := by
  induction h using Relation.ReflTransGen.head_induction_on with
  | refl => exact hr
  | head hstep _ ih =>
    obtain ⟨n, hn⟩ := ih
    exact ⟨n + 1, (iterate_succ_inl hstep n).trans hn⟩

/-- **A loop ends in one way.** -/
theorem Exits.unique (h : Exits body s r) (h' : Exits body s r') : r = r' := by
  obtain ⟨n, hn⟩ := h
  obtain ⟨n', hn'⟩ := h'
  induction n generalizing s n' with
  | zero => cases hn
  | succ n ih =>
    cases n' with
    | zero => cases hn'
    | succ n' =>
      cases hb : body s with
      | inl s₁ =>
        rw [iterate_succ_inl hb] at hn hn'
        exact ih hn n' hn'
      | inr r₁ =>
        rw [iterate_succ_inr hb] at hn hn'
        exact Option.some.inj (hn.symm.trans hn')

end Exits

end Lib
