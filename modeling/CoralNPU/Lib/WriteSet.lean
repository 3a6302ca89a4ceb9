import Mathlib.Logic.Nontrivial.Basic
import Mathlib.Data.List.Basic

namespace Lib

/-!
# Operations known by their write sets

An operation on a store is known only by the places that it may write; what it writes there is
open.  Moving a read over such operations is right exactly when they do not write the place.

* `MayStep`, `MayRun` — what one operation, and a list of them, may leave;
* `mayRun_iff` — a list of operations may leave anything in the places of its write sets, and
  leaves the others alone;
* `read_moved_iff` — a read of `b` before gives what a read of `a` gives after exactly when `a` is
  `b` and is not written;
* `not_read_constant` — a read after gives no fixed value.
-/

variable {α β : Type} [DecidableEq α]

/-- An operation that may write the places of `writes` leads from `m` to `m'`. -/
def MayStep (writes : List α) (m m' : α → β) : Prop := ∀ a, a ∉ writes → m' a = m a

/-- Operations with the given write sets lead from `m` to `m'`. -/
def MayRun : List (List α) → (α → β) → (α → β) → Prop
  | [], m, m' => m' = m
  | writes :: ops, m, m' => ∃ m₁, MayStep writes m m₁ ∧ MayRun ops m₁ m'

/-- **What operations may leave.** -/
theorem mayRun_iff {ops : List (List α)} {m m' : α → β} :
    MayRun ops m m' ↔ ∀ a, (∀ writes ∈ ops, a ∉ writes) → m' a = m a := by
  induction ops generalizing m with
  | nil =>
    constructor
    · rintro rfl a _
      rfl
    · intro h
      ext a
      exact h a (by simp)
  | cons writes ops ih =>
    constructor
    · rintro ⟨m₁, hstep, hrun⟩ a ha
      obtain ⟨hfirst, hrest⟩ := List.forall_mem_cons.mp ha
      rw [ih.mp hrun a hrest, hstep a hfirst]
    · intro h
      -- the first operation writes the final values to its places
      refine ⟨fun a => if a ∈ writes then m' a else m a, fun a ha => if_neg ha, ih.mpr ?_⟩
      intro a ha
      show m' a = if a ∈ writes then m' a else m a
      by_cases hmem : a ∈ writes
      · rw [if_pos hmem]
      · rw [if_neg hmem]
        exact h a (List.forall_mem_cons.mpr ⟨hmem, ha⟩)

theorem mayRun_refl (ops : List (List α)) (m : α → β) : MayRun ops m m :=
  mayRun_iff.mpr fun _ _ => rfl

/-- Operations may leave any value in a place that one of them writes. -/
theorem mayRun_update {ops : List (List α)} {writes : List α} (hop : writes ∈ ops) {a : α}
    (ha : a ∈ writes) (m : α → β) (v : β) : MayRun ops m (Function.update m a v) := by
  refine mayRun_iff.mpr fun b hb => Function.update_of_ne ?_ v m
  rintro rfl
  exact hb writes hop ha

variable [Nontrivial β]

/-- **A read that is moved** over operations gives the same value, whatever they write, exactly
    when it reads the same place and none of them writes it. -/
theorem read_moved_iff {ops : List (List α)} {a b : α} :
    (∀ m m' : α → β, MayRun ops m m' → m' a = m b) ↔ a = b ∧ ∀ writes ∈ ops, a ∉ writes := by
  obtain ⟨x, y, hxy⟩ := exists_pair_ne β
  constructor
  · intro h
    have hplace : a = b := by
      by_contra hne
      -- a store that holds `x` at `a` and `y` everywhere else
      have heq := h (Function.update (fun _ => y) a x) _ (mayRun_refl ops _)
      rw [Function.update_self, Function.update_of_ne (Ne.symm hne)] at heq
      exact hxy heq
    subst hplace
    refine ⟨rfl, fun writes hop ha => ?_⟩
    have heq := h (fun _ => y) _ (mayRun_update hop ha _ x)
    rw [Function.update_self] at heq
    exact hxy heq
  · rintro ⟨rfl, hwrites⟩ m m' hrun
    exact mayRun_iff.mp hrun a hwrites

omit [DecidableEq α] in
/-- A read gives no fixed value. -/
theorem not_read_constant (a : α) (c : β) : ¬ ∀ m : α → β, m a = c := by
  obtain ⟨v, hv⟩ := exists_ne c
  exact fun h => hv (h fun _ => v)

end Lib
