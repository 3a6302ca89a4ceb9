import Mathlib.Data.List.Infix

namespace Lib

/-!
# Loops that can be left early

A loop over a list whose body may `break`.

* `loop` — the loop; `loop_next` is a loop that is never left, `loop_eq_foldl` one that is left
  at the first element with a property.
* `throughFirst p as` — the elements that such a loop sees: those up to the first with `p`, and
  that one.
-/

/-- What a pass of a loop body does: go on to the next pass, or leave the loop. -/
inductive Flow (σ : Type*)
  | next (s : σ)
  | leave (s : σ)

variable {α β σ : Type*}

/-- `for (a : as) s = body(a, s);` -/
def loop (body : α → σ → Flow σ) : List α → σ → σ
  | [], s => s
  | a :: as, s =>
    match body a s with
    | .next s' => loop body as s'
    | .leave s' => s'

/-- The elements up to the first with `p`, and that one. -/
def throughFirst (p : α → Bool) : List α → List α
  | [] => []
  | a :: as => if p a then [a] else a :: throughFirst p as

/-! ### Loops as folds -/

/-- A loop that is never left sees every element. -/
theorem loop_next (f : α → σ → σ) (as : List α) (s : σ) :
    loop (fun a s => .next (f a s)) as s = as.foldl (fun s a => f a s) s := by
  induction as generalizing s with
  | nil => rfl
  | cons a as ih => exact ih (f a s)

/-- A loop that is left at the first element with `p` sees the elements through that one. -/
theorem loop_eq_foldl {body : α → σ → Flow σ} {f : α → σ → σ} {p : α → Bool}
    (hbody : ∀ a s, body a s = if p a then .leave (f a s) else .next (f a s)) (as : List α)
    (s : σ) : loop body as s = (throughFirst p as).foldl (fun s a => f a s) s := by
  induction as generalizing s with
  | nil => rfl
  | cons a as ih =>
    rw [loop, throughFirst, hbody]
    by_cases ha : p a
    · rw [if_pos ha, if_pos ha]
      rfl
    · rw [if_neg ha, if_neg ha]
      exact ih (f a s)

/-! ### The elements through the first -/

section ThroughFirst

variable {p : α → Bool}

/-- What comes up to the first is a prefix. -/
theorem throughFirst_isPrefix (p : α → Bool) (as : List α) : throughFirst p as <+: as := by
  induction as with
  | nil => exact List.prefix_refl _
  | cons a as ih =>
    rw [throughFirst]
    split
    · exact ⟨as, rfl⟩
    · exact (List.prefix_cons_inj a).mpr ih

/-- Without a first it is the whole list. -/
theorem throughFirst_eq_self {as : List α} (h : ∀ a ∈ as, p a = false) :
    throughFirst p as = as := by
  induction as with
  | nil => rfl
  | cons a as ih =>
    rw [throughFirst, if_neg (by simp [h a List.mem_cons_self]),
      ih fun b hb => h b (List.mem_cons_of_mem a hb)]

/-- A prefix without `p` is seen as a whole. -/
theorem throughFirst_append {as : List α} (bs : List α) (h : ∀ a ∈ as, p a = false) :
    throughFirst p (as ++ bs) = as ++ throughFirst p bs := by
  induction as with
  | nil => rfl
  | cons a as ih =>
    rw [List.cons_append, throughFirst, if_neg (by simp [h a List.mem_cons_self]),
      ih fun b hb => h b (List.mem_cons_of_mem a hb), List.cons_append]

/-- Nothing is seen after a prefix with an element that has `p`. -/
theorem throughFirst_append_of_mem {as : List α} (bs : List α) {a : α} (ha : a ∈ as)
    (hp : p a = true) : throughFirst p (as ++ bs) = throughFirst p as := by
  induction as with
  | nil => cases ha
  | cons b as ih =>
    rw [List.cons_append, throughFirst, throughFirst]
    by_cases hb : p b
    · rw [if_pos hb, if_pos hb]
    · rw [if_neg hb, if_neg hb]
      rcases List.mem_cons.mp ha with rfl | ha
      · exact absurd hp hb
      · rw [ih ha]

/-- Renaming before. -/
theorem throughFirst_map (f : β → α) (bs : List β) :
    throughFirst p (bs.map f) = (throughFirst (p ∘ f) bs).map f := by
  induction bs with
  | nil => rfl
  | cons b bs ih =>
    rw [List.map_cons, throughFirst, throughFirst, ih]
    by_cases hb : p (f b)
    · rw [if_pos hb, if_pos (show (p ∘ f) b = true from hb)]
      rfl
    · rw [if_neg hb, if_neg (show ¬ (p ∘ f) b = true from hb)]
      rfl

/-- The last element seen is the first with `p`, or the last of all. -/
theorem getLast?_throughFirst (as : List α) :
    (throughFirst p as).getLast? = (as.find? p).or as.getLast? := by
  induction as with
  | nil => rfl
  | cons a as ih =>
    rw [throughFirst, List.find?_cons]
    by_cases ha : p a
    · rw [if_pos ha, ha]
      rfl
    · rw [if_neg ha, (Bool.not_eq_true _).mp ha, List.getLast?_cons, ih,
        List.getLast?_cons]
      cases as.find? p <;> rfl

end ThroughFirst

end Lib
