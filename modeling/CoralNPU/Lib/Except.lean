import Mathlib.Data.List.Forall2
import Mathlib.Logic.Basic

namespace Lib

/-!
# Computations that may fail

Rules for `do` blocks in `Except`: how a bind computes on a known result, and what a bind
with a known result says about its parts (`bind_eq_ok`, `bind_eq_error`).  A proof about a
pass peels the block apart with these, one step of the block at a time.  `bind_isOk_iff`
says when it succeeds, and `forM_eq_ok` and `foldlM_prefix` are the rules for loops.
-/

universe u v

variable {ε : Type u} {α β : Type v}

/-- After a success comes the next part. -/
@[simp] theorem ok_bind (a : α) (f : α → Except ε β) : (Except.ok a >>= f) = f a := rfl

/-- After an error comes nothing. -/
@[simp] theorem error_bind (e : ε) (f : α → Except ε β) :
    ((Except.error e : Except ε α) >>= f) = .error e := rfl

/-- A value is a success. -/
@[simp] theorem pure_eq_ok (a : α) : (pure a : Except ε α) = .ok a := rfl

/-- A raised error is an error. -/
@[simp] theorem throw_eq_error (e : ε) : (throw e : Except ε α) = .error e := rfl

/-- A result that was computed as an option. -/
theorem eq_ok_of_toOption {x : Except ε α} {a : α} (h : x.toOption = some a) : x = .ok a := by
  cases x with
  | error e => cases h
  | ok b => exact congrArg _ (Option.some.inj h)

/-- A bind succeeds when both parts do. -/
theorem bind_eq_ok {x : Except ε α} {f : α → Except ε β} {r : β} :
    (x >>= f) = .ok r ↔ ∃ a, x = .ok a ∧ f a = .ok r := by
  cases x with
  | error e => simp
  | ok a => simp

/-- A bind fails when its first part does, or its second part on the first's result. -/
theorem bind_eq_error {x : Except ε α} {f : α → Except ε β} {e : ε} :
    (x >>= f) = .error e ↔ x = .error e ∨ ∃ a, x = .ok a ∧ f a = .error e := by
  cases x with
  | error e' => simp
  | ok a => simp

/-- A bind whose second part always succeeds succeeds when its first part does. -/
theorem bind_isOk_iff {x : Except ε α} {f : α → Except ε β} (hf : ∀ a, ∃ b, f a = .ok b) :
    (∃ b, (x >>= f) = .ok b) ↔ ∃ a, x = .ok a := by
  constructor
  · rintro ⟨b, h⟩
    obtain ⟨a, ha, -⟩ := bind_eq_ok.mp h
    exact ⟨a, ha⟩
  · rintro ⟨a, ha⟩
    obtain ⟨b, hb⟩ := hf a
    exact ⟨b, bind_eq_ok.mpr ⟨a, ha, hb⟩⟩

/-- A loop of checks passes if every check passes. -/
theorem forM_eq_ok {γ : Type} {f : γ → Except ε Unit} {xs : List γ} :
    xs.forM f = .ok () ↔ ∀ x ∈ xs, f x = .ok () := by
  induction xs with
  | nil => exact iff_of_true rfl fun x hx => absurd hx List.not_mem_nil
  | cons x xs ih =>
    show (f x >>= fun _ => xs.forM f) = .ok () ↔ _
    rw [bind_eq_ok, List.forall_mem_cons, ← ih]
    exact ⟨fun ⟨_, hx, hxs⟩ => ⟨hx, hxs⟩, fun ⟨hx, hxs⟩ => ⟨(), hx, hxs⟩⟩

/-- A fold whose steps do not fail is the pure fold. -/
theorem foldlM_eq_ok_foldl {f : β → α → Except ε β} {g : β → α → β} {xs : List α}
    (h : ∀ b, ∀ x ∈ xs, f b x = .ok (g b x)) (b : β) : xs.foldlM f b = .ok (xs.foldl g b) := by
  induction xs generalizing b with
  | nil => rfl
  | cons x xs ih =>
    rw [List.foldlM_cons, h b x (by simp), ok_bind, ih fun b' y hy => h b' y (by simp [hy]),
      List.foldl_cons]

/-- Every result of a traversal is that of an element. -/
theorem exists_of_mem_mapM {f : α → Except ε β} {xs : List α} :
    ∀ {ys : List β}, xs.mapM f = .ok ys → ∀ y ∈ ys, ∃ x ∈ xs, f x = .ok y := by
  induction xs with
  | nil =>
    intro ys h y hy
    obtain rfl := Except.ok.inj h
    cases hy
  | cons x xs ih =>
    intro ys h y hy
    rw [List.mapM_cons] at h
    obtain ⟨y₀, hy₀, h⟩ := bind_eq_ok.mp h
    obtain ⟨rest, hrest, h⟩ := bind_eq_ok.mp h
    obtain rfl := Except.ok.inj h
    rcases List.mem_cons.mp hy with rfl | hy
    · exact ⟨x, List.mem_cons_self, hy₀⟩
    · obtain ⟨x', hx', hfx'⟩ := ih hrest y hy
      exact ⟨x', List.mem_cons_of_mem _ hx', hfx'⟩

/-- A traversal whose steps do not fail is the pure one. -/
theorem mapM_eq_ok_map {f : α → Except ε β} {g : α → β} {xs : List α}
    (h : ∀ x ∈ xs, f x = .ok (g x)) : xs.mapM f = .ok (xs.map g) := by
  induction xs with
  | nil => rfl
  | cons x xs ih =>
    obtain ⟨hx, hxs⟩ := List.forall_mem_cons.mp h
    rw [List.mapM_cons, hx, ok_bind, ih hxs]
    rfl

/-- A traversal succeeds at every element. -/
theorem exists_ok_of_mapM {f : α → Except ε β} {xs : List α} :
    ∀ {ys : List β}, xs.mapM f = .ok ys → ∀ x ∈ xs, ∃ y, f x = .ok y := by
  induction xs with
  | nil => exact fun _ x hx => absurd hx List.not_mem_nil
  | cons x xs ih =>
    intro ys h
    rw [List.mapM_cons] at h
    obtain ⟨y, hy, h⟩ := bind_eq_ok.mp h
    obtain ⟨rest, hrest, -⟩ := bind_eq_ok.mp h
    exact List.forall_mem_cons.mpr ⟨⟨y, hy⟩, ih hrest⟩

/-- The result of a traversal, element by element. -/
theorem mapM_eq_ok_iff {f : α → Except ε β} {xs : List α} :
    ∀ {ys : List β}, xs.mapM f = .ok ys ↔ List.Forall₂ (fun x y => f x = .ok y) xs ys := by
  induction xs with
  | nil =>
    intro ys
    rw [List.forall₂_nil_left_iff]
    exact ⟨fun h => (Except.ok.inj h).symm, fun h => h ▸ rfl⟩
  | cons x xs ih =>
    intro ys
    rw [List.mapM_cons, bind_eq_ok, List.forall₂_cons_left_iff]
    constructor
    · rintro ⟨y, hy, h⟩
      obtain ⟨rest, hrest, h⟩ := bind_eq_ok.mp h
      exact ⟨y, rest, hy, ih.mp hrest, (Except.ok.inj h).symm⟩
    · rintro ⟨y, rest, hy, hrest, rfl⟩
      exact ⟨y, hy, bind_eq_ok.mpr ⟨rest, ih.mpr hrest, rfl⟩⟩

/-- **The prefix rule for a fold.** What holds of the elements gone through and the state, and is
    preserved by a step, holds of all elements at the end. -/
theorem foldlM_prefix {f : β → α → Except ε β} (I : List α → β → Prop) {xs : List α}
    (hstep : ∀ done b b', ∀ x ∈ xs, I done b → f b x = .ok b' → I (done ++ [x]) b') :
    ∀ {done : List α} {b b' : β}, I done b → xs.foldlM f b = .ok b' → I (done ++ xs) b' := by
  induction xs with
  | nil =>
    intro done b b' hb h
    obtain rfl := Except.ok.inj h
    rwa [List.append_nil]
  | cons x xs ih =>
    intro done b b' hb h
    rw [List.foldlM_cons] at h
    obtain ⟨b₁, h₁, h⟩ := bind_eq_ok.mp h
    have hb₁ := hstep done b b₁ x (by simp) hb h₁
    have := ih (fun done b b' y hy => hstep done b b' y (by simp [hy])) hb₁ h
    rwa [List.append_assoc, List.singleton_append] at this

end Lib
