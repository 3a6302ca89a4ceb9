import Mathlib.Data.List.Forall2
import Mathlib.Data.List.Nodup

namespace Lib

/-!
# Lists

* `mem_of_lookup`, `lookup_of_mem`, `perm_cons_filter` — in a list with different keys a key is looked
  up to its one entry.
* `getElem?_concat_cases` — the entries of a list with one more element.
* `le_foldl_max` — a bound of all elements.
* `eq_of_eraseIdx_eq`, `mem_eraseIdx_or` — a list with one element less.
* `exists_mem_of_forall₂` — lists that are related element by element.
* `mapM_eq_some_iff`, `exists_of_mapM_eq_some`, `exists_mapM_eq_some` — when a traversal with a
  partial function has a result; `mapM_congr`, `mapM_map_congr`, `mapM_eraseIdx` — traversals with
  one result.
-/

variable {κ β : Type} [BEq κ] [LawfulBEq κ]

/-- What is looked up is in the list. -/
theorem mem_of_lookup {xs : List (κ × β)} {k : κ} {b : β} (h : xs.lookup k = some b) :
    (k, b) ∈ xs := by
  obtain ⟨l₁, l₂, rfl, -⟩ := List.lookup_eq_some_iff.mp h
  simp

omit [BEq κ] [LawfulBEq κ] in
/-- An entry of a list with different keys, and the entries with other keys. -/
theorem perm_cons_filter [DecidableEq κ] {xs : List (κ × β)} (hnodup : (xs.map Prod.fst).Nodup) {k : κ}
    {b : β} (h : (k, b) ∈ xs) : xs.Perm ((k, b) :: xs.filter (·.1 ≠ k)) := by
  induction xs with
  | nil => cases h
  | cons x xs ih =>
    obtain ⟨hx, hnodup⟩ := List.nodup_cons.mp hnodup
    rcases List.mem_cons.mp h with rfl | h
    · rw [List.filter_cons_of_neg (by simp), List.filter_eq_self.mpr]
      intro y hy
      simp only [ne_eq, decide_eq_true_eq]
      rintro rfl
      exact hx (List.mem_map.mpr ⟨y, hy, rfl⟩)
    · have hne : x.1 ≠ k := by
        rintro rfl
        exact hx (List.mem_map.mpr ⟨_, h, rfl⟩)
      rw [List.filter_cons_of_pos (by simpa using hne)]
      exact ((ih hnodup h).cons x).trans (List.Perm.swap _ _ _)

/-- In a list with different keys an entry is the one that its key is looked up to. -/
theorem lookup_of_mem {xs : List (κ × β)} (hnodup : (xs.map Prod.fst).Nodup) {k : κ} {b : β}
    (h : (k, b) ∈ xs) : xs.lookup k = some b := by
  induction xs with
  | nil => cases h
  | cons x xs ih =>
    rw [List.map_cons, List.nodup_cons] at hnodup
    rcases List.mem_cons.mp h with rfl | h
    · exact List.lookup_cons_self
    · have hne : (k == x.1) = false := by
        rw [beq_eq_false_iff_ne]
        intro hk
        exact hnodup.1 (List.mem_map.mpr ⟨(k, b), h, hk⟩)
      rw [List.lookup_cons, hne]
      exact ih hnodup.2 h

/-- An entry of a list with one more element. -/
theorem getElem?_concat_cases {α : Type} {xs : List α} {x y : α} {k : Nat}
    (h : (xs ++ [x])[k]? = some y) : xs[k]? = some y ∨ (k = xs.length ∧ y = x) := by
  rcases Nat.lt_or_ge k xs.length with hk | hk
  · rw [List.getElem?_append_left hk] at h
    exact .inl h
  · rw [List.getElem?_append_right hk, List.getElem?_singleton] at h
    split at h
    next hzero => exact .inr ⟨by omega, (Option.some.inj h).symm⟩
    next => cases h

/-- The maximum of a list is above its elements. -/
theorem le_foldl_max (xs : List Nat) : ∀ m, m ≤ xs.foldl max m ∧ ∀ x ∈ xs, x ≤ xs.foldl max m := by
  induction xs with
  | nil => simp
  | cons x xs ih =>
    intro m
    rw [List.foldl_cons]
    obtain ⟨hm, hxs⟩ := ih (max m x)
    refine ⟨by omega, fun y hy => ?_⟩
    rcases List.mem_cons.mp hy with rfl | hy
    · omega
    · exact hxs y hy

/-- In a list of different elements, what is left shows which one was erased. -/
theorem eq_of_eraseIdx_eq {α : Type} {xs : List α} (hnodup : xs.Nodup) {i j : Nat} (hi : i < xs.length)
    (h : xs.eraseIdx i = xs.eraseIdx j) : i = j := by
  by_contra hne
  have hmem : xs[i] ∈ xs.eraseIdx i := by
    rw [h, List.mem_eraseIdx_iff_getElem?]
    exact ⟨i, hne, List.getElem?_eq_getElem hi⟩
  obtain ⟨k, hk, hget⟩ := List.mem_eraseIdx_iff_getElem?.mp hmem
  obtain ⟨hlt, heq⟩ := List.getElem?_eq_some_iff.mp hget
  exact hk (hnodup.getElem_inj_iff.mp heq)

/-- An element of a list is left when one is erased, or is that one. -/
theorem mem_eraseIdx_or {α : Type} {xs : List α} {v : α} (hv : v ∈ xs) (i : Nat) (d : α) :
    v ∈ xs.eraseIdx i ∨ v = xs.getD i d := by
  obtain ⟨k, hk⟩ := List.getElem?_of_mem hv
  by_cases hki : k = i
  · rw [List.getD_eq_getElem?_getD, ← hki, hk]
    exact .inr rfl
  · exact .inl (List.mem_eraseIdx_iff_getElem?.mpr ⟨k, hki, hk⟩)

/-! ### Traversals with a partial function -/

/-- Mapping a list succeeds if it does for the first element and for the rest. -/
theorem mapM_cons_eq_some {α β : Type} {f : α → Option β} {x : α} {xs : List α} {ys : List β} :
    (x :: xs).mapM f = some ys ↔ ∃ y rest, f x = some y ∧ xs.mapM f = some rest ∧ ys = y :: rest := by
  rw [List.mapM_cons]
  simp only [Option.bind_eq_bind, Option.bind_eq_some_iff]
  constructor
  · rintro ⟨y, hy, rest, hrest, h⟩
    exact ⟨y, rest, hy, hrest, (Option.some.inj h).symm⟩
  · rintro ⟨y, rest, hy, hrest, rfl⟩
    exact ⟨y, hy, rest, hrest, rfl⟩

/-- In two lists that are related element by element, every element has its partner. -/
theorem exists_mem_of_forall₂ {α β : Type} {R : α → β → Prop} {xs : List α} {ys : List β}
    (h : List.Forall₂ R xs ys) {x : α} (hx : x ∈ xs) : ∃ y ∈ ys, R x y := by
  induction h with
  | nil => cases hx
  | @cons x' y xs ys hxy _ ih =>
    rcases List.mem_cons.mp hx with rfl | hx
    · exact ⟨y, List.mem_cons_self, hxy⟩
    · obtain ⟨y', hy', hR⟩ := ih hx
      exact ⟨y', List.mem_cons_of_mem _ hy', hR⟩

/-- The result of a traversal, element by element. -/
theorem mapM_eq_some_iff {α β : Type} {f : α → Option β} {xs : List α} :
    ∀ {ys : List β}, xs.mapM f = some ys ↔ List.Forall₂ (fun x y => f x = some y) xs ys := by
  induction xs with
  | nil =>
    intro ys
    rw [List.forall₂_nil_left_iff]
    exact ⟨fun h => (Option.some.inj h).symm, fun h => h ▸ rfl⟩
  | cons x xs ih =>
    intro ys
    rw [mapM_cons_eq_some, List.forall₂_cons_left_iff]
    constructor
    · rintro ⟨y, rest, hy, hrest, rfl⟩
      exact ⟨y, rest, hy, ih.mp hrest, rfl⟩
    · rintro ⟨y, rest, hy, hrest, rfl⟩
      exact ⟨y, rest, hy, ih.mpr hrest, rfl⟩

/-- Functions that agree on the list map it to the same. -/
theorem mapM_congr {α β : Type} {f g : α → Option β} {xs : List α} (h : ∀ x ∈ xs, g x = f x) :
    xs.mapM g = xs.mapM f := by
  induction xs with
  | nil => rfl
  | cons x xs ih =>
    rw [List.mapM_cons, List.mapM_cons, h x List.mem_cons_self,
      ih fun x' hx' => h x' (List.mem_cons_of_mem _ hx')]

/-- Mapping a list that succeeds does so for every element. -/
theorem exists_of_mapM_eq_some {α β : Type} {f : α → Option β} {xs : List α} :
    ∀ {ys : List β}, xs.mapM f = some ys → ys.length = xs.length ∧ ∀ x ∈ xs, (f x).isSome := by
  induction xs with
  | nil =>
    intro ys h
    obtain rfl := Option.some.inj h
    simp
  | cons x xs ih =>
    intro ys h
    obtain ⟨y, rest, hy, hrest, rfl⟩ := mapM_cons_eq_some.mp h
    obtain ⟨hlength, hall⟩ := ih hrest
    refine ⟨by rw [List.length_cons, List.length_cons, hlength], fun x' hx' => ?_⟩
    rcases List.mem_cons.mp hx' with rfl | hx'
    · rw [hy]
      rfl
    · exact hall x' hx'

/-- And conversely. -/
theorem exists_mapM_eq_some {α β : Type} {f : α → Option β} {xs : List α}
    (h : ∀ x ∈ xs, (f x).isSome) : ∃ ys, xs.mapM f = some ys := by
  induction xs with
  | nil => exact ⟨[], rfl⟩
  | cons x xs ih =>
    obtain ⟨y, hy⟩ := Option.isSome_iff_exists.mp (h x List.mem_cons_self)
    obtain ⟨ys, hys⟩ := ih fun x' hx' => h x' (List.mem_cons_of_mem _ hx')
    refine ⟨y :: ys, ?_⟩
    rw [List.mapM_cons, hy, hys]
    rfl

/-- Renaming before mapping. -/
theorem mapM_map_congr {α β γ : Type} {f : α → Option β} {g : γ → Option β} {ρ : α → γ}
    {xs : List α} (h : ∀ x ∈ xs, g (ρ x) = f x) : (xs.map ρ).mapM g = xs.mapM f := by
  rw [List.mapM_map]
  exact mapM_congr h

/-- Leaving out one element. -/
theorem mapM_eraseIdx {α β : Type} {f g : α → Option β} {xs : List α} {j : Nat} :
    ∀ {ys : List β}, xs.mapM f = some ys → (∀ i x, i ≠ j → xs[i]? = some x → g x = f x) →
      (xs.eraseIdx j).mapM g = some (ys.eraseIdx j) := by
  induction xs generalizing j with
  | nil =>
    intro ys h _
    obtain rfl := Option.some.inj h
    rfl
  | cons x xs ih =>
    intro ys h hg
    obtain ⟨y, rest, hy, hrest, rfl⟩ := mapM_cons_eq_some.mp h
    cases j with
    | zero =>
      have hcongr : ∀ x ∈ xs, g x = f x := by
        intro x hx
        obtain ⟨i, hi⟩ := List.getElem?_of_mem hx
        exact hg (i + 1) x (Nat.succ_ne_zero i) hi
      rw [List.eraseIdx_cons_zero, List.eraseIdx_cons_zero, mapM_congr hcongr, hrest]
    | succ j =>
      rw [List.eraseIdx_cons_succ, List.eraseIdx_cons_succ, List.mapM_cons,
        hg 0 x (Nat.zero_ne_add_one j) rfl, hy, ih hrest fun i x hi hx => hg (i + 1) x (by omega) hx]
      rfl

end Lib
