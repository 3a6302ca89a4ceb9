import Mathlib.Data.List.Basic
import Mathlib.Data.List.GetD

namespace Lib

/-!
# Scattering values into a list

`scatter idxs f xs` stores `f i` at every index `i` of `idxs`: the shape of a loop
`for (i : idxs) xs[i] = f(i);`.  The value of the result at an index is given by
`getD_scatter`; everything else about such loops follows from it.  A loop that updates
each listed entry from its own old value is a scatter as well (`foldl_set_eq_scatter`).
-/

variable {α : Type*}

/-- Store `f i` at each index `i` of `idxs`, in order. -/
def scatter (idxs : List Nat) (f : Nat → α) (xs : List α) : List α :=
  idxs.foldl (fun ys i => ys.set i (f i)) xs

/-- Nothing is scattered to no positions. -/
@[simp] theorem scatter_nil (f : Nat → α) (xs : List α) : scatter [] f xs = xs := rfl

/-- Scattering, by its first position. -/
@[simp] theorem scatter_cons (i : Nat) (idxs : List Nat) (f : Nat → α) (xs : List α) :
    scatter (i :: idxs) f xs = scatter idxs f (xs.set i (f i)) := rfl

/-- Scattering keeps the length. -/
@[simp] theorem length_scatter (idxs : List Nat) (f : Nat → α) (xs : List α) :
    (scatter idxs f xs).length = xs.length := by
  induction idxs generalizing xs with
  | nil => rfl
  | cons i idxs ih => rw [scatter_cons, ih, List.length_set]

/-- The entries of a constant list, with the same value outside of it. -/
theorem getD_replicate_self (n i : Nat) (d : α) : (List.replicate n d).getD i d = d := by
  rw [List.getD_eq_getElem?_getD, List.getElem?_getD_replicate_default_eq]

/-- The entry of a list after one store. -/
theorem getD_set (xs : List α) (i j : Nat) (v d : α) :
    (xs.set i v).getD j d = if i = j ∧ j < xs.length then v else xs.getD j d := by
  simp only [List.getD_eq_getElem?_getD, List.getElem?_set]
  by_cases hij : i = j
  · subst hij
    by_cases hi : i < xs.length
    · simp [hi]
    · simp [hi]
  · simp [hij]

/-- The entry of a list after scattering: the scattered value at the listed
    indices, the old entry elsewhere. -/
theorem getD_scatter (idxs : List Nat) (f : Nat → α) (xs : List α) (j : Nat) (d : α) :
    (scatter idxs f xs).getD j d =
      if j ∈ idxs ∧ j < xs.length then f j else xs.getD j d := by
  induction idxs generalizing xs with
  | nil => simp
  | cons i idxs ih =>
    rw [scatter_cons, ih, List.length_set, getD_set]
    by_cases hj : j < xs.length
    · by_cases hmem : j ∈ idxs
      · simp [hj, hmem]
      · by_cases hij : i = j
        · subst hij; simp [hj]
        · simp [hij, Ne.symm hij]
    · simp [hj]

/-- Scattered values only matter at the listed indices. -/
theorem scatter_congr {idxs : List Nat} {f g : Nat → α} (h : ∀ i ∈ idxs, f i = g i)
    (xs : List α) : scatter idxs f xs = scatter idxs g xs := by
  induction idxs generalizing xs with
  | nil => rfl
  | cons i idxs ih =>
    rw [scatter_cons, scatter_cons, h i (by simp), ih fun j hj => h j (by simp [hj])]

/-- Updating each of some distinct entries from its old value scatters the new values. -/
theorem foldl_set_eq_scatter {idxs : List Nat} (hnodup : idxs.Nodup) (g : Nat → α → α) (d : α)
    (xs : List α) :
    idxs.foldl (fun ys i => ys.set i (g i (ys.getD i d))) xs
      = scatter idxs (fun i => g i (xs.getD i d)) xs := by
  induction idxs generalizing xs with
  | nil => rfl
  | cons i idxs ih =>
    obtain ⟨hi, hnodup⟩ := List.nodup_cons.mp hnodup
    rw [List.foldl_cons, ih hnodup, scatter_cons]
    refine scatter_congr (fun j hj => ?_) _
    -- the entry at `j` has not been touched by the store at `i`
    rw [getD_set, if_neg]
    rintro ⟨rfl, _⟩
    exact hi hj

/-- Storing an entry's own value changes nothing. -/
theorem set_getD_self (xs : List α) (i : Nat) (d : α) : xs.set i (xs.getD i d) = xs := by
  by_cases hi : i < xs.length
  · rw [List.getD_eq_getElem xs d hi, List.set_getElem_self]
  · exact List.set_eq_of_length_le (by omega)

end Lib
