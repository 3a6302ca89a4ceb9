import Mathlib.Data.List.Basic
import Mathlib.Logic.Function.Basic

namespace Lib

/-!
# Reference counts

Objects that exist as long as their count is not zero.

* `retain`, `release` — one more and one less reference; undefined where the object does not exist.
* `Tally` — the counts are the numbers of the references that are held.
* `tally_createAll`, `retainAll_tally`, `releaseAll_tally` — what creating, retaining and releasing
  objects does to the references, and that it is defined.
-/

variable {ι : Type} [DecidableEq ι]

/-- A new object, with one reference. -/
def create (counts : ι → Nat) (i : ι) : ι → Nat := Function.update counts i 1

/-- One more reference. -/
def retain (counts : ι → Nat) (i : ι) : Option (ι → Nat) :=
  if counts i = 0 then none else some (Function.update counts i (counts i + 1))

/-- One reference less; without references the object is destroyed. -/
def release (counts : ι → Nat) (i : ι) : Option (ι → Nat) :=
  if counts i = 0 then none else some (Function.update counts i (counts i - 1))

/-- Creating several objects, one after the other. -/
def createAll (counts : ι → Nat) (is : List ι) : ι → Nat := is.foldl create counts

/-- Retaining several. -/
def retainAll (counts : ι → Nat) (is : List ι) : Option (ι → Nat) := is.foldlM retain counts

/-- Releasing several; `none` if one has no reference left. -/
def releaseAll (counts : ι → Nat) (is : List ι) : Option (ι → Nat) := is.foldlM release counts

/-- The count of every object is the number of references to it. -/
def Tally (counts : ι → Nat) (refs : List ι) : Prop := ∀ i, counts i = refs.count i

section Rules

variable {counts : ι → Nat} {refs : List ι}

/-- The order of the references does not matter. -/
theorem Tally.perm {refs' : List ι} (h : Tally counts refs) (hperm : refs.Perm refs') :
    Tally counts refs' := fun i => (h i).trans (hperm.count_eq i)

/-- An object exists as long as there is a reference to it. -/
theorem Tally.pos_iff (h : Tally counts refs) (i : ι) : 0 < counts i ↔ i ∈ refs := by
  rw [h i, List.count_pos_iff]

/-- A new object has one reference. -/
theorem tally_create (h : Tally counts refs) {i : ι} (hi : counts i = 0) :
    Tally (create counts i) (i :: refs) := by
  intro j
  rw [create, Function.update_apply, List.count_cons]
  by_cases hj : j = i
  · rw [if_pos hj, hj, ← h i, hi, if_pos (beq_self_eq_true i)]
  · rw [if_neg hj, h j, if_neg (by simpa using Ne.symm hj), Nat.add_zero]

/-- An object with a reference can be retained. -/
theorem retain_tally (h : Tally counts refs) {i : ι} (hi : i ∈ refs) :
    ∃ counts', retain counts i = some counts' ∧ Tally counts' (i :: refs) := by
  have hpos := (h.pos_iff i).mpr hi
  refine ⟨_, if_neg (Nat.pos_iff_ne_zero.mp hpos), fun j => ?_⟩
  rw [Function.update_apply, List.count_cons]
  by_cases hj : j = i
  · rw [if_pos hj, hj, ← h i, if_pos (beq_self_eq_true i)]
  · rw [if_neg hj, h j, if_neg (by simpa using Ne.symm hj), Nat.add_zero]

/-- A reference that is counted can be released. -/
theorem release_tally {i : ι} (h : Tally counts (i :: refs)) :
    ∃ counts', release counts i = some counts' ∧ Tally counts' refs := by
  have hpos := (h.pos_iff i).mpr List.mem_cons_self
  refine ⟨_, if_neg (Nat.pos_iff_ne_zero.mp hpos), fun j => ?_⟩
  have hj := h j
  rw [List.count_cons] at hj
  rw [Function.update_apply]
  by_cases heq : j = i
  · rw [heq, if_pos (beq_self_eq_true i)] at hj
    rw [if_pos heq, heq, hj, Nat.add_sub_cancel]
  · rw [if_neg heq, hj, if_neg (by simpa using Ne.symm heq), Nat.add_zero]

/-- **Creating** objects that do not exist. -/
theorem tally_createAll {is : List ι} (hnodup : is.Nodup) :
    ∀ {counts : ι → Nat} {refs : List ι}, Tally counts refs → (∀ i ∈ is, counts i = 0) →
      Tally (createAll counts is) (is ++ refs) := by
  induction is with
  | nil => exact fun h _ => h
  | cons i is ih =>
    intro counts refs h hnew
    obtain ⟨hi, hnodup⟩ := List.nodup_cons.mp hnodup
    have hone := tally_create h (hnew i List.mem_cons_self)
    refine (ih hnodup hone fun j hj => ?_).perm List.perm_middle
    have hne : j ≠ i := by
      rintro rfl
      exact hi hj
    rw [create, Function.update_of_ne hne]
    exact hnew j (List.mem_cons_of_mem i hj)

/-- **Retaining** objects to which there are references. -/
theorem retainAll_tally {is : List ι} : ∀ {counts : ι → Nat} {refs : List ι}, Tally counts refs →
    (∀ i ∈ is, i ∈ refs) →
      ∃ counts', retainAll counts is = some counts' ∧ Tally counts' (is ++ refs) := by
  induction is with
  | nil => exact fun h _ => ⟨_, rfl, h⟩
  | cons i is ih =>
    intro counts refs h hrefs
    obtain ⟨counts₁, hone, htally⟩ := retain_tally h (hrefs i List.mem_cons_self)
    obtain ⟨counts', hrest, htally'⟩ := ih htally fun j hj =>
      List.mem_cons_of_mem i (hrefs j (List.mem_cons_of_mem i hj))
    refine ⟨counts', ?_, htally'.perm List.perm_middle⟩
    rw [retainAll, List.foldlM_cons, hone]
    exact hrest

/-- **Releasing** references that are held. -/
theorem releaseAll_tally {is : List ι} : ∀ {counts : ι → Nat} {refs : List ι},
    Tally counts (is ++ refs) → ∃ counts', releaseAll counts is = some counts' ∧ Tally counts' refs := by
  induction is with
  | nil => exact fun h => ⟨_, rfl, h⟩
  | cons i is ih =>
    intro counts refs h
    obtain ⟨counts₁, hone, htally⟩ := release_tally h
    obtain ⟨counts', hrest, htally'⟩ := ih htally
    refine ⟨counts', ?_, htally'⟩
    rw [releaseAll, List.foldlM_cons, hone]
    exact hrest

end Rules

end Lib
