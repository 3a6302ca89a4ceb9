import Mathlib.Data.List.Basic
import Mathlib.Data.List.Induction

namespace Lib

/-!
# Tables that collect by key

A loop that looks up the row of every element in a table, inserts the row if it is not there and changes
it, groups the elements by their keys.

* `upsert` — one turn of the loop.
* `groupFold` — the rows: the keys in the order in which they occur first, and under each key the fold
  over the elements with that key.
* `foldl_upsert` — the loop makes these rows.
* `groups_perm` — every element is in one group; `sumOf_groups` — sums over the groups add up to the sum
  over all elements.
-/

variable {α β κ : Type*} [DecidableEq κ]

/-- Change the row of a key, after inserting `init` for it if it has no row. -/
def upsert (key : κ) (init : β) (f : β → β) (rows : List (κ × β)) : List (κ × β) :=
  if key ∈ rows.map Prod.fst then rows.map fun row => (row.1, if row.1 = key then f row.2 else row.2)
  else rows ++ [(key, f init)]

/-- The keys of the elements, in the order in which they occur first. -/
def keysOf (key : α → κ) (xs : List α) : List κ := (xs.map key).eraseDups

/-- The rows of the elements by their keys. -/
def groupFold (key : α → κ) (init : β) (step : β → α → β) (xs : List α) : List (κ × β) :=
  (keysOf key xs).map fun k => (k, (xs.filter (key · = k)).foldl step init)

/-- The groups are in the order of their keys. -/
theorem map_fst_groupFold (key : α → κ) (init : β) (step : β → α → β) (xs : List α) :
    (groupFold key init step xs).map Prod.fst = keysOf key xs := by
  rw [groupFold, List.map_map]
  exact List.map_id _

/-- The keys are those of the elements. -/
theorem mem_keysOf {key : α → κ} {xs : List α} {k : κ} : k ∈ keysOf key xs ↔ ∃ x ∈ xs, key x = k := by
  rw [keysOf, List.mem_eraseDups, List.mem_map]

/-- An element with a known key adds no key, any other adds its own at the end. -/
theorem keysOf_concat (key : α → κ) (xs : List α) (x : α) :
    keysOf key (xs ++ [x]) = keysOf key xs ++ if key x ∈ keysOf key xs then [] else [key x] := by
  have hmem : key x ∈ keysOf key xs ↔ key x ∈ xs.map key := by rw [keysOf, List.mem_eraseDups]
  rw [keysOf, List.map_append, List.map_singleton, List.eraseDups_append, List.removeAll]
  by_cases hk : key x ∈ xs.map key
  · rw [if_pos (hmem.mpr hk), List.filter_cons_of_neg (by simpa using hk), List.filter_nil,
      List.eraseDups_nil, keysOf]
  · rw [if_neg (mt hmem.mp hk), List.filter_cons_of_pos (by simpa using hk), List.filter_nil,
      List.eraseDups_cons, List.filter_nil, List.eraseDups_nil, keysOf]

/-- No key comes twice. -/
theorem nodup_keysOf (key : α → κ) (xs : List α) : (keysOf key xs).Nodup := by
  induction xs using List.reverseRecOn with
  | nil => exact List.nodup_nil
  | append_singleton xs x ih =>
    rw [keysOf_concat]
    split
    next => rwa [List.append_nil]
    next hnew => exact List.nodup_append.mpr ⟨ih, List.pairwise_singleton _ _, by
      rintro k hk l hl rfl
      exact hnew (List.mem_singleton.mp hl ▸ hk)⟩

/-- **One turn of the loop** adds one element to the groups. -/
theorem upsert_groupFold (key : α → κ) (init : β) (step : β → α → β) (xs : List α) (x : α) :
    upsert (key x) init (step · x) (groupFold key init step xs)
      = groupFold key init step (xs ++ [x]) := by
  -- the group of another key is the same, that of the key gets the element
  have hgroup : ∀ k, ((xs ++ [x]).filter (key · = k)).foldl step init
      = if k = key x then step ((xs.filter (key · = k)).foldl step init) x
        else (xs.filter (key · = k)).foldl step init := by
    intro k
    rw [List.filter_append, List.foldl_append]
    by_cases hk : k = key x
    · rw [if_pos hk, List.filter_cons_of_pos (by simpa using hk.symm), List.filter_nil]
      rfl
    · rw [if_neg hk, List.filter_cons_of_neg (by simpa using fun h => hk h.symm), List.filter_nil]
      rfl
  have hall : groupFold key init step (xs ++ [x])
      = (keysOf key xs ++ if key x ∈ keysOf key xs then [] else [key x]).map fun k =>
        (k, if k = key x then step ((xs.filter (key · = k)).foldl step init) x
          else (xs.filter (key · = k)).foldl step init) := by
    rw [groupFold, keysOf_concat]
    exact List.map_congr_left fun k _ => congrArg (k, ·) (hgroup k)
  have hrow : key x ∈ (groupFold key init step xs).map Prod.fst ↔ key x ∈ keysOf key xs := by
    rw [map_fst_groupFold]
  rw [upsert, hall]
  by_cases hmem : key x ∈ keysOf key xs
  · rw [if_pos (hrow.mpr hmem), if_pos hmem, List.append_nil, groupFold, List.map_map]
    rfl
  · have hempty : xs.filter (key · = key x) = [] := by
      rw [List.filter_eq_nil_iff]
      intro y hy hkey
      exact hmem (mem_keysOf.mpr ⟨y, hy, by simpa using hkey⟩)
    rw [if_neg (mt hrow.mp hmem), if_neg hmem, List.map_append, List.map_singleton, if_pos rfl, hempty]
    refine congrArg (· ++ _) (List.map_congr_left fun k hk => ?_)
    rw [if_neg]
    rintro rfl
    exact hmem hk

/-- **The loop** makes the rows of the elements. -/
theorem foldl_upsert (key : α → κ) (init : β) (step : β → α → β) (xs : List α) :
    xs.foldl (fun rows x => upsert (key x) init (step · x) rows) [] = groupFold key init step xs := by
  induction xs using List.reverseRecOn with
  | nil => rfl
  | append_singleton xs x ih => rw [List.foldl_append, ih, List.foldl_cons, List.foldl_nil,
      upsert_groupFold]

/-- **Every element is in one group**, as often as it occurs. -/
theorem groups_perm (key : α → κ) (xs : List α) :
    ((keysOf key xs).flatMap fun k => xs.filter (key · = k)).Perm xs := by
  match xs with
  | [] => exact List.Perm.refl _
  | x :: xs =>
    -- the group of the first element, and the groups of the elements with other keys
    have hkeys : keysOf key (x :: xs) = key x :: keysOf key (xs.filter fun y => !key y == key x) := by
      rw [keysOf, List.map_cons, List.eraseDups_cons, List.filter_map]
      rfl
    have hrest : (keysOf key (xs.filter fun y => !key y == key x)).flatMap
          (fun k => (x :: xs).filter (key · = k))
        = (keysOf key (xs.filter fun y => !key y == key x)).flatMap
          fun k => (xs.filter fun y => !key y == key x).filter (key · = k) := by
      refine List.flatMap_congr fun k hk => ?_
      obtain ⟨y, hy, rfl⟩ := mem_keysOf.mp hk
      have hne : key y ≠ key x := by simpa using (List.mem_filter.mp hy).2
      rw [List.filter_cons_of_neg (by simpa using fun h => hne h.symm), List.filter_filter]
      refine List.filter_congr fun z _ => ?_
      by_cases hz : key z = key y <;> simp [hz, hne]
    rw [hkeys, List.flatMap_cons, hrest, List.filter_cons_of_pos (by simp), List.cons_append]
    refine List.Perm.cons x (List.Perm.trans ((groups_perm key _).append_left _) ?_)
    exact List.filter_append_perm (fun y => decide (key y = key x)) xs
termination_by xs.length
decreasing_by
  exact Nat.lt_succ_of_le (List.length_filter_le _ _)

/-- The sum of `w` over a list. -/
def sumOf (w : α → Int) : List α → Int
  | [] => 0
  | x :: xs => w x + sumOf w xs

/-- The sum over two lists, one after the other. -/
theorem sumOf_append (w : α → Int) (xs ys : List α) :
    sumOf w (xs ++ ys) = sumOf w xs + sumOf w ys := by
  induction xs with
  | nil => exact (Int.zero_add _).symm
  | cons x xs ih => rw [List.cons_append, sumOf, sumOf, ih, Int.add_assoc]

/-- The order does not matter for a sum. -/
theorem sumOf_perm {w : α → Int} {xs ys : List α} (h : xs.Perm ys) : sumOf w xs = sumOf w ys := by
  induction h with
  | nil => rfl
  | cons x _ ih => rw [sumOf, sumOf, ih]
  | swap x y xs =>
    simp only [sumOf]
    omega
  | trans _ _ ih ih' => exact ih.trans ih'

/-- The sums over the groups add up. -/
theorem sumOf_groups (key : α → κ) (w : α → Int) (xs : List α) :
    sumOf (fun k => sumOf w (xs.filter (key · = k))) (keysOf key xs) = sumOf w xs := by
  rw [← sumOf_perm (groups_perm key xs)]
  induction keysOf key xs with
  | nil => rfl
  | cons k ks ih => rw [sumOf, ih, List.flatMap_cons, sumOf_append]

end Lib
