import Mathlib.Data.List.Basic

namespace Lib

/-!
# Row-major order

The indices into an array of several dimensions, with the last index running fastest.

* `indices`, `volume` — the indices of an array, and their number.
* `position` — the place of an index, computed from the first dimension on.
* `map_position_indices` — the places of the indices are the numbers below `volume`, in order.
-/

/-- The number of elements. -/
def volume : List Nat → Nat
  | [] => 1
  | dim :: dims => dim * volume dims

/-- The indices in row-major order. -/
def indices : List Nat → List (List Nat)
  | [] => [[]]
  | dim :: dims => (List.range dim).flatMap fun i => (indices dims).map (i :: ·)

/-- The place of an index inside the block with number `block`. -/
def position (block : Nat) : List Nat → List Nat → Nat
  | dim :: dims, i :: is => position (block * dim + i) dims is
  | _, _ => block

/-- Blocks of equal length, one after the other. -/
theorem flatMap_range_mul (m n : Nat) :
    (List.range m).flatMap (fun i => (List.range n).map (i * n + ·)) = List.range (m * n) := by
  induction m with
  | zero => rw [Nat.zero_mul, List.range_zero, List.flatMap_nil]
  | succ m ih => rw [List.range_succ, List.flatMap_append, ih, List.flatMap_singleton, Nat.succ_mul,
      List.range_add]

theorem map_position_block (dims : List Nat) : ∀ block,
    (indices dims).map (position block dims) = (List.range (volume dims)).map (block * volume dims + ·) := by
  induction dims with
  | nil =>
    intro block
    show [block] = [block * 1 + 0]
    rw [Nat.mul_one, Nat.add_zero]
  | cons dim dims ih =>
    intro block
    rw [indices, List.map_flatMap, volume, ← flatMap_range_mul, List.map_flatMap]
    refine List.flatMap_congr fun i _ => ?_
    rw [List.map_map, List.map_map]
    refine (ih (block * dim + i)).trans (List.map_congr_left fun k _ => ?_)
    show (block * dim + i) * volume dims + k = block * (dim * volume dims) + (i * volume dims + k)
    rw [Nat.add_mul, Nat.mul_assoc, Nat.add_assoc]

/-- **The places of the indices**, in order. -/
theorem map_position_indices (dims : List Nat) :
    (indices dims).map (position 0 dims) = List.range (volume dims) := by
  refine (map_position_block dims 0).trans ?_
  simp

end Lib
