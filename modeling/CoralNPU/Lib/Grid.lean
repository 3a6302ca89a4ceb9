import Mathlib.Data.List.Range
import Mathlib.Data.List.Infix
import Mathlib.Data.List.Nodup

namespace Lib

/-!
# Walking a three-dimensional grid

The order in which three nested counting loops visit the cells of a grid, the first
coordinate innermost.  `gridBefore cx cy z y x` lists what the loops have visited when their
counters stand at `z`, `y` and `x`; each way the counters advance is one equation on it.
`grid cx cy cz` is the whole walk: it visits every cell (`mem_grid`) exactly once
(`nodup_grid`).
-/

/-- The first `n` cells of row `y` of plane `z`. -/
def gridRow (y z n : Nat) : List (Nat × Nat × Nat) := (List.range n).map fun x => (x, y, z)

/-- The first `n` rows of plane `z`, of `cx` cells each. -/
def gridPlane (cx z n : Nat) : List (Nat × Nat × Nat) :=
  (List.range n).flatMap fun y => gridRow y z cx

/-- The first `n` planes, of `cy` rows of `cx` cells each. -/
def grid (cx cy n : Nat) : List (Nat × Nat × Nat) :=
  (List.range n).flatMap fun z => gridPlane cx z cy

/-- The cells before `(x, y, z)`. -/
def gridBefore (cx cy z y x : Nat) : List (Nat × Nat × Nat) :=
  grid cx cy z ++ gridPlane cx z y ++ gridRow y z x

variable {cx cy cz z y x : Nat}

/-! ### How the counters advance -/

/-- Before the first row of plane `z` come the planes below it. -/
theorem gridBefore_planes (cx cy z : Nat) : gridBefore cx cy z 0 0 = grid cx cy z := by
  simp [gridBefore, gridPlane, gridRow]

/-- After a cell comes the next cell of its row. -/
theorem gridBefore_succ (cx cy z y x : Nat) :
    gridBefore cx cy z y (x + 1) = gridBefore cx cy z y x ++ [(x, y, z)] := by
  simp [gridBefore, gridRow, List.range_succ]

/-- After a row comes the next row of its plane. -/
theorem gridBefore_row (cx cy z y : Nat) :
    gridBefore cx cy z y cx = gridBefore cx cy z (y + 1) 0 := by
  simp [gridBefore, gridPlane, gridRow, List.range_succ]

/-- After a plane comes the next plane. -/
theorem gridBefore_plane (cx cy z : Nat) :
    gridBefore cx cy z cy 0 = gridBefore cx cy (z + 1) 0 0 := by
  simp [gridBefore, grid, gridPlane, gridRow, List.range_succ]

/-! ### The walk is part of the grid -/

/-- The numbers below a smaller bound come first. -/
theorem range_isPrefix {m n : Nat} (h : m ≤ n) : List.range m <+: List.range n := by
  rw [← Nat.min_eq_left h, ← List.take_range]
  exact List.take_prefix _ _

/-- A shorter row is a prefix of a longer one. -/
theorem gridRow_isPrefix {m n : Nat} (h : m ≤ n) : gridRow y z m <+: gridRow y z n :=
  (range_isPrefix h).map _

/-- So is a plane of fewer rows. -/
theorem gridPlane_isPrefix {m n : Nat} (h : m ≤ n) : gridPlane cx z m <+: gridPlane cx z n :=
  (range_isPrefix h).flatMap _

/-- So is a grid of fewer planes. -/
theorem grid_isPrefix {m n : Nat} (h : m ≤ n) : grid cx cy m <+: grid cx cy n :=
  (range_isPrefix h).flatMap _

/-- What has been visited is the beginning of the whole walk. -/
theorem gridBefore_isPrefix (hz : z < cz) (hy : y < cy) (hx : x ≤ cx) :
    gridBefore cx cy z y x <+: grid cx cy cz := by
  have hrow : gridBefore cx cy z y x <+: gridBefore cx cy z y cx :=
    (List.prefix_append_right_inj _).mpr (gridRow_isPrefix hx)
  have hplane : gridBefore cx cy z (y + 1) 0 <+: gridBefore cx cy z cy 0 := by
    simp only [gridBefore, gridRow, List.range_zero, List.map_nil, List.append_nil]
    exact (List.prefix_append_right_inj _).mpr (gridPlane_isPrefix hy)
  have hgrid : gridBefore cx cy (z + 1) 0 0 <+: grid cx cy cz := by
    rw [gridBefore_planes]
    exact grid_isPrefix hz
  rw [gridBefore_row] at hrow
  rw [gridBefore_plane] at hplane
  exact (hrow.trans hplane).trans hgrid

/-! ### Every cell once -/

/-- The cells of a grid are those below the three counts. -/
theorem mem_grid {c : Nat × Nat × Nat} :
    c ∈ grid cx cy cz ↔ c.1 < cx ∧ c.2.1 < cy ∧ c.2.2 < cz := by
  obtain ⟨x, y, z⟩ := c
  simp only [grid, gridPlane, gridRow, List.mem_flatMap, List.mem_map, List.mem_range,
    Prod.mk.injEq]
  constructor
  · rintro ⟨z', hz, y', hy, x', hx, rfl, rfl, rfl⟩
    exact ⟨hx, hy, hz⟩
  · rintro ⟨hx, hy, hz⟩
    exact ⟨z, hz, y, hy, x, hx, rfl, rfl, rfl⟩

/-- No cell comes twice. -/
theorem nodup_grid (cx cy cz : Nat) : (grid cx cy cz).Nodup := by
  have hrow : ∀ y z, (gridRow y z cx).Nodup := fun y z =>
    List.nodup_range.map fun a b hab => (Prod.mk.inj hab).1
  have hplane : ∀ z, (gridPlane cx z cy).Nodup := by
    intro z
    refine List.nodup_flatMap.mpr ⟨fun y _ => hrow y z, ?_⟩
    -- rows differ in their second coordinate
    refine List.nodup_range.imp fun {a b} hab => ?_
    simp only [Function.onFun, List.disjoint_left, gridRow, List.mem_map]
    rintro _ ⟨x, _, rfl⟩ ⟨x', _, hx'⟩
    exact hab (Prod.mk.inj (Prod.mk.inj hx').2).1.symm
  refine List.nodup_flatMap.mpr ⟨fun z _ => hplane z, ?_⟩
  -- planes differ in their third coordinate
  refine List.nodup_range.imp fun {a b} hab => ?_
  simp only [Function.onFun, List.disjoint_left, gridPlane, gridRow, List.mem_flatMap,
    List.mem_map]
  rintro _ ⟨y, _, x, _, rfl⟩ ⟨y', _, x', _, hx'⟩
  exact hab (Prod.mk.inj (Prod.mk.inj hx').2).2.symm

end Lib
