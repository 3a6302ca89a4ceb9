import CoralNPU.Lib.Scatter
import CoralNPU.Tiling.FootprintMono
import Mathlib.Data.Fintype.BigOperators
import Mathlib.Data.Int.Interval
import Mathlib.Algebra.BigOperators.Fin
import Mathlib.Algebra.Order.BigOperators.Ring.Finset
import Mathlib.Algebra.Order.BigOperators.Ring.List

namespace CoralNPU.Tiling

open Lib

/-!
# Tiling — what a tile touches

The footprint estimates are compared with the elements that a tile of the iteration space reads
or writes.  An element of a tensor is a point; what a tile touches is a box of points.

* `points` — the box with the given coordinates, and its number of points.
* `TileSizes`, `tileIndices` — the tile-size vectors of a loop nest (0 leaves a loop untiled), and
  the iterations of one loop in the tile at a multiple of the tile size.
* `storageBytes` — the bytes that elements take, packed as closely as possible; `elementBytes`
  rounds the width of an element down: `storageBytes_le` and `lt_storageBytes` are the two cases.
-/

/-! ### Boxes of points -/

/-- The points of rank `n` whose coordinates lie in the given sets. -/
def points (n : Nat) (coords : Nat → Finset Int) : Finset (Fin n → Int) :=
  Fintype.piFinset fun d : Fin n => coords d

/-- The loop that multiplies, as a product. -/
theorem numElements_eq_prod (factors : List Int) : numElements id factors = factors.prod := by
  unfold numElements
  simp only [id]
  rw [List.prod_eq_foldl]

/-- The product of factors in machine arithmetic, and the bytes of an element: one that wraps around
    at the end, of factors that may have wrapped around before. -/
theorem toInt64_numElements {α : Type} {f g : α → Int} {l : List α}
    (h : ∀ x ∈ l, toInt64 (f x) = toInt64 (g x)) (bytes : Int) :
    toInt64 (numElements toInt64 (l.map f) * bytes) = toInt64 ((l.map g).prod * bytes) := by
  have hfold : ∀ n : Int, toInt64 ((l.map f).foldl (fun n factor => toInt64 (n * factor)) n * bytes)
      = toInt64 (n * (l.map g).prod * bytes) := by
    induction l with
    | nil =>
      intro n
      rw [List.map_nil, List.map_nil, List.foldl_nil, List.prod_nil, mul_one]
    | cons x l ih =>
      intro n
      rw [List.map_cons, List.map_cons, List.foldl_cons, List.prod_cons,
        ih fun y hy => h y (List.mem_cons_of_mem _ hy), mul_assoc, toInt64_mul, mul_assoc, mul_assoc,
        mul_left_comm, ← toInt64_mul, h x List.mem_cons_self, toInt64_mul]
      congr 1
      ring
  rw [numElements, hfold, one_mul]

/-- A product over positions. -/
theorem prod_map_range (n : Nat) (f : Nat → Int) :
    ((List.range n).map f).prod = ∏ d ∈ Finset.range n, f d := by
  induction n with
  | zero => rfl
  | succ n ih => rw [List.range_succ, List.map_append, List.prod_append, Finset.prod_range_succ, ih,
      List.map_singleton, List.prod_singleton]

/-- The number of points of a box is the product of its side lengths. -/
theorem card_points (n : Nat) (coords : Nat → Finset Int) :
    ((points n coords).card : Int) = ∏ d ∈ Finset.range n, ((coords d).card : Int) := by
  rw [points, Fintype.card_piFinset, Nat.cast_prod, Finset.prod_range]

/-! ### Tiles -/

/-- The tile sizes of loops with the given extents; 0 leaves a loop untiled. -/
structure TileSizes (extents sizes : List Int) : Prop where
  length_eq : sizes.length = extents.length
  size : ∀ i, i < extents.length →
    sizes.getD i 0 = 0 ∨ (1 ≤ sizes.getD i 0 ∧ sizes.getD i 0 ≤ extents.getD i 0)

/-- No size is negative. -/
theorem TileSizes.nonneg {extents sizes : List Int} (h : TileSizes extents sizes) (i : Nat) :
    0 ≤ sizes.getD i 0 := by
  by_cases hi : i < extents.length
  · rcases h.size i hi with hzero | hpos <;> omega
  · rw [List.getD_eq_default _ _ (by rw [h.length_eq]; omega)]

/-- No loop is tiled. -/
theorem tileSizes_untiled (extents : List Int) :
    TileSizes extents (List.replicate extents.length 0) :=
  ⟨List.length_replicate, fun i _ => Or.inl (getD_replicate_self _ i 0)⟩

/-- The indices from `lo` on, below `hi`. -/
def indexRange (lo hi : Int) : Finset Int :=
  Int.instLocallyFiniteOrder.finsetIco lo hi

/-- The indices from `lo` on, below `hi`. -/
@[simp] theorem mem_indexRange {lo hi x : Int} : x ∈ indexRange lo hi ↔ lo ≤ x ∧ x < hi :=
  Finset.mem_Ico

/-- Their number. -/
@[simp] theorem card_indexRange (lo hi : Int) : (indexRange lo hi).card = (hi - lo).toNat :=
  Int.card_Ico lo hi

/-- There are none from `lo` on below `lo`. -/
@[simp] theorem indexRange_self (lo : Int) : indexRange lo lo = ∅ := Finset.Ico_self lo

/-- The iterations of a loop in tile number `k`. -/
def tileIndices (extent size : Int) (k : Nat) : Finset Int :=
  if size = 0 then indexRange 0 extent else indexRange (k * size) (min (k * size + size) extent)

/-- The iterations of a tile are iterations of the loop. -/
theorem mem_tileIndices {extent size x : Int} {k : Nat} (hsize : 0 ≤ size)
    (hx : x ∈ tileIndices extent size k) : 0 ≤ x ∧ x < extent := by
  unfold tileIndices at hx
  split at hx
  · exact mem_indexRange.mp hx
  · obtain ⟨hlo, hhi⟩ := mem_indexRange.mp hx
    have : 0 ≤ (k : Int) * size := mul_nonneg (Int.natCast_nonneg k) hsize
    exact ⟨by omega, lt_of_lt_of_le hhi (min_le_right _ _)⟩

/-- A tile has at most as many iterations as its size, or as the loop. -/
theorem card_tileIndices_le {extent size : Int} (k : Nat) (hextent : 0 ≤ extent)
    (hsize : 0 ≤ size) : ((tileIndices extent size k).card : Int) ≤ tiledExtent extent size := by
  unfold tileIndices tiledExtent
  have hk : 0 ≤ (k : Int) * size := mul_nonneg (Int.natCast_nonneg k) hsize
  split
  · rw [card_indexRange]
    omega
  · rw [card_indexRange]
    omega

/-- An untiled loop is in the tile with all its iterations. -/
theorem tileIndices_zero (extent : Int) (k : Nat) : tileIndices extent 0 k = indexRange 0 extent :=
  if_pos rfl

/-- The first tile begins with the first iteration. -/
theorem zero_mem_tileIndices {extent size : Int} (hextent : 1 ≤ extent) (hsize : 0 ≤ size) :
    0 ∈ tileIndices extent size 0 := by
  unfold tileIndices
  split
  · exact mem_indexRange.mpr ⟨le_refl 0, hextent⟩
  · rw [mem_indexRange, lt_min_iff]
    omega

/-- A loop without iterations has none in any tile. -/
theorem tileIndices_of_empty {size : Int} (hsize : 0 ≤ size) (k : Nat) :
    tileIndices 0 size k = ∅ := by
  refine Finset.eq_empty_of_forall_notMem fun x hx => ?_
  obtain ⟨hlo, hhi⟩ := mem_tileIndices hsize hx
  omega

/-! ### Bytes -/

/-- The bytes that `n` elements of `bits` bits take at least. -/
def storageBytes (bits n : Int) : Int := (n * bits + 7) / 8

/-- The bits of an element type are not negative. -/
theorem getIntOrFloatBitWidth_nonneg {type : ElementType} {bits : Int}
    (h : type.getIntOrFloatBitWidth = .ok bits) : 0 ≤ bits := by
  cases type with
  | integer w => exact Except.ok.inj h ▸ Int.natCast_nonneg w
  | index => cases h
  | _ => exact Except.ok.inj h ▸ (by decide)

/-- The bytes of an element, from its bits. -/
theorem elementBytes_eq {type : ElementType} {bits : Int}
    (h : type.getIntOrFloatBitWidth = .ok bits) : elementBytes type = .ok (bits / 8) := by
  have hbits := getIntOrFloatBitWidth_nonneg h
  simp only [elementBytes, h, ok_bind, pure_eq_ok]
  rw [Int.tdiv_eq_ediv_of_nonneg hbits]

/-- Elements of a whole number of bytes are counted exactly. -/
theorem storageBytes_of_whole {bits : Int} (h : bits % 8 = 0) (n : Int) :
    storageBytes bits n = n * (bits / 8) := by
  unfold storageBytes
  have hbits : n * bits = n * (bits / 8) * 8 := by
    rw [mul_assoc, Int.ediv_mul_cancel (Int.dvd_of_emod_eq_zero h)]
  omega

/-- Elements of another width are counted with too few bytes. -/
theorem lt_storageBytes {bits : Int} (h : bits % 8 ≠ 0) {n : Int} (hn : 1 ≤ n) :
    n * (bits / 8) < storageBytes bits n := by
  unfold storageBytes
  -- what is rounded off is at least one bit for each element
  have hsplit : bits = 8 * (bits / 8) + bits % 8 := (Int.mul_ediv_add_emod bits 8).symm
  have hrest : 1 ≤ bits % 8 := by omega
  have hpos : 1 ≤ n * (bits % 8) := by nlinarith
  have hbits : n * bits = 8 * (n * (bits / 8)) + n * (bits % 8) := by
    conv_lhs => rw [hsplit]
    ring
  omega

/-- An estimate of `total` elements is enough for `n` of them, if elements are whole bytes or there
    are none. -/
theorem storageBytes_le {bits n total : Int} (hbits : 0 ≤ bits) (h : bits % 8 = 0 ∨ n = 0)
    (hnonneg : 0 ≤ n) (hn : n ≤ total) : storageBytes bits n ≤ total * (bits / 8) := by
  rcases h with h | rfl
  · rw [storageBytes_of_whole h]
    exact mul_le_mul_of_nonneg_right hn (Int.ediv_nonneg hbits (by decide))
  · have hzero : storageBytes bits 0 = 0 := by
      rw [storageBytes, zero_mul]
      rfl
    rw [hzero]
    exact mul_nonneg hn (Int.ediv_nonneg hbits (by decide))

end CoralNPU.Tiling
