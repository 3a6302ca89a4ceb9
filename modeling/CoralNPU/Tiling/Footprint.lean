import CoralNPU.Tiling.Op
import Mathlib.Order.Bounds.Defs
import Mathlib.Algebra.Order.Ring.Int
import Mathlib.Tactic.Linarith
import Mathlib.Tactic.Ring

namespace CoralNPU.Tiling

/-!
# Tiling — the footprint estimate

`estimateFootprint` bounds the bytes one tile of the root operation touches, operand by
operand.  Every estimate is a product of one factor per operand dimension; only the
factors differ between `linalg` operands, pack and unpack operands, and the rest.

* `normalize` stands for the `int64_t` arithmetic the estimates run in: `id` where it is
  taken as unbounded, `toInt64` where it wraps.
* `getBound` stands for `mlir::getBoundForAffineExpr`, the bound of an affine expression over a box
  of iterations.
-/

/-- Two's complement `int64_t`. -/
def toInt64 (x : Int) : Int := Int.bmod x 18446744073709551616

/-- Below 2^63: not too large for an `int64_t`. -/
def FitsInt64 (x : Int) : Prop := x < 9223372036854775808

instance (x : Int) : Decidable (FitsInt64 x) := inferInstanceAs (Decidable (_ < _))

theorem FitsInt64.of_le {x y : Int} (h : FitsInt64 y) (hle : x ≤ y) : FitsInt64 x :=
  lt_of_le_of_lt hle h

/-- `int64_t` arithmetic is exact on numbers that fit. -/
theorem toInt64_of_fits {x : Int} (h₀ : 0 ≤ x) (h : FitsInt64 x) : toInt64 x = x := by
  unfold FitsInt64 at h
  unfold toInt64
  rw [Int.bmod_eq_of_le] <;> omega

theorem toInt64_fits (x : Int) : FitsInt64 (toInt64 x) :=
  Int.bmod_lt (m := 18446744073709551616) (by decide)

/-- Wrapping around only makes a number smaller. -/
theorem toInt64_le {x : Int} (h₀ : 0 ≤ x) : toInt64 x ≤ x := by
  by_cases h : FitsInt64 x
  · exact le_of_eq (toInt64_of_fits h₀ h)
  · exact le_of_lt (lt_of_lt_of_le (toInt64_fits x) (not_lt.mp h))

/-- A number that is not positive, and whose negative fits, stays so. -/
theorem toInt64_nonpos {y z : Int} (h : FitsInt64 z) (hlow : -z ≤ y) (hhigh : y ≤ 0) :
    toInt64 y ≤ 0 := by
  unfold FitsInt64 at h
  unfold toInt64
  rw [Int.bmod_eq_of_le] <;> omega

/-- A product may wrap around at the end only. -/
theorem toInt64_mul (x y : Int) : toInt64 (toInt64 x * y) = toInt64 (x * y) := Int.bmod_mul_bmod

theorem toInt64_add (x y : Int) : toInt64 (toInt64 x + y) = toInt64 (x + y) := Int.bmod_add_bmod

theorem toInt64_sub (x y : Int) : toInt64 (toInt64 x - y) = toInt64 (x - y) := Int.bmod_sub_bmod

/-- `x / y`, rounded up. -/
def ceilDiv (x y : Int) : Int := (x + y - 1) / y

theorem ceilDiv_le_iff {x y z : Int} (hy : 1 ≤ y) : ceilDiv x y ≤ z ↔ x ≤ z * y := by
  unfold ceilDiv
  rw [← Int.lt_add_one_iff, Int.ediv_lt_iff_lt_mul (by omega), add_mul, one_mul]
  omega

theorem lt_ceilDiv_iff {x y z : Int} (hy : 1 ≤ y) : z < ceilDiv x y ↔ z * y < x := by
  rw [← not_le, ceilDiv_le_iff hy, not_le]

theorem one_le_ceilDiv {x y : Int} (hx : 1 ≤ x) (hy : 1 ≤ y) : 1 ≤ ceilDiv x y := by
  have hlt : 0 < ceilDiv x y := (lt_ceilDiv_iff hy).mpr (by omega)
  omega

/-- `mlir::getBoundForAffineExpr(expr, numDims, 0, lbs, ubs, isUpper)`. -/
abbrev BoundFn := AffineExpr → List (Option Int) → List (Option Int) → Bool → Option Int

section Estimates

variable (normalize : Int → Int) (getBound : BoundFn)

/-- `numElements`: the product of the factors, from the left. -/
def numElements (factors : List Int) : Int :=
  factors.foldl (fun n factor => normalize (n * factor)) 1

/-- `resolvedTileSizes`: an untiled loop (size 0) counts with its full range. -/
def resolveTileSizes (tileSizes staticLoopRanges : List Int) : List Int :=
  tileSizes.zipWith (fun size range => if size = 0 then range else size) staticLoopRanges

/-- `lowerBounds`: every loop starts at 0. -/
def lowerBounds (sizes : List Int) : List (Option Int) := sizes.map fun _ => some 0

/-- `upperBounds`: the last iteration of each loop, unknown for an empty loop. -/
def upperBounds (sizes : List Int) : List (Option Int) :=
  sizes.map fun size => if size ≤ 0 then none else some (size - 1)

/-- The span of one result of an indexing map over a tile; the full extent of the
    dimension where no bound is known. -/
def linalgFactor (sizes : List Int) (expr : AffineExpr) (extent : Int) : Int :=
  match getBound expr (lowerBounds sizes) (upperBounds sizes) false,
      getBound expr (lowerBounds sizes) (upperBounds sizes) true with
  | some lb, some ub => normalize (normalize (ub - lb) + 1)
  | _, _ => extent

/-- The element size in whole bytes. -/
def elementBytes (type : ElementType) : Except Failure Int := do
  let elementBits ← type.getIntOrFloatBitWidth
  return elementBits.tdiv 8

/-- `estimateLinalgOperandFootprint`. -/
def estimateLinalgOperandFootprint (op : LinalgOp) (tileSizes : List Int)
    (operand : LinalgOperand) : Except Failure Int :=
  match operand.type with
  | .scalar _ => return 0
  | .tensor type => do
    let bytes ← elementBytes type.elementType
    if tileSizes.length ≠ op.getStaticLoopRanges.length then
      throw (.assertion "tileSizes.size() == staticLoopRanges.size()")
    let sizes := resolveTileSizes tileSizes op.getStaticLoopRanges
    let factors := operand.indexingMap.zipIdx.map fun (expr, i) =>
      linalgFactor normalize getBound sizes expr (type.shape.getD i 0)
    return normalize (numElements normalize factors * bytes)

/-- `perm.empty() ? l : perm[l]`. -/
def permutedDim (perm : List Nat) (l : Nat) : Nat :=
  if perm.isEmpty then l else perm.getD l 0

/-- The constant inner tile of dimension `dim`; 1 if it has none. -/
def innerTileSize (innerDimsPos : List Nat) (mixedTiles : List (Option Int)) (dim : Nat) : Int :=
  if dim ∈ innerDimsPos then ((mixedTiles[innerDimsPos.idxOf dim]?).join).getD 1 else 1

/-- The extent of a dimension tiled by `tileSize`; 0 leaves it whole. -/
def tiledExtent (extent tileSize : Int) : Int :=
  if tileSize = 0 then extent else min extent tileSize

/-- Factor of loop `l` for the source of a pack. -/
def packSourceFactor (op : PackOp) (shape tileSizes : List Int) (l : Nat) : Int :=
  let inputDim := permutedDim op.outerDimsPerm l
  let tileSize := tileSizes.getD l 0
  if tileSize = 0 then shape.getD inputDim 0
  else min (shape.getD inputDim 0)
    (normalize (tileSize * innerTileSize op.innerDimsPos op.mixedTiles inputDim))

/-- Factor of loop `l` for the source of an unpack: the inner tiles the tile needs. -/
def unpackSourceFactor (op : UnPackOp) (shape tileSizes : List Int) (l : Nat) : Int :=
  let srcDim := permutedDim op.outerDimsPerm l
  let tileSize := tileSizes.getD l 0
  if tileSize = 0 then shape.getD srcDim 0
  else
    let inner := innerTileSize op.innerDimsPos op.mixedTiles srcDim
    min (shape.getD srcDim 0) ((normalize (normalize (tileSize + inner) - 1)).tdiv inner)

/-- The bytes of a ranked operand with the given factors; 0 for a scalar. -/
def operandBytes (type : ValueType) (factors : TensorType → List Int) : Except Failure Int :=
  match type with
  | .scalar _ => return 0
  | .tensor t => do
    let bytes ← elementBytes t.elementType
    return normalize (numElements normalize (factors t) * bytes)

/-- `estimatePackOperandFootprint` on the source. -/
def estimatePackSourceFootprint (op : PackOp) (tileSizes : List Int) : Except Failure Int :=
  operandBytes normalize op.source fun t =>
    (List.range tileSizes.length).map (packSourceFactor normalize op t.shape tileSizes)

/-- `estimatePackOperandFootprint` on the destination: tiled outer, full inner dimensions. -/
def estimatePackDestFootprint (op : PackOp) (tileSizes : List Int) : Except Failure Int :=
  operandBytes normalize op.dest fun t =>
    (List.range tileSizes.length).map (fun l => tiledExtent (t.shape.getD l 0) (tileSizes.getD l 0))
      ++ t.shape.drop tileSizes.length

/-- `estimateUnpackOperandFootprint` on the destination. -/
def estimateUnpackDestFootprint (op : UnPackOp) (tileSizes : List Int) : Except Failure Int :=
  operandBytes normalize op.dest fun t =>
    (List.range t.shape.length).map fun i => tiledExtent (t.shape.getD i 0) (tileSizes.getD i 0)

/-- `estimateUnpackOperandFootprint` on the source: tiled outer, full inner dimensions. -/
def estimateUnpackSourceFootprint (op : UnPackOp) (tileSizes : List Int) : Except Failure Int :=
  operandBytes normalize op.source fun t =>
    (List.range tileSizes.length).map (unpackSourceFactor normalize op t.shape tileSizes)
      ++ t.shape.drop tileSizes.length

/-- The remaining operands of a pack or unpack count whole. -/
def estimateWholeFootprint (type : ValueType) : Except Failure Int :=
  operandBytes normalize type (·.shape)

/-- A dynamic extent counts as 1 for operations other than `linalg`, pack and unpack. -/
def staticExtent (extent : Int) : Int := if extent = kDynamic then 1 else extent

/-- The fallback estimate of `estimateOperandFootprint`. -/
def estimateOtherFootprint (tileSizes : List Int) (type : ValueType) : Except Failure Int :=
  operandBytes normalize type fun t =>
    if t.shape.length = tileSizes.length then
      t.shape.zipIdx.map fun (extent, i) =>
        let tileSize := tileSizes.getD i 0
        if tileSize = 0 ∨ extent = kDynamic then staticExtent extent else min extent tileSize
    else t.shape.map staticExtent

/-- `estimateOperandFootprint` for every operand of the root operation, in order. -/
def operandFootprints (root : RootOp) (tileSizes : List Int) : List (Except Failure Int) :=
  match root.op with
  | .linalg op =>
    op.operands.map (estimateLinalgOperandFootprint normalize getBound op tileSizes)
  | .pack op =>
    [estimatePackSourceFootprint normalize op tileSizes,
      estimatePackDestFootprint normalize op tileSizes]
      ++ op.otherOperands.map (estimateWholeFootprint normalize)
  | .unpack op =>
    [estimateUnpackSourceFootprint normalize op tileSizes,
      estimateUnpackDestFootprint normalize op tileSizes]
      ++ op.otherOperands.map (estimateWholeFootprint normalize)
  | .other op => op.operands.map (estimateOtherFootprint normalize tileSizes)

/-- `estimateFootprint`. -/
def estimateFootprint (root : RootOp) (tileSizes : List Int) : Except Failure Int :=
  (operandFootprints normalize getBound root tileSizes).foldlM
    (fun totalBytes footprint => do return normalize (totalBytes + (← footprint))) 0

end Estimates

end CoralNPU.Tiling
