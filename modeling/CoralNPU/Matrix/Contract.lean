import CoralNPU.Tiling.Op
import Mathlib.Tactic.Push

namespace CoralNPU.Matrix

open CoralNPU.Tiling (IteratorType)

/-!
# Matrix — the contractions the matrix unit takes

The shape and type test of the vector-to-matrix pass on a `vector.contract`.

* `VectorType`, `ContractionOp` — a vector type, and the attributes and types of a contraction;
* `getDimPosition` — where an indexing map has a loop dimension; `getMatrixSizes` — the sizes
  that the test reads off the operands;
* `isSupportedMatrixContraction` — the test; `isSupportedMatrixContraction_true` says what it
  accepts.
-/

/-- `VectorType`. -/
structure VectorType where
  shape : List Int
  elementType : ElementType
  deriving DecidableEq, Repr

/-- `VectorType::getDimSize`. -/
def VectorType.getDimSize (t : VectorType) (i : Nat) : Int := t.shape.getD i 0

/-- A `vector.contract`: its iterators, its indexing maps and its operand types. -/
structure ContractionOp where
  iteratorTypes : List IteratorType
  lhsMap : AffineMap
  rhsMap : AffineMap
  accMap : AffineMap
  lhsType : VectorType
  rhsType : VectorType
  accType : VectorType
  deriving DecidableEq, Repr

/-- `getDimPosition`: the first result of the map that is loop dimension `dimIdx`. -/
def getDimPosition (map : AffineMap) (dimIdx : Nat) : Option Nat :=
  map.findIdx? fun expr => expr = .dim dimIdx

/-- The element types the matrix unit multiplies and accumulates. -/
def isSupportedElementTypes (inputElTy accElTy : ElementType) : Bool :=
  (inputElTy.isF32 && accElTy.isF32) || (inputElTy.isBF16 && accElTy.isF32)
    || (inputElTy.isInteger 8 && accElTy.isInteger 32)

/-- The sizes `M`, `N` and `K` of a contraction, if it has the form of a matrix product:
    operands of rank 2, a reduction loop that both maps have, and one size of it in both. -/
def getMatrixSizes (contractOp : ContractionOp) : Option (Int × Int × Int) :=
  if contractOp.lhsType.shape.length ≠ 2 ∨ contractOp.rhsType.shape.length ≠ 2
      ∨ contractOp.accType.shape.length ≠ 2 then none
  else
    match contractOp.iteratorTypes.findIdx? (· = .reduction) with
    | none => none
    | some reductionDimIdx =>
      match getDimPosition contractOp.lhsMap reductionDimIdx,
          getDimPosition contractOp.rhsMap reductionDimIdx with
      | some lhsKPos, some rhsKPos =>
        let M := contractOp.lhsType.getDimSize (1 - lhsKPos)
        let K := contractOp.lhsType.getDimSize lhsKPos
        let N := contractOp.rhsType.getDimSize (1 - rhsKPos)
        let KR := contractOp.rhsType.getDimSize rhsKPos
        if K ≠ KR then none else some (M, N, K)
      | _, _ => none

/-- `isSupportedMatrixContraction(vector::ContractionOp)`.  `inputElTy` is the element type of
    the source the left operand is traced to. -/
def isSupportedMatrixContraction (contractOp : ContractionOp) (inputElTy : ElementType) : Bool :=
  match getMatrixSizes contractOp with
  | none => false
  | some (M, N, K) =>
    if isSupportedElementTypes inputElTy contractOp.accType.elementType then
      M = 4 ∧ N = 4 ∧ K = 1
    else false

/-- The sizes are those of the operands around the reduction loop. -/
theorem getMatrixSizes_eq_some {contractOp : ContractionOp} {M N K : Int}
    (h : getMatrixSizes contractOp = some (M, N, K)) :
    contractOp.lhsType.shape.length = 2 ∧ contractOp.rhsType.shape.length = 2
      ∧ contractOp.accType.shape.length = 2
      ∧ ∃ lhsKPos rhsKPos, contractOp.lhsType.getDimSize lhsKPos = K
        ∧ contractOp.rhsType.getDimSize rhsKPos = K
        ∧ contractOp.lhsType.getDimSize (1 - lhsKPos) = M
        ∧ contractOp.rhsType.getDimSize (1 - rhsKPos) = N := by
  unfold getMatrixSizes at h
  split at h
  · cases h
  · rename_i hrank
    push Not at hrank
    obtain ⟨hl, hr, ha⟩ := hrank
    split at h
    · cases h
    · split at h
      · rename_i lhsKPos rhsKPos _ _
        simp only at h
        split at h
        · cases h
        · rename_i hK
          push Not at hK
          simp only [Option.some.injEq, Prod.mk.injEq] at h
          obtain ⟨hM, hN, hK'⟩ := h
          exact ⟨hl, hr, ha, lhsKPos, rhsKPos, hK', hK.symm.trans hK', hM, hN⟩
      · cases h

/-- **What the test accepts**: operands of rank 2, reduction size 1, 4 rows and 4 columns. -/
theorem isSupportedMatrixContraction_true {contractOp : ContractionOp} {inputElTy : ElementType}
    (h : isSupportedMatrixContraction contractOp inputElTy = true) :
    isSupportedElementTypes inputElTy contractOp.accType.elementType = true
      ∧ getMatrixSizes contractOp = some (4, 4, 1) := by
  unfold isSupportedMatrixContraction at h
  split at h
  · cases h
  · rename_i M N K hsizes
    split at h
    · rename_i htypes
      simp only [decide_eq_true_eq] at h
      obtain ⟨rfl, rfl, rfl⟩ := h
      exact ⟨htypes, hsizes⟩
    · cases h

end CoralNPU.Matrix
