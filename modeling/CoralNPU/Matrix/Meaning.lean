import CoralNPU.Matrix.Operand
import Mathlib.Data.List.Nodup

namespace CoralNPU.Matrix

open Lib

/-!
# Matrix — what a contraction means

The meaning of a `vector.contract` on an accumulator of rank 2, and its form for the contractions
that the vector-to-matrix pass accepts.

* `ContractionOp.eval` — the meaning: the products of the operands along the reduction loops,
  combined with the accumulator;
* `Verified` — what the verifier says about a contraction;
* `matrixForm_of_verified` — an accepted contraction has three loops: the rows of the left operand,
  the rows of the right operand, and a reduction of length 1;
* `eval_eq` — its meaning is an outer product, of which the accumulator map says which operand
  indexes the rows.
-/

/-! ### The meaning -/

/-- The points of a box, the last coordinate fastest. -/
def points : List Nat → List (List Nat)
  | [] => [[]]
  | n :: ns => (List.range n).flatMap fun i => (points ns).map (i :: ·)

/-- The flat position of an element. -/
def ravel : List Nat → List Nat → Nat
  | _ :: ds, i :: is => i * ds.prod + ravel ds is
  | _, _ => 0

namespace ContractionOp

/-- The length of a loop, from an operand that it indexes. -/
def extent (op : ContractionOp) (d : Nat) : Nat :=
  match getDimPosition op.lhsMap d, getDimPosition op.rhsMap d with
  | some i, _ => op.lhsType.dims.getD i 0
  | none, some i => op.rhsType.dims.getD i 0
  | none, none => 0

/-- The reduction loops. -/
def reductionDims (op : ContractionOp) : List Nat :=
  (List.range op.iteratorTypes.length).filter fun d => op.iteratorTypes[d]? = some .reduction

/-- The position of a loop, for an element of the accumulator and a point of the reduction
    loops. -/
def coordinate (op : ContractionOp) (element point : List Nat) (d : Nat) : Nat :=
  match getDimPosition op.accMap d, op.reductionDims.idxOf? d with
  | some i, _ => element.getD i 0
  | none, some i => point.getD i 0
  | none, none => 0

/-- The element of an operand at a position of the loops. -/
def element (map : AffineMap) (type : VectorType) (values position : Nat → Nat) : Nat :=
  values (ravel type.dims (map.map fun expr => (expr.eval fun d => (position d : Int)).toNat))

/-- **The meaning of a contraction**: an element of the accumulator, combined with the products of
    the promoted operands along the reduction loops. -/
def eval (A : Arith) (kind : CombiningKind) (op : ContractionOp) (lhs rhs : Nat → Nat)
    (acc : Nat × Nat → Nat) (cell : Nat × Nat) : Nat :=
  (points (op.reductionDims.map op.extent)).foldl (fun result point =>
    let position := op.coordinate [cell.1, cell.2] point
    A.accumulate kind
      (A.promote op.lhsType.elementType (element op.lhsMap op.lhsType lhs position))
      (A.promote op.rhsType.elementType (element op.rhsMap op.rhsType rhs position)) result)
    (acc cell)

end ContractionOp

/-! ### What the verifier says -/

/-- An indexing map of a vector: different loops, one for each dimension. -/
def IsProjection (map : AffineMap) (loops : Nat) (type : VectorType) : Prop :=
  ∃ ds, map = .ofDims ds ∧ ds.Nodup ∧ ds.length = type.shape.length ∧ ∀ d ∈ ds, d < loops

/-- The combining kinds of floats, and those of integers. -/
def CombiningKind.isFloat : CombiningKind → Bool
  | .add | .mul | .minnumf | .maxnumf | .minimumf | .maximumf => true
  | _ => false

/-- See `CombiningKind.isFloat`. -/
def CombiningKind.isInteger : CombiningKind → Bool
  | .minnumf | .maxnumf | .minimumf | .maximumf => false
  | _ => true

/-- What the verifier says about a contraction: the maps are projections, every loop indexes an
    operand, the parallel loops are those of the accumulator, and the element types fit. -/
structure Verified (kind : CombiningKind) (op : ContractionOp) : Prop where
  lhsMap : IsProjection op.lhsMap op.iteratorTypes.length op.lhsType
  rhsMap : IsProjection op.rhsMap op.iteratorTypes.length op.rhsType
  accMap : IsProjection op.accMap op.iteratorTypes.length op.accType
  covered : ∀ d < op.iteratorTypes.length, .dim d ∈ op.lhsMap ∨ .dim d ∈ op.rhsMap
  parallel : ∀ d < op.iteratorTypes.length,
    op.iteratorTypes[d]? = some .reduction ↔ .dim d ∉ op.accMap
  elementTypes : op.lhsType.elementType = op.rhsType.elementType
  float : op.accType.elementType = .f32 →
    IsNarrowFloat op.lhsType.elementType ∧ kind.isFloat = true
  integer : op.accType.elementType = .integer 32 →
    (∃ w, op.lhsType.elementType = .integer w ∧ 1 ≤ w ∧ w ≤ 32) ∧ kind.isInteger = true

/-! ### The form of an accepted contraction -/

/-- Loops `m` and `n` index the rows and the columns of a product, `k` its reduction of length
    1. -/
structure MatrixForm (op : ContractionOp) (m n k : Nat) : Prop where
  lhs : op.lhsMap = .ofDims [m, k] ∧ op.lhsType.dims = [4, 1]
    ∨ op.lhsMap = .ofDims [k, m] ∧ op.lhsType.dims = [1, 4]
  rhs : op.rhsMap = .ofDims [n, k] ∧ op.rhsType.dims = [4, 1]
    ∨ op.rhsMap = .ofDims [k, n] ∧ op.rhsType.dims = [1, 4]
  acc : op.accMap = .ofDims [m, n] ∨ op.accMap = .ofDims [n, m]
  rows_ne : m ≠ k
  columns_ne : n ≠ k
  ne : m ≠ n
  reduction : op.reductionDims = [k]

theorem getDimPosition_pair (a b d : Nat) : getDimPosition (.ofDims [a, b]) d
    = if a = d then some 0 else if b = d then some 1 else none := by
  by_cases ha : a = d
  · simp [getDimPosition, AffineMap.ofDims, List.findIdx?_cons, ha]
  · by_cases hb : b = d
    · simp [getDimPosition, AffineMap.ofDims, List.findIdx?_cons, ha, hb]
    · simp [getDimPosition, AffineMap.ofDims, List.findIdx?_cons, ha, hb]

theorem mem_ofDims_pair {a b d : Nat} :
    AffineExpr.dim d ∈ AffineMap.ofDims [a, b] ↔ d = a ∨ d = b := by
  simp [AffineMap.ofDims]

/-- A map of rank 2. -/
theorem projection_pair {map : AffineMap} {type : VectorType} {loops : Nat}
    (h : IsProjection map loops type) (hrank : type.shape.length = 2) :
    ∃ a b, map = .ofDims [a, b] ∧ a ≠ b ∧ a < loops ∧ b < loops := by
  obtain ⟨ds, hmap, hnodup, hlength, hlt⟩ := h
  rw [hrank] at hlength
  obtain ⟨a, b, rfl⟩ := List.length_eq_two.mp hlength
  refine ⟨a, b, hmap, ?_, hlt a (by simp), hlt b (by simp)⟩
  simpa using hnodup

/-- The form of an operand of rank 2, from the sizes around the reduction loop. -/
theorem operand_form {map : AffineMap} {type : VectorType} {loops k pos : Nat}
    (hmap : IsProjection map loops type) (hrank : type.shape.length = 2)
    (hpos : getDimPosition map k = some pos) (hother : type.getDimSize (1 - pos) = 4)
    (hone : type.getDimSize pos = 1) :
    ∃ x, x ≠ k ∧ x < loops ∧ (map = .ofDims [x, k] ∧ type.dims = [4, 1]
      ∨ map = .ofDims [k, x] ∧ type.dims = [1, 4]) := by
  obtain ⟨a, b, rfl, hne, ha, hb⟩ := projection_pair hmap hrank
  obtain ⟨s, s', hshape⟩ := List.length_eq_two.mp hrank
  have hdims : type.dims = [s.toNat, s'.toNat] := by rw [VectorType.dims, hshape]; rfl
  rw [getDimPosition_pair] at hpos
  unfold VectorType.getDimSize at hother hone
  rw [hshape] at hother hone
  by_cases hak : a = k
  · -- the reduction loop comes first
    subst hak
    rw [if_pos rfl] at hpos
    obtain rfl := Option.some.inj hpos
    obtain rfl : s' = 4 := hother
    obtain rfl : s = 1 := hone
    exact ⟨b, hne.symm, hb, .inr ⟨rfl, hdims⟩⟩
  · rw [if_neg hak] at hpos
    split at hpos
    · next hbk =>
      subst hbk
      obtain rfl := Option.some.inj hpos
      obtain rfl : s = 4 := hother
      obtain rfl : s' = 1 := hone
      exact ⟨a, hne, ha, .inl ⟨rfl, hdims⟩⟩
    · cases hpos

/-- What the shape test computes its sizes from. -/
theorem getMatrixSizes_positions {op : ContractionOp} {M N K : Int}
    (h : getMatrixSizes op = some (M, N, K)) :
    ∃ k lhsKPos rhsKPos, op.iteratorTypes.findIdx? (· = .reduction) = some k
      ∧ getDimPosition op.lhsMap k = some lhsKPos ∧ getDimPosition op.rhsMap k = some rhsKPos
      ∧ op.lhsType.getDimSize (1 - lhsKPos) = M ∧ op.lhsType.getDimSize lhsKPos = K
      ∧ op.rhsType.getDimSize (1 - rhsKPos) = N ∧ op.rhsType.getDimSize rhsKPos = K := by
  unfold getMatrixSizes at h
  split at h
  · cases h
  · split at h
    · cases h
    · next k hk =>
      split at h
      · next lhsKPos rhsKPos hlhs hrhs =>
        simp only at h
        split at h
        · cases h
        · next hK =>
          push Not at hK
          simp only [Option.some.injEq, Prod.mk.injEq] at h
          obtain ⟨hM, hN, hK'⟩ := h
          exact ⟨k, lhsKPos, rhsKPos, hk, hlhs, hrhs, hM, hK', hN, hK.symm.trans hK'⟩
      · cases h

/-- **An accepted contraction** multiplies a column by a row. -/
theorem matrixForm_of_verified {kind : CombiningKind} {op : ContractionOp} (hv : Verified kind op)
    (h : getMatrixSizes op = some (4, 4, 1)) : ∃ m n k, MatrixForm op m n k := by
  obtain ⟨hlrank, hrrank, harank, -⟩ := getMatrixSizes_eq_some h
  obtain ⟨k, lhsKPos, rhsKPos, hk, hlpos, hrpos, hM, hlK, hN, hrK⟩ := getMatrixSizes_positions h
  obtain ⟨m, hmk, hmlt, hlhs⟩ := operand_form hv.lhsMap hlrank hlpos hM hlK
  obtain ⟨n, hnk, hnlt, hrhs⟩ := operand_form hv.rhsMap hrrank hrpos hN hrK
  obtain ⟨a, b, hacc, hab, ha, hb⟩ := projection_pair hv.accMap harank
  have hred : op.iteratorTypes[k]? = some .reduction := by
    obtain ⟨hlt, heq, -⟩ := List.findIdx?_eq_some_iff_getElem.mp hk
    rw [List.getElem?_eq_getElem hlt]
    simpa using heq
  have hklt : k < op.iteratorTypes.length := by
    by_contra hge
    rw [List.getElem?_eq_none (not_lt.mp hge)] at hred
    cases hred
  have hknot := (hv.parallel k hklt).mp hred
  rw [hacc, mem_ofDims_pair, not_or] at hknot
  -- every loop is `m`, `n` or `k`
  have hcover : ∀ d < op.iteratorTypes.length, d = m ∨ d = n ∨ d = k := by
    intro d hd
    rcases hv.covered d hd with hmem | hmem
    · rcases hlhs with ⟨hmap, -⟩ | ⟨hmap, -⟩ <;> rw [hmap, mem_ofDims_pair] at hmem <;> tauto
    · rcases hrhs with ⟨hmap, -⟩ | ⟨hmap, -⟩ <;> rw [hmap, mem_ofDims_pair] at hmem <;> tauto
  have ha' := hcover a ha
  have hb' := hcover b hb
  have horder : a = m ∧ b = n ∨ a = n ∧ b = m := by omega
  have hmn : m ≠ n := by omega
  refine ⟨m, n, k, hlhs, hrhs, ?_, hmk, hnk, hmn, ?_⟩
  · rcases horder with ⟨rfl, rfl⟩ | ⟨rfl, rfl⟩
    · exact .inl hacc
    · exact .inr hacc
  · -- the loops that the accumulator does not have
    have hmem : ∀ d, d ∈ op.reductionDims ↔ d = k := by
      intro d
      simp only [ContractionOp.reductionDims, List.mem_filter, List.mem_range, decide_eq_true_eq]
      constructor
      · rintro ⟨hd, hdred⟩
        have hdnot := (hv.parallel d hd).mp hdred
        rw [hacc, mem_ofDims_pair, not_or] at hdnot
        have := hcover d hd
        omega
      · rintro rfl
        exact ⟨hklt, hred⟩
    have hnodup : op.reductionDims.Nodup := List.nodup_range.filter _
    have hperm : op.reductionDims.Perm [k] :=
      (List.perm_ext_iff_of_nodup hnodup (List.nodup_singleton k)).mpr fun d => by simp [hmem d]
    exact List.perm_singleton.mp hperm

/-! ### The meaning of an accepted contraction -/

/-- The left operand indexes the rows of the accumulator. -/
def ContractionOp.RowsFirst (op : ContractionOp) : Prop :=
  ∃ expr ∈ op.lhsMap, op.accMap.head? = some expr

/-- An element of an operand along its loop `x`, at position 0 of the reduction loop. -/
theorem element_eq {map : AffineMap} {type : VectorType} {x k : Nat}
    (h : map = .ofDims [x, k] ∧ type.dims = [4, 1] ∨ map = .ofDims [k, x] ∧ type.dims = [1, 4])
    (values : Nat → Nat) {position : Nat → Nat} (hk : position k = 0) :
    ContractionOp.element map type values position = values (position x) := by
  rcases h with ⟨rfl, hdims⟩ | ⟨rfl, hdims⟩ <;>
    simp [ContractionOp.element, AffineMap.ofDims, AffineExpr.eval, ravel, hdims, hk]

namespace MatrixForm

variable {op : ContractionOp} {m n k : Nat}

theorem rowsFirst_iff (h : MatrixForm op m n k) : op.RowsFirst ↔ op.accMap = .ofDims [m, n] := by
  have hlhs : ∀ d, AffineExpr.dim d ∈ op.lhsMap ↔ d = m ∨ d = k := by
    intro d
    rcases h.lhs with ⟨hmap, -⟩ | ⟨hmap, -⟩
    · rw [hmap, mem_ofDims_pair]
    · rw [hmap, mem_ofDims_pair]
      exact or_comm
  have hnm := h.ne.symm
  have hnk := h.columns_ne
  have hne : AffineMap.ofDims [n, m] ≠ AffineMap.ofDims [m, n] := by
    simp [AffineMap.ofDims, hnm]
  rcases h.acc with hacc | hacc
  · refine iff_of_true ⟨.dim m, (hlhs m).mpr (.inl rfl), ?_⟩ hacc
    rw [hacc]
    rfl
  · refine iff_of_false ?_ (by rw [hacc]; exact hne)
    rintro ⟨expr, hmem, hhead⟩
    rw [hacc] at hhead
    obtain rfl := Option.some.inj hhead
    rcases (hlhs n).mp hmem with h | h
    · exact hnm h
    · exact hnk h

/-- The reduction has one point. -/
theorem points_eq (h : MatrixForm op m n k) :
    points (op.reductionDims.map op.extent) = [[0]] := by
  have hextent : op.extent k = 1 := by
    unfold ContractionOp.extent
    have hmk := h.rows_ne
    rcases h.lhs with ⟨hmap, hdims⟩ | ⟨hmap, hdims⟩ <;>
      simp [hmap, hdims, getDimPosition_pair, hmk]
  rw [h.reduction, List.map_singleton, hextent]
  rfl

/-- The positions of the loops. -/
theorem coordinate_eq (h : MatrixForm op m n k) (i j : Nat) :
    op.coordinate [i, j] [0] k = 0
      ∧ op.coordinate [i, j] [0] m = (if op.accMap = .ofDims [m, n] then i else j)
      ∧ op.coordinate [i, j] [0] n = (if op.accMap = .ofDims [m, n] then j else i) := by
  have hmn := h.ne
  have hnm := h.ne.symm
  have hmk := h.rows_ne
  have hnk := h.columns_ne
  have hne : AffineMap.ofDims [n, m] ≠ AffineMap.ofDims [m, n] := by
    simp [AffineMap.ofDims, hnm]
  unfold ContractionOp.coordinate
  rw [h.reduction]
  rcases h.acc with hacc | hacc
  · simp [hacc, getDimPosition_pair, hmk, hnk, hmn]
  · simp [hacc, getDimPosition_pair, hmk, hnk, hnm, hne]

/-- **The meaning of an accepted contraction** is an outer product: with `(i, j)` the element, or
    with `(j, i)` where the accumulator map is transposed. -/
theorem eval_eq (h : MatrixForm op m n k) (A : Arith) (kind : CombiningKind)
    (lhs rhs : Nat → Nat) (acc : Nat × Nat → Nat) (cell : Nat × Nat) :
    op.eval A kind lhs rhs acc cell
      = A.accumulate kind
          (A.promote op.lhsType.elementType
            (lhs (if op.accMap = .ofDims [m, n] then cell.1 else cell.2)))
          (A.promote op.rhsType.elementType
            (rhs (if op.accMap = .ofDims [m, n] then cell.2 else cell.1))) (acc cell) := by
  obtain ⟨hk, hm, hn⟩ := h.coordinate_eq cell.1 cell.2
  rw [ContractionOp.eval, h.points_eq, List.foldl_cons, List.foldl_nil]
  simp only [element_eq h.lhs lhs hk, element_eq h.rhs rhs hk, hm, hn]

end MatrixForm

end CoralNPU.Matrix
