import CoralNPU.Tiling.FootprintMono

namespace CoralNPU.Tiling

/-!
# Tiling — the named contractions

The root operations `linalg.matmul`, `linalg.batch_matmul`, `linalg.mmt4d` and
`linalg.batch_mmt4d` over a domain with given loop extents.  A `Contraction` names the
loops each operand is indexed by; all indexing maps are lists of plain loop dimensions.

* `Contraction.toRootOp` — the operation;
* `Contraction.getStaticLoopRanges_eq` — its loop ranges are the given extents;
* `dimBound`, `dimBound_exact` — `getBoundForAffineExpr` on plain loop dimensions.
-/

/-- A contraction of two operands: the iterators, and the loops that index each operand. -/
structure Contraction where
  kind : LinalgKind
  iteratorTypes : List IteratorType
  lhs : List Nat
  rhs : List Nat
  out : List Nat
  deriving DecidableEq, Repr

namespace Contraction

/-- An operand indexed by plain loop dimensions. -/
def operand (extent : Nat → Int) (elementType : ElementType) (dims : List Nat) : LinalgOperand :=
  { type := .tensor { shape := dims.map extent, elementType := elementType }
    indexingMap := AffineMap.ofDims dims }

/-- The `linalg` operation over loops with the given extents. -/
def toLinalgOp (c : Contraction) (extent : Nat → Int) (lhsType rhsType outType : ElementType) :
    LinalgOp :=
  { kind := c.kind
    iteratorTypes := c.iteratorTypes
    dpsInputs := [operand extent lhsType c.lhs, operand extent rhsType c.rhs]
    dpsInits := [operand extent outType c.out] }

/-- The contraction as a root operation. -/
def toRootOp (c : Contraction) (extent : Nat → Int) (lhsType rhsType outType : ElementType) :
    RootOp :=
  { op := .linalg (c.toLinalgOp extent lhsType rhsType outType)
    resultTypes := [.tensor { shape := c.out.map extent, elementType := outType }] }

/-- `linalg.matmul`: the loops are m, n, k. -/
def matmul : Contraction :=
  { kind := .matmul, iteratorTypes := [.parallel, .parallel, .reduction]
    lhs := [0, 2], rhs := [2, 1], out := [0, 1] }

/-- `linalg.matmul` with a transposed left operand. -/
def matmulTransposeA : Contraction := { matmul with lhs := [2, 0] }

/-- `linalg.matmul` with a transposed right operand. -/
def matmulTransposeB : Contraction := { matmul with rhs := [1, 2] }

/-- `linalg.batch_matmul`: the loops are b, m, n, k. -/
def batchMatmul : Contraction :=
  { kind := .batchMatmul, iteratorTypes := [.parallel, .parallel, .parallel, .reduction]
    lhs := [0, 1, 3], rhs := [0, 3, 2], out := [0, 1, 2] }

/-- `linalg.batch_matmul` with a transposed left operand. -/
def batchMatmulTransposeA : Contraction := { batchMatmul with lhs := [0, 3, 1] }

/-- `linalg.batch_matmul` with a transposed right operand. -/
def batchMatmulTransposeB : Contraction := { batchMatmul with rhs := [0, 2, 3] }

/-- `linalg.mmt4d`: the loops are m, n, k, m0, n0, k0. -/
def mmt4D : Contraction :=
  { kind := .mmt4D
    iteratorTypes := [.parallel, .parallel, .reduction, .parallel, .parallel, .reduction]
    lhs := [0, 2, 3, 5], rhs := [1, 2, 4, 5], out := [0, 1, 3, 4] }

/-- `linalg.batch_mmt4d`: the loops are b, m, n, k, m0, n0, k0. -/
def batchMmt4D : Contraction :=
  { kind := .batchMmt4D
    iteratorTypes := [.parallel, .parallel, .parallel, .reduction, .parallel, .parallel, .reduction]
    lhs := [0, 1, 3, 4, 6], rhs := [0, 2, 3, 5, 6], out := [0, 1, 2, 4, 5] }

/-- Every loop indexes some operand. -/
def Covers (c : Contraction) : Prop :=
  ∀ d < c.iteratorTypes.length, d ∈ c.lhs ++ c.rhs ++ c.out

instance (c : Contraction) : Decidable c.Covers := Nat.decidableBallLT _ _

/-- The extents an operand gives for loop `d`: one for each time `d` indexes it. -/
theorem operand_extents (extent : Nat → Int) (e : ElementType) (dims : List Nat) (d : Nat) :
    ((operand extent e dims).indexingMap.zip (operand extent e dims).type.shape).filterMap
        (fun (expr, ext) => if expr = .dim d then some ext else none)
      = (dims.filter (· = d)).map extent := by
  induction dims with
  | nil => rfl
  | cons x dims ih =>
    simp only [operand, AffineMap.ofDims, ValueType.shape, List.map_cons, List.zip_cons_cons] at ih ⊢
    by_cases hx : x = d
    · subst hx
      rw [List.filterMap_cons_some (b := extent x) (by simp), ih]
      simp
    · rw [List.filterMap_cons_none (by simp [hx]), ih]
      simp [hx]

/-- **The loop ranges** of a contraction are the given extents. -/
theorem getStaticLoopRanges_eq {c : Contraction} (hcovers : c.Covers) (extent : Nat → Int)
    (lhsType rhsType outType : ElementType) :
    (c.toRootOp extent lhsType rhsType outType).getStaticLoopRanges
      = (List.range c.iteratorTypes.length).map extent := by
  show (List.range c.iteratorTypes.length).map _ = _
  refine List.map_congr_left fun d hd => ?_
  have hmem := hcovers d (List.mem_range.mp hd)
  have hextents : (c.toLinalgOp extent lhsType rhsType outType).loopExtents d
      = ((c.lhs ++ c.rhs ++ c.out).filter (· = d)).map extent := by
    simp only [LinalgOp.loopExtents, LinalgOp.operands, toLinalgOp, List.flatMap_append,
      List.flatMap_cons, List.flatMap_nil, List.append_nil, operand_extents, List.filter_append,
      List.map_append]
  rw [hextents]
  -- all extents found are `extent d`, and there is one
  have hne : d ∈ (c.lhs ++ c.rhs ++ c.out).filter (· = d) := by simpa using hmem
  cases hfilter : (c.lhs ++ c.rhs ++ c.out).filter (· = d) with
  | nil => rw [hfilter] at hne; cases hne
  | cons x rest =>
    have hx : x ∈ (c.lhs ++ c.rhs ++ c.out).filter (· = d) := by rw [hfilter]; simp
    have : x = d := by simpa using (List.mem_filter.mp hx).2
    rw [List.map_cons, List.headD_cons, this]

end Contraction

/-! ### Bounds of plain dimensions -/

/-- `getBoundForAffineExpr` on plain loop dimensions and constants. -/
def dimBound : BoundFn := fun expr lbs ubs isUpper =>
  match expr with
  | .dim d => ((if isUpper then ubs else lbs)[d]?).join
  | .const c => some c
  | _ => none

/-- The entries of a tile are at least 1, also past its end. -/
theorem one_le_getD {sizes : List Int} (h : ∀ s ∈ sizes, 1 ≤ s) (i : Nat) : 1 ≤ sizes.getD i 1 := by
  by_cases hi : i < sizes.length
  · rw [List.getD_eq_getElem _ _ hi]
    exact h _ (List.getElem_mem hi)
  · rw [List.getD_eq_default _ _ (by omega)]

/-- The first iteration point of a tile. -/
theorem zero_mem_box {sizes : List Int} (h : ∀ s ∈ sizes, 1 ≤ s) : (fun _ => 0) ∈ box sizes := by
  intro i
  have := one_le_getD h i
  exact ⟨le_refl 0, show (0 : Int) < sizes.getD i 1 by omega⟩

/-- The last iteration point of a tile. -/
theorem last_mem_box {sizes : List Int} (h : ∀ s ∈ sizes, 1 ≤ s) :
    (fun i => sizes.getD i 1 - 1) ∈ box sizes := by
  intro i
  have := one_le_getD h i
  constructor <;> simp only <;> omega

/-- `dimBound` is exact on the loops of the domain. -/
theorem dimBound_exact {numLoops d : Nat} (hd : d < numLoops) :
    ExactBound dimBound numLoops (.dim d) := by
  refine ⟨fun sizes hlen h => ⟨0, ?_, ⟨_, zero_mem_box h, rfl⟩, ?_⟩,
    fun sizes hlen h => ⟨sizes.getD d 1 - 1, ?_, ⟨_, last_mem_box h, rfl⟩, ?_⟩⟩
  · have hd' : d < sizes.length := hlen ▸ hd
    simp [dimBound, lowerBounds, hd']
  · rintro x ⟨p, hp, rfl⟩
    exact (hp d).1
  · have hd' : d < sizes.length := hlen ▸ hd
    have hsize := h _ (List.getElem_mem hd')
    rw [List.getD_eq_getElem _ _ hd']
    simp [dimBound, upperBounds, hd']
    omega
  · rintro x ⟨p, hp, rfl⟩
    have := (hp d).2
    simp only [AffineExpr.eval]
    omega

/-- **Exact bounds** for a contraction whose operands are indexed by its own loops. -/
theorem Contraction.exactBounds {c : Contraction}
    (hdims : ∀ d ∈ c.lhs ++ c.rhs ++ c.out, d < c.iteratorTypes.length) (extent : Nat → Int)
    (lhsType rhsType outType : ElementType) :
    ExactBounds dimBound (c.toRootOp extent lhsType rhsType outType) := by
  intro op hop operand hmem expr hexpr
  obtain rfl := RootKind.linalg.inj hop
  simp only [LinalgOp.operands, toLinalgOp, List.cons_append, List.nil_append, List.mem_cons,
    List.not_mem_nil, or_false] at hmem
  have hdim : ∃ d ∈ c.lhs ++ c.rhs ++ c.out, AffineExpr.dim d = expr := by
    rcases hmem with rfl | rfl | rfl <;> obtain ⟨d, hd, rfl⟩ := List.mem_map.mp hexpr <;>
      exact ⟨d, by simp [hd], rfl⟩
  obtain ⟨d, hd, rfl⟩ := hdim
  exact dimBound_exact (hdims d hd)

/-- A contraction over loops that are not empty has static shapes. -/
theorem Contraction.hasStaticShapes {c : Contraction} {extent : Nat → Int}
    (hextent : ∀ d, 0 ≤ extent d) (lhsType rhsType outType : ElementType) :
    (c.toRootOp extent lhsType rhsType outType).HasStaticShapes := by
  intro type htype ext hext
  simp only [RootOp.operandTypes, toRootOp, LinalgOp.operands, toLinalgOp, List.cons_append,
    List.nil_append, List.map_cons, List.map_nil, List.mem_cons, List.not_mem_nil, or_false]
    at htype
  have hdim : ∃ d, extent d = ext := by
    rcases htype with rfl | rfl | rfl <;> obtain ⟨d, -, rfl⟩ := List.mem_map.mp hext <;>
      exact ⟨d, rfl⟩
  obtain ⟨d, rfl⟩ := hdim
  exact hextent d

end CoralNPU.Tiling
