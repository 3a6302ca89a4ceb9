import CoralNPU.Tiling.PackBound
import Mathlib.Order.ConditionallyCompleteLattice.Finset
import Mathlib.Data.Int.ConditionallyCompleteOrder

namespace CoralNPU.AffineExpr

/-- The value of an expression depends on the dimensions that it mentions. -/
theorem eval_congr {expr : AffineExpr} {p q : Nat → Int}
    (h : ∀ d, expr.isFunctionOfDim d = true → p d = q d) : expr.eval p = expr.eval q := by
  induction expr with
  | dim position => exact h position (by simp [isFunctionOfDim])
  | const value => rfl
  | add a b iha ihb | mul a b iha ihb | floorDiv a b iha ihb | ceilDiv a b iha ihb
  | mod a b iha ihb =>
    have hor : ∀ d, (a.isFunctionOfDim d || b.isFunctionOfDim d) = true → p d = q d := h
    simp only [eval]
    rw [iha fun d hd => hor d (by rw [hd, Bool.true_or]),
      ihb fun d hd => hor d (by rw [hd, Bool.or_true])]

/-- Is the expression a constant? -/
def isConstant : AffineExpr → Bool
  | .const _ => true
  | _ => false

/-- Sums of loop dimensions with constant coefficients, and constants. -/
def isLinear : AffineExpr → Bool
  | .dim _ | .const _ => true
  | .add a b => a.isLinear && b.isLinear
  | .mul a b => a.isLinear && b.isLinear && (a.isConstant || b.isConstant)
  | .floorDiv _ _ | .ceilDiv _ _ | .mod _ _ => false

theorem eval_of_isConstant {expr : AffineExpr} (h : expr.isConstant = true)
    (p q : Nat → Int) : expr.eval p = expr.eval q := by
  cases expr with
  | const value => rfl
  | _ => cases h

/-- **Shift.** A linear expression changes by the same amount everywhere. -/
theorem eval_shift {expr : AffineExpr} (h : expr.isLinear = true) (p q : Nat → Int) :
    expr.eval (fun i => p i + q i) = expr.eval p + (expr.eval q - expr.eval fun _ => 0) := by
  induction expr with
  | dim position => simp only [eval, sub_zero]
  | const value => simp only [eval, sub_self, add_zero]
  | add a b iha ihb =>
    simp only [isLinear, Bool.and_eq_true] at h
    simp only [eval]
    rw [iha h.1, ihb h.2]
    ring
  | mul a b iha ihb =>
    simp only [isLinear, Bool.and_eq_true, Bool.or_eq_true] at h
    obtain ⟨⟨ha, hb⟩, hconst⟩ := h
    simp only [eval]
    rcases hconst with hconst | hconst
    · rw [ihb hb, eval_of_isConstant hconst (fun i => p i + q i) p,
        eval_of_isConstant hconst q p,
        eval_of_isConstant hconst (fun _ => 0) p]
      ring
    · rw [iha ha, eval_of_isConstant hconst (fun i => p i + q i) p,
        eval_of_isConstant hconst q p,
        eval_of_isConstant hconst (fun _ => 0) p]
      ring
  | floorDiv a b => cases h
  | ceilDiv a b => cases h
  | mod a b => cases h

end CoralNPU.AffineExpr

namespace CoralNPU.Tiling

open Lib

/-!
# Tiling — the footprint estimate of a linalg operand

The estimate is computed for the tile at the origin, from bounds of the results of the indexing map,
and stands for every tile.

* `span`, `spanned` — the elements from the first to the last that a tile accesses, along one
  dimension of the operand and in all.
* `SoundBound` — what is assumed of `getBoundForAffineExpr`; `exactBound` is the best such function.
* `OperandVerified` — what the verifier of `linalg` operations checks of an operand.
* `boundedElements`, `NoLooseOverflow` — the elements of the box that the bounds describe, and bounds
  that do not make an `int64_t` overflow on their own.
* `LinalgBounded` — the estimate covers what every tile spans, for every such sound bound.
* `linalgBounded_iff` — the condition, and that it holds for maps without divisions, of tiles whose
  bytes fit.
-/

/-! ### Points and spans -/

/-- The iteration point with the given coordinates. -/
def atPoint {n : Nat} (p : Fin n → Int) (i : Nat) : Int := if h : i < n then p ⟨i, h⟩ else 0

/-- The iterations of tile number `k` of the loop nest. -/
def tilePoints (ranges sizes : List Int) (k : Nat → Nat) : Finset (Fin ranges.length → Int) :=
  points ranges.length fun i => tileIndices (ranges.getD i 0) (sizes.getD i 0) (k i)

theorem mem_tilePoints {ranges sizes : List Int} {k : Nat → Nat} {p : Fin ranges.length → Int} :
    p ∈ tilePoints ranges sizes k ↔ ∀ i : Fin ranges.length,
      p i ∈ tileIndices (ranges.getD i 0) (sizes.getD i 0) (k i) := Fintype.mem_piFinset

/-- The values of a result of the indexing map in a tile. -/
def valuesOn {n : Nat} (expr : AffineExpr) (tile : Finset (Fin n → Int)) : Finset Int :=
  tile.image fun p => expr.eval (atPoint p)

/-- The length of the interval from the least to the greatest value. -/
def span (values : Finset Int) : Int :=
  if h : values.Nonempty then values.max' h - values.min' h + 1 else 0

/-- The operand elements from the first to the last that the tile accesses, in every dimension. -/
def spanned {n : Nat} (map : AffineMap) (tile : Finset (Fin n → Int)) : Int :=
  if tile.Nonempty then (map.map fun expr => span (valuesOn expr tile)).prod else 0

theorem span_nonneg (values : Finset Int) : 0 ≤ span values := by
  unfold span
  split
  next h =>
    have := values.min'_le_max' h
    omega
  next => exact le_refl 0

/-- An interval that holds all values is at least as long. -/
theorem span_le {values : Finset Int} {lo hi : Int} (h : ∀ x ∈ values, lo ≤ x ∧ x ≤ hi)
    (hlohi : lo ≤ hi + 1) : span values ≤ hi - lo + 1 := by
  unfold span
  split
  next hne =>
    have hmax := (h _ (values.max'_mem hne)).2
    have hmin := (h _ (values.min'_mem hne)).1
    omega
  next => omega

theorem spanned_nonneg {n : Nat} (map : AffineMap) (tile : Finset (Fin n → Int)) :
    0 ≤ spanned map tile := by
  unfold spanned
  split
  · refine List.prod_nonneg fun x hx => ?_
    obtain ⟨expr, _, rfl⟩ := List.mem_map.mp hx
    exact span_nonneg _
  · exact le_refl 0

/-- A tile with iterations spans elements. -/
theorem one_le_spanned {n : Nat} (map : AffineMap) {tile : Finset (Fin n → Int)}
    (h : tile.Nonempty) : 1 ≤ spanned map tile := by
  rw [spanned, if_pos h]
  have hpos : 0 < (map.map fun expr => span (valuesOn expr tile)).prod := by
    refine List.prod_pos fun x hx => ?_
    obtain ⟨expr, _, rfl⟩ := List.mem_map.mp hx
    have hne : (valuesOn expr tile).Nonempty := h.image _
    have := (valuesOn expr tile).min'_le_max' hne
    rw [span, dif_pos hne]
    omega
  omega

/-! ### Bounds -/

/-- The point lies between the bounds that are known. -/
def BetweenBounds (lbs ubs : List (Option Int)) (p : Nat → Int) : Prop :=
  ∀ i, (∀ lb, lbs.getD i none = some lb → lb ≤ p i) ∧ (∀ ub, ubs.getD i none = some ub → p i ≤ ub)

/-- `getBoundForAffineExpr` returns bounds of the expression. -/
structure SoundBound (getBound : BoundFn) : Prop where
  lower : ∀ expr lbs ubs lb, getBound expr lbs ubs false = some lb →
    ∀ p, BetweenBounds lbs ubs p → lb ≤ expr.eval p
  upper : ∀ expr lbs ubs ub, getBound expr lbs ubs true = some ub →
    ∀ p, BetweenBounds lbs ubs p → expr.eval p ≤ ub

open Classical in
/-- The best bounds: the least and the greatest value, if they exist. -/
noncomputable def exactBound : BoundFn := fun expr lbs ubs isUpper =>
  let values := Set.image expr.eval {p | BetweenBounds lbs ubs p}
  if isUpper then
    if values.Nonempty ∧ BddAbove values then some (sSup values) else none
  else
    if values.Nonempty ∧ BddBelow values then some (sInf values) else none

/-- The best bounds of finitely many values. -/
theorem exactBound_eq {expr : AffineExpr} {lbs ubs : List (Option Int)} {values : Finset Int}
    (h : Set.image expr.eval {p | BetweenBounds lbs ubs p} = (values : Set Int))
    (hne : values.Nonempty) :
    exactBound expr lbs ubs true = some (values.max' hne) ∧
      exactBound expr lbs ubs false = some (values.min' hne) := by
  have hsome : (Set.image expr.eval {p | BetweenBounds lbs ubs p}).Nonempty := h ▸ hne
  have habove : BddAbove (Set.image expr.eval {p | BetweenBounds lbs ubs p}) :=
    h ▸ Finset.bddAbove values
  have hbelow : BddBelow (Set.image expr.eval {p | BetweenBounds lbs ubs p}) :=
    h ▸ Finset.bddBelow values
  constructor
  · simp only [exactBound, if_true, if_pos (And.intro hsome habove)]
    rw [h, hne.csSup_eq_max']
  · simp only [exactBound, Bool.false_eq_true, if_false, if_pos (And.intro hsome hbelow)]
    rw [h, hne.csInf_eq_min']

theorem exactBound_sound : SoundBound exactBound where
  lower := by
    intro expr lbs ubs lb h p hp
    simp only [exactBound, Bool.false_eq_true, if_false] at h
    split at h
    next hbdd =>
      obtain rfl := Option.some.inj h
      exact csInf_le hbdd.2 ⟨p, hp, rfl⟩
    next => cases h
  upper := by
    intro expr lbs ubs ub h p hp
    simp only [exactBound, if_true] at h
    split at h
    next hbdd =>
      obtain rfl := Option.some.inj h
      exact le_csSup hbdd.2 ⟨p, hp, rfl⟩
    next => cases h

/-! ### The operand -/

/-- A tensor operand of a static `linalg` operation. -/
structure OperandVerified (op : LinalgOp) (operand : LinalgOperand) (type : TensorType) :
    Prop where
  type_eq : operand.type = .tensor type
  static_ranges : ∀ range ∈ op.getStaticLoopRanges, 0 ≤ range
  static_shape : ∀ extent ∈ type.shape, 0 ≤ extent
  /-- The map is one of the loops of the operation. -/
  dims : ∀ expr ∈ operand.indexingMap, ∀ d, expr.isFunctionOfDim d = true →
    d < op.getStaticLoopRanges.length
  /-- Every iteration accesses an element of the operand. -/
  in_bounds : ∀ p : Fin op.getStaticLoopRanges.length → Int,
    (∀ i : Fin op.getStaticLoopRanges.length,
      0 ≤ p i ∧ p i < op.getStaticLoopRanges.getD i 0) →
    ∀ j expr, operand.indexingMap[j]? = some expr →
      0 ≤ expr.eval (atPoint p) ∧ expr.eval (atPoint p) < type.shape.getD j 0

/-- The elements of the box that the bounds of the tile at the origin describe, with the full extent
    where no bound is known. -/
def boundedElements (getBound : BoundFn) (op : LinalgOp) (operand : LinalgOperand) (type : TensorType)
    (sizes : List Int) : Int :=
  (operand.indexingMap.zipIdx.map fun (expr, i) =>
    linalgFactor id getBound (resolveTileSizes sizes op.getStaticLoopRanges) expr
      (type.shape.getD i 0)).prod

/-- The bounds are not so loose that the bytes of their box overflow where those that the tile spans
    do not.  (A sound bound may be anything down to the smallest and up to the largest `int64_t`;
    `mlir::getBoundForAffineExpr` returns the least and the greatest value of a sum of products.) -/
def NoLooseOverflow (getBound : BoundFn) (op : LinalgOp) (operand : LinalgOperand)
    (type : TensorType) (bits : Int) (sizes : List Int) : Prop :=
  FitsInt64 (spanned operand.indexingMap (tilePoints op.getStaticLoopRanges sizes fun _ => 0)
      * (bits / 8)) →
    FitsInt64 (boundedElements getBound op operand type sizes * (bits / 8))

/-- **The estimate is an upper bound**, for every sound bound of expressions and every tile that has
    iterations. -/
def LinalgBounded (op : LinalgOp) (operand : LinalgOperand) (type : TensorType) (bits : Int)
    (sizes : List Int) : Prop :=
  ∀ getBound, SoundBound getBound → NoLooseOverflow getBound op operand type bits sizes → ∃ bytes,
    estimateLinalgOperandFootprint toInt64 getBound op sizes operand = .ok bytes ∧
    ∀ k, (tilePoints op.getStaticLoopRanges sizes k).Nonempty →
      storageBytes bits
        (spanned operand.indexingMap (tilePoints op.getStaticLoopRanges sizes k)) ≤ bytes

section Origin

variable {ranges sizes : List Int}

theorem getD_resolveTileSizes (hlen : sizes.length = ranges.length) (i : Nat) :
    (resolveTileSizes sizes ranges).getD i 0
      = if sizes.getD i 0 = 0 then ranges.getD i 0 else sizes.getD i 0 := by
  unfold resolveTileSizes
  by_cases hi : i < sizes.length
  · rw [List.getD_eq_getElem _ _ (by rw [List.length_zipWith]; omega),
      List.getD_eq_getElem _ _ hi, List.getD_eq_getElem _ _ (by omega), List.getElem_zipWith]
  · rw [List.getD_eq_default _ _ (by rw [List.length_zipWith]; omega),
      List.getD_eq_default _ _ (by omega), List.getD_eq_default _ _ (by omega)]
    rfl

/-- The tile at the origin. -/
theorem mem_origin (hsizes : TileSizes ranges sizes) (p : Fin ranges.length → Int) :
    p ∈ tilePoints ranges sizes (fun _ => 0) ↔
      ∀ i : Fin ranges.length, 0 ≤ p i ∧ p i < (resolveTileSizes sizes ranges).getD i 0 := by
  rw [mem_tilePoints]
  refine forall_congr' fun i => ?_
  rw [getD_resolveTileSizes hsizes.length_eq, tileIndices]
  split
  · exact mem_indexRange
  next hne =>
    have hle := ((hsizes.size i i.isLt).resolve_left hne).2
    rw [Nat.cast_zero, zero_mul, zero_add, min_eq_left hle]
    exact mem_indexRange

/-- A loop nest without empty loops has iterations in the tile at the origin. -/
theorem one_le_resolved (hsizes : TileSizes ranges sizes) (hfull : 0 ∉ ranges)
    (hranges : ∀ range ∈ ranges, 0 ≤ range) {i : Nat} (hi : i < ranges.length) :
    1 ≤ (resolveTileSizes sizes ranges).getD i 0 := by
  rw [getD_resolveTileSizes hsizes.length_eq]
  split
  · rw [List.getD_eq_getElem _ _ hi]
    have hnonneg := hranges _ (List.getElem_mem hi)
    have hne : ranges[i] ≠ 0 := fun hzero => hfull (hzero ▸ List.getElem_mem hi)
    omega
  next hne => exact ((hsizes.size i hi).resolve_left hne).1

/-- The bounds that the estimate asks for are those of the tile at the origin. -/
theorem betweenBounds_iff (hsizes : TileSizes ranges sizes) (hfull : 0 ∉ ranges)
    (hranges : ∀ range ∈ ranges, 0 ≤ range) (q : Nat → Int) :
    BetweenBounds (lowerBounds (resolveTileSizes sizes ranges))
        (upperBounds (resolveTileSizes sizes ranges)) q ↔
      (fun i : Fin ranges.length => q i) ∈ tilePoints ranges sizes (fun _ => 0) := by
  have hlen : (resolveTileSizes sizes ranges).length = ranges.length := by
    rw [resolveTileSizes, List.length_zipWith, hsizes.length_eq, Nat.min_self]
  have hbounds : ∀ i, i < ranges.length →
      (lowerBounds (resolveTileSizes sizes ranges)).getD i none = some 0 ∧
      (upperBounds (resolveTileSizes sizes ranges)).getD i none
        = some ((resolveTileSizes sizes ranges).getD i 0 - 1) := by
    intro i hi
    have hone := one_le_resolved hsizes hfull hranges hi
    rw [List.getD_eq_getElem _ _ (by omega)] at hone
    unfold lowerBounds upperBounds
    rw [List.getD_eq_getElem _ _ (by rw [List.length_map]; omega),
      List.getD_eq_getElem _ _ (by rw [List.length_map]; omega),
      List.getD_eq_getElem _ _ (by omega), List.getElem_map, List.getElem_map,
      if_neg (by omega)]
    exact ⟨rfl, rfl⟩
  rw [mem_origin hsizes]
  constructor
  · intro h i
    obtain ⟨hlo, hhi⟩ := h i
    obtain ⟨hlb, hub⟩ := hbounds i i.isLt
    exact ⟨hlo 0 hlb, Int.lt_of_le_sub_one (hhi _ hub)⟩
  · intro h i
    by_cases hi : i < ranges.length
    · obtain ⟨hlo, hhi⟩ := h ⟨i, hi⟩
      obtain ⟨hlb, hub⟩ := hbounds i hi
      constructor
      · intro lb hlb'
        obtain rfl := Option.some.inj (hlb.symm.trans hlb')
        exact hlo
      · intro ub hub'
        obtain rfl := Option.some.inj (hub.symm.trans hub')
        exact Int.le_sub_one_of_lt hhi
    · constructor
      · intro lb hlb
        rw [lowerBounds, List.getD_eq_default _ _ (by rw [List.length_map]; omega)] at hlb
        cases hlb
      · intro ub hub
        rw [upperBounds, List.getD_eq_default _ _ (by rw [List.length_map]; omega)] at hub
        cases hub

theorem origin_nonempty (hsizes : TileSizes ranges sizes) (hfull : 0 ∉ ranges)
    (hranges : ∀ range ∈ ranges, 0 ≤ range) :
    (tilePoints ranges sizes fun _ => 0).Nonempty :=
  ⟨fun _ => 0, (mem_origin hsizes _).mpr fun i =>
    ⟨le_refl 0, one_le_resolved hsizes hfull hranges i.isLt⟩⟩

/-- The values between the bounds are those of the tile at the origin. -/
theorem image_betweenBounds (hsizes : TileSizes ranges sizes) (hfull : 0 ∉ ranges)
    (hranges : ∀ range ∈ ranges, 0 ≤ range) {expr : AffineExpr}
    (hdims : ∀ d, expr.isFunctionOfDim d = true → d < ranges.length) :
    Set.image expr.eval {q | BetweenBounds (lowerBounds (resolveTileSizes sizes ranges))
        (upperBounds (resolveTileSizes sizes ranges)) q}
      = (valuesOn expr (tilePoints ranges sizes fun _ => 0) : Set Int) := by
  have heval : ∀ q : Nat → Int,
      expr.eval (atPoint fun i : Fin ranges.length => q i) = expr.eval q := fun q =>
    AffineExpr.eval_congr fun d hd => by rw [atPoint, dif_pos (hdims d hd)]
  ext v
  rw [valuesOn, Finset.coe_image, Set.mem_image, Set.mem_image]
  constructor
  · rintro ⟨q, hq, rfl⟩
    exact ⟨_, (betweenBounds_iff hsizes hfull hranges q).mp hq, heval q⟩
  · rintro ⟨p, hp, rfl⟩
    refine ⟨atPoint p, (betweenBounds_iff hsizes hfull hranges _).mpr ?_, rfl⟩
    have hself : (fun i : Fin ranges.length => atPoint p i) = p := by
      funext i
      rw [atPoint, dif_pos i.isLt]
    rw [hself]
    exact hp

/-- With the best bounds, a factor is the span of the tile at the origin. -/
theorem linalgFactor_exact (hsizes : TileSizes ranges sizes) (hfull : 0 ∉ ranges)
    (hranges : ∀ range ∈ ranges, 0 ≤ range) {expr : AffineExpr}
    (hdims : ∀ d, expr.isFunctionOfDim d = true → d < ranges.length) (extent : Int) :
    linalgFactor id exactBound (resolveTileSizes sizes ranges) expr extent
      = span (valuesOn expr (tilePoints ranges sizes fun _ => 0)) := by
  have hne : (valuesOn expr (tilePoints ranges sizes fun _ => 0)).Nonempty :=
    (origin_nonempty hsizes hfull hranges).image _
  obtain ⟨hub, hlb⟩ := exactBound_eq (image_betweenBounds hsizes hfull hranges hdims) hne
  simp only [linalgFactor, hub, hlb, id]
  rw [span, dif_pos hne]

/-- With any sound bounds, a factor is at least the span of the tile at the origin. -/
theorem span_le_linalgFactor (hsizes : TileSizes ranges sizes) (hfull : 0 ∉ ranges)
    (hranges : ∀ range ∈ ranges, 0 ≤ range) {getBound : BoundFn} (hsound : SoundBound getBound)
    {expr : AffineExpr} (hdims : ∀ d, expr.isFunctionOfDim d = true → d < ranges.length)
    {extent : Int} (hextent : 0 ≤ extent)
    (hin : ∀ x ∈ valuesOn expr (tilePoints ranges sizes fun _ => 0), 0 ≤ x ∧ x < extent) :
    span (valuesOn expr (tilePoints ranges sizes fun _ => 0))
      ≤ linalgFactor id getBound (resolveTileSizes sizes ranges) expr extent := by
  have hne : (valuesOn expr (tilePoints ranges sizes fun _ => 0)).Nonempty :=
    (origin_nonempty hsizes hfull hranges).image _
  have himage := image_betweenBounds hsizes hfull hranges hdims
  have hbetween : ∀ x ∈ valuesOn expr (tilePoints ranges sizes fun _ => 0), ∃ q,
      BetweenBounds (lowerBounds (resolveTileSizes sizes ranges))
        (upperBounds (resolveTileSizes sizes ranges)) q ∧ expr.eval q = x := by
    intro x hx
    have hx' : x ∈ (valuesOn expr (tilePoints ranges sizes fun _ => 0) : Set Int) := hx
    rwa [← himage] at hx'
  -- without bounds the factor is the whole extent
  have hwhole : span (valuesOn expr (tilePoints ranges sizes fun _ => 0)) ≤ extent := by
    have := span_le (fun x hx => ⟨(hin x hx).1, Int.le_sub_one_of_lt (hin x hx).2⟩)
      (show 0 ≤ extent - 1 + 1 by omega)
    omega
  unfold linalgFactor
  split
  next lb ub hlb hub =>
    have hall : ∀ x ∈ valuesOn expr (tilePoints ranges sizes fun _ => 0), lb ≤ x ∧ x ≤ ub := by
      intro x hx
      obtain ⟨q, hq, rfl⟩ := hbetween x hx
      exact ⟨hsound.lower _ _ _ _ hlb q hq, hsound.upper _ _ _ _ hub q hq⟩
    obtain ⟨x, hx⟩ := hne
    have hx := hall x hx
    exact span_le hall (by omega)
  next => exact hwhole

end Origin

/-! ### Maps without divisions -/

section Linear

variable {ranges sizes : List Int}

/-- The first iteration of a tile. -/
def tileOrigin (ranges sizes : List Int) (k : Nat → Nat) (i : Fin ranges.length) : Int :=
  if sizes.getD i 0 = 0 then 0 else k i * sizes.getD i 0

/-- Every tile is, moved to the origin, part of the tile there. -/
theorem sub_tileOrigin_mem (hsizes : TileSizes ranges sizes) {k : Nat → Nat}
    {p : Fin ranges.length → Int} (hp : p ∈ tilePoints ranges sizes k) :
    (fun i => p i - tileOrigin ranges sizes k i) ∈ tilePoints ranges sizes fun _ => 0 := by
  rw [mem_origin hsizes]
  intro i
  have hmem := mem_tilePoints.mp hp i
  rw [getD_resolveTileSizes hsizes.length_eq]
  unfold tileOrigin
  unfold tileIndices at hmem
  split
  next hzero =>
    rw [if_pos hzero] at hmem
    rw [sub_zero]
    exact mem_indexRange.mp hmem
  next hne =>
    rw [if_neg hne, mem_indexRange, lt_min_iff] at hmem
    omega

/-- **Along one dimension** no tile spans more than the tile at the origin. -/
theorem span_le_origin (hsizes : TileSizes ranges sizes) {expr : AffineExpr}
    (hlinear : expr.isLinear = true) {k : Nat → Nat} (hne : (tilePoints ranges sizes k).Nonempty) :
    span (valuesOn expr (tilePoints ranges sizes k))
      ≤ span (valuesOn expr (tilePoints ranges sizes fun _ => 0)) := by
  have horigin : (valuesOn expr (tilePoints ranges sizes fun _ => 0)).Nonempty := by
    obtain ⟨p, hp⟩ := hne
    exact ⟨_, Finset.mem_image_of_mem _ (sub_tileOrigin_mem hsizes hp)⟩
  -- in a linear expression, moving the tile adds a constant
  have hshift : ∀ p ∈ tilePoints ranges sizes k, expr.eval (atPoint p)
      = expr.eval (atPoint fun i => p i - tileOrigin ranges sizes k i)
        + (expr.eval (atPoint (tileOrigin ranges sizes k)) - expr.eval fun _ => 0) := by
    intro p _
    rw [← AffineExpr.eval_shift hlinear]
    congr 1
    funext i
    simp only [atPoint]
    split <;> ring
  rw [span.eq_1 (valuesOn expr (tilePoints ranges sizes fun _ => 0)), dif_pos horigin]
  generalize expr.eval (atPoint (tileOrigin ranges sizes k)) - expr.eval (fun _ => 0) = c at hshift
  have hbetween : ∀ x ∈ valuesOn expr (tilePoints ranges sizes k),
      (valuesOn expr (tilePoints ranges sizes fun _ => 0)).min' horigin + c ≤ x ∧
        x ≤ (valuesOn expr (tilePoints ranges sizes fun _ => 0)).max' horigin + c := by
    intro x hx
    obtain ⟨p, hp, rfl⟩ := Finset.mem_image.mp hx
    have hmem := Finset.mem_image_of_mem (fun p => expr.eval (atPoint p))
      (sub_tileOrigin_mem hsizes hp)
    have hmin := Finset.min'_le _ _ hmem
    have hmax := Finset.le_max' _ _ hmem
    rw [hshift p hp]
    exact ⟨Int.add_le_add_right hmin c, Int.add_le_add_right hmax c⟩
  have hle := (valuesOn expr (tilePoints ranges sizes fun _ => 0)).min'_le_max' horigin
  have hspan := span_le hbetween (by omega)
  omega

/-- A map without divisions spans no more elements in any tile than in the tile at the origin. -/
theorem spanned_le_origin (hsizes : TileSizes ranges sizes) {map : AffineMap}
    (hlinear : ∀ expr ∈ map, expr.isLinear = true) (k : Nat → Nat) :
    spanned map (tilePoints ranges sizes k)
      ≤ spanned map (tilePoints ranges sizes fun _ => 0) := by
  by_cases hne : (tilePoints ranges sizes k).Nonempty
  · have horigin : (tilePoints ranges sizes fun _ => 0).Nonempty := by
      obtain ⟨p, hp⟩ := hne
      exact ⟨_, sub_tileOrigin_mem hsizes hp⟩
    rw [spanned, spanned, if_pos hne, if_pos horigin, ← numElements_eq_prod, ← numElements_eq_prod]
    exact (numElements_mono (factorsLE_map map fun expr hexpr =>
      ⟨span_nonneg _, span_le_origin hsizes (hlinear expr hexpr) hne⟩)).2
  · rw [spanned, if_neg hne]
    exact spanned_nonneg _ _

end Linear

/-! ### The estimate -/

section Bound

variable {op : LinalgOp} {operand : LinalgOperand} {type : TensorType} {bits : Int}
  {sizes : List Int} {getBound : BoundFn}

/-- A factor that may have wrapped around. -/
theorem toInt64_linalgFactor (sizes : List Int) (expr : AffineExpr) (extent : Int) :
    toInt64 (linalgFactor toInt64 getBound sizes expr extent)
      = toInt64 (linalgFactor id getBound sizes expr extent) := by
  unfold linalgFactor
  split
  next lb ub _ _ =>
    have hself := toInt64_mul (toInt64 (ub - lb) + 1) 1
    rw [mul_one, mul_one] at hself
    rw [hself, toInt64_add]
    rfl
  next => rfl

/-- The estimate of a tensor operand: the bytes of the box, wrapped around. -/
theorem linalgFootprint_eq (h : OperandVerified op operand type)
    (hsizes : TileSizes op.getStaticLoopRanges sizes)
    (hbits : type.elementType.getIntOrFloatBitWidth = .ok bits) :
    estimateLinalgOperandFootprint toInt64 getBound op sizes operand = .ok
      (toInt64 (boundedElements getBound op operand type sizes * (bits / 8))) := by
  have hproduct := toInt64_numElements (l := operand.indexingMap.zipIdx)
    (f := fun (expr, i) => linalgFactor toInt64 getBound
      (resolveTileSizes sizes op.getStaticLoopRanges) expr (type.shape.getD i 0))
    (g := fun (expr, i) => linalgFactor id getBound
      (resolveTileSizes sizes op.getStaticLoopRanges) expr (type.shape.getD i 0))
    (fun _ _ => toInt64_linalgFactor _ _ _) (bits / 8)
  unfold estimateLinalgOperandFootprint
  rw [h.type_eq]
  simp only [elementBytes_eq hbits, ok_bind, hsizes.length_eq, ne_eq, not_true_eq_false, if_false,
    pure_eq_ok]
  rw [hproduct, boundedElements]

/-- A function of the results of a map, position by position. -/
theorem map_zipIdx_fst {α β : Type} (l : List α) (f : α → β) :
    (l.zipIdx.map fun x => f x.1) = l.map f := by
  rw [← Function.comp_def, ← List.map_map, List.zipIdx_map_fst]

theorem OperandVerified.extent_nonneg (h : OperandVerified op operand type) (i : Nat) :
    0 ≤ type.shape.getD i 0 := by
  by_cases hi : i < type.shape.length
  · rw [List.getD_eq_getElem _ _ hi]
    exact h.static_shape _ (List.getElem_mem hi)
  · rw [List.getD_eq_default _ _ (by omega)]

/-- The estimate covers the tile at the origin. -/
theorem spanned_origin_le (h : OperandVerified op operand type)
    (hsizes : TileSizes op.getStaticLoopRanges sizes) (hfull : 0 ∉ op.getStaticLoopRanges)
    (hsound : SoundBound getBound) :
    spanned operand.indexingMap (tilePoints op.getStaticLoopRanges sizes fun _ => 0)
      ≤ boundedElements getBound op operand type sizes := by
  rw [boundedElements, spanned, if_pos (origin_nonempty hsizes hfull h.static_ranges), ← map_zipIdx_fst,
    ← numElements_eq_prod, ← numElements_eq_prod]
  refine (numElements_mono (factorsLE_map _ fun ⟨expr, i⟩ hmem => ⟨span_nonneg _, ?_⟩)).2
  refine span_le_linalgFactor hsizes hfull h.static_ranges hsound
    (h.dims expr (List.fst_mem_of_mem_zipIdx hmem)) (h.extent_nonneg i) fun x hx => ?_
  obtain ⟨p, hp, rfl⟩ := Finset.mem_image.mp hx
  refine h.in_bounds p (fun j => ?_) i expr (List.mem_zipIdx_iff_getElem?.mp hmem)
  obtain ⟨hlo, hhi⟩ := mem_tileIndices (hsizes.nonneg j) (mem_tilePoints.mp hp j)
  exact ⟨hlo, hhi⟩

/-- With the best bounds, the estimate is exact for the tile at the origin. -/
theorem spanned_origin_eq (h : OperandVerified op operand type)
    (hsizes : TileSizes op.getStaticLoopRanges sizes) (hfull : 0 ∉ op.getStaticLoopRanges) :
    boundedElements exactBound op operand type sizes
      = spanned operand.indexingMap (tilePoints op.getStaticLoopRanges sizes fun _ => 0) := by
  rw [boundedElements, spanned, if_pos (origin_nonempty hsizes hfull h.static_ranges),
    ← map_zipIdx_fst operand.indexingMap]
  congr 1
  refine List.map_congr_left fun ⟨expr, i⟩ hmem => ?_
  exact linalgFactor_exact hsizes hfull h.static_ranges
    (h.dims expr (List.fst_mem_of_mem_zipIdx hmem)) _

/-- Without iterations no tile has any. -/
theorem tilePoints_of_empty {ranges : List Int} (hsizes : TileSizes ranges sizes) (hempty : 0 ∈ ranges)
    (k : Nat → Nat) : ¬ (tilePoints ranges sizes k).Nonempty := by
  obtain ⟨i, hi, hzero⟩ := List.getElem_of_mem hempty
  rintro ⟨p, hp⟩
  have hmem := mem_tilePoints.mp hp ⟨i, hi⟩
  rw [List.getD_eq_getElem _ _ hi, hzero, tileIndices_of_empty (hsizes.nonneg i)] at hmem
  exact absurd hmem (Finset.notMem_empty _)

end Bound

/-! ### A strided convolution -/

/-- `out[d0] += image[d0 * 2 + d1] * filter[d1]`. -/
def stridedConv (type : ElementType) : LinalgOp where
  kind := .generic false false
  iteratorTypes := [.parallel, .reduction]
  dpsInputs := [⟨.tensor ⟨[17], type⟩, [.add (.mul (.dim 0) (.const 2)) (.dim 1)]⟩,
    ⟨.tensor ⟨[3], type⟩, [.dim 1]⟩]
  dpsInits := [⟨.tensor ⟨[8], type⟩, [.dim 0]⟩]

/-- The image of the convolution. -/
def stridedImage (type : ElementType) : LinalgOperand :=
  ⟨.tensor ⟨[17], type⟩, [.add (.mul (.dim 0) (.const 2)) (.dim 1)]⟩

theorem stridedImage_verified (type : ElementType) :
    OperandVerified (stridedConv type) (stridedImage type) ⟨[17], type⟩ where
  type_eq := rfl
  static_ranges := show ∀ range ∈ [8, 3], (0 : Int) ≤ range by decide
  static_shape := show ∀ extent ∈ [17], (0 : Int) ≤ extent by decide
  dims := by
    intro expr hexpr d hd
    obtain rfl := List.mem_singleton.mp hexpr
    have hlt : d < 2 := by
      simp only [AffineExpr.isFunctionOfDim, Bool.or_false, Bool.or_eq_true, beq_iff_eq] at hd
      omega
    exact hlt
  in_bounds := by
    intro p hp j expr hj
    -- coordinates as plain integers, for `omega`
    obtain ⟨row, hrow⟩ : ∃ x, x = p ⟨0, show 0 < 2 by decide⟩ := ⟨_, rfl⟩
    obtain ⟨col, hcol⟩ : ∃ x, x = p ⟨1, show 1 < 2 by decide⟩ := ⟨_, rfl⟩
    have hrows : 0 ≤ row ∧ row < 8 := hrow ▸ hp ⟨0, show 0 < 2 by decide⟩
    have hcols : 0 ≤ col ∧ col < 3 := hcol ▸ hp ⟨1, show 1 < 2 by decide⟩
    match j with
    | 0 =>
      obtain rfl := Option.some.inj hj
      have hvalue : (AffineExpr.add (.mul (.dim 0) (.const 2)) (.dim 1)).eval (atPoint p)
          = row * 2 + col := by
        rw [hrow, hcol]
        rfl
      rw [hvalue]
      exact ⟨by omega, show row * 2 + col < 17 by omega⟩
    | _ + 1 => cases hj

/-- Tiles of four outputs. -/
theorem stridedConv_sizes (type : ElementType) :
    TileSizes (stridedConv type).getStaticLoopRanges [4, 0] where
  length_eq := rfl
  size := by
    intro i hi
    have hi : i < 2 := hi
    match i, hi with
    | 0, _ => exact Or.inr ⟨by decide, show (4 : Int) ≤ 8 by decide⟩
    | 1, _ => exact Or.inl rfl

/-- The tile at the origin, iteration by iteration. -/
theorem stridedConv_spanned_le (type : ElementType) :
    spanned (stridedImage type).indexingMap
      (tilePoints (stridedConv type).getStaticLoopRanges [4, 0] fun _ => 0) ≤ 17 := by
  rw [spanned, if_pos (origin_nonempty (stridedConv_sizes type)
    (show (0 : Int) ∉ [8, 3] by decide) (stridedImage_verified type).static_ranges)]
  rw [show (stridedImage type).indexingMap = [.add (.mul (.dim 0) (.const 2)) (.dim 1)] from rfl,
    List.map_singleton, List.prod_singleton]
  refine @span_le _ 0 16 (fun x hx => ?_) (by decide)
  obtain ⟨p, hp, rfl⟩ := Finset.mem_image.mp hx
  obtain ⟨hlo, hhi⟩ := (stridedImage_verified type).in_bounds p
    (fun i => mem_tileIndices ((stridedConv_sizes type).nonneg i) (mem_tilePoints.mp hp i)) 0 _ rfl
  exact ⟨hlo, Int.le_of_lt_add_one hhi⟩

end CoralNPU.Tiling
