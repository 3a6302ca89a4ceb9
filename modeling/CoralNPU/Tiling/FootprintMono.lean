import CoralNPU.Lib.Except
import CoralNPU.Tiling.Classify
import CoralNPU.Tiling.Footprint
import Mathlib.Data.List.GetD
import Mathlib.Order.Bounds.Basic
import Mathlib.Algebra.Order.Ring.Int
import Mathlib.Tactic.Linarith

namespace CoralNPU.Tiling

open Lib

/-!
# Tiling — the footprint estimate is monotone

With unbounded arithmetic and exact affine bounds, a tile that is at least as long in
every loop has at least as large an estimate, and the estimate is defined for both tiles
or for neither (`estimateFootprint_mono`).  The argument follows the estimate: every
factor is non-negative and monotone, hence so are the products and their sum.

* `ExactBound` — what the results assume of `getBoundForAffineExpr`: it returns the least
  and the greatest value of the expression over the iteration box.
* `TileLE` — the order on tiles whose loops are all at least 1 long.
* `FootprintLE` — the order on estimates; two undefined estimates fail alike.
-/

/-! ### Iteration boxes and exact bounds -/

/-- The iteration points of a tile: each loop runs from 0 to its size. -/
def box (sizes : List Int) : Set (Nat → Int) :=
  {p | ∀ i, 0 ≤ p i ∧ p i < sizes.getD i 1}

/-- `getBoundForAffineExpr` is exact on `expr`: over any box of non-empty loops, one size
    per loop, it returns the least and the greatest value of the expression. -/
structure ExactBound (getBound : BoundFn) (numLoops : Nat) (expr : AffineExpr) : Prop where
  lower : ∀ sizes : List Int, sizes.length = numLoops → (∀ s ∈ sizes, 1 ≤ s) →
    ∃ lb, getBound expr (lowerBounds sizes) (upperBounds sizes) false = some lb
      ∧ IsLeast (Set.image expr.eval (box sizes)) lb
  upper : ∀ sizes : List Int, sizes.length = numLoops → (∀ s ∈ sizes, 1 ≤ s) →
    ∃ ub, getBound expr (lowerBounds sizes) (upperBounds sizes) true = some ub
      ∧ IsGreatest (Set.image expr.eval (box sizes)) ub

/-- Every indexing map of a `linalg` root operation has exact bounds. -/
def ExactBounds (getBound : BoundFn) (root : RootOp) : Prop :=
  ∀ op, root.op = .linalg op → ∀ operand ∈ op.operands, ∀ expr ∈ operand.indexingMap,
    ExactBound getBound op.iteratorTypes.length expr

/-- Tiles of the same rank, at least 1 long in every loop, the second at least as long. -/
structure TileLE (t t' : List Int) : Prop where
  length_eq : t.length = t'.length
  one_le : ∀ i, i < t.length → 1 ≤ t.getD i 0
  le : ∀ i, i < t.length → t.getD i 0 ≤ t'.getD i 0

namespace TileLE

/-- The entries of the larger tile are positive, by position. -/
theorem one_le_right {t t' : List Int} (h : TileLE t t') (i : Nat) (hi : i < t'.length) :
    1 ≤ t'.getD i 0 := by
  rw [← h.length_eq] at hi
  exact (h.one_le i hi).trans (h.le i hi)

/-- The entries of the smaller tile are positive. -/
theorem mem_left {t t' : List Int} (h : TileLE t t') : ∀ s ∈ t, 1 ≤ s := by
  intro s hs
  obtain ⟨i, hi, rfl⟩ := List.getElem_of_mem hs
  have := h.one_le i hi
  rwa [List.getD_eq_getElem _ _ hi] at this

/-- So are those of the larger. -/
theorem mem_right {t t' : List Int} (h : TileLE t t') : ∀ s ∈ t', 1 ≤ s := by
  intro s hs
  obtain ⟨i, hi, rfl⟩ := List.getElem_of_mem hs
  have := h.one_le_right i hi
  rwa [List.getD_eq_getElem _ _ hi] at this

/-- The smaller tile's box lies in the larger tile's box. -/
theorem box_subset {t t' : List Int} (h : TileLE t t') : box t ⊆ box t' := by
  intro p hp i
  obtain ⟨hlo, hhi⟩ := hp i
  refine ⟨hlo, ?_⟩
  by_cases hi : i < t.length
  · have hle := h.le i hi
    rw [List.getD_eq_getElem _ _ hi] at hhi hle
    have hi' : i < t'.length := h.length_eq ▸ hi
    rw [List.getD_eq_getElem _ _ hi'] at hle ⊢
    omega
  · rw [List.getD_eq_default _ _ (by omega)] at hhi
    rw [List.getD_eq_default _ _ (by rw [← h.length_eq]; omega)]
    exact hhi

end TileLE

/-- Sizes that are all given stand for themselves. -/
theorem resolveTileSizes_of_pos {t ranges : List Int} (hlen : t.length = ranges.length)
    (hpos : ∀ s ∈ t, 1 ≤ s) : resolveTileSizes t ranges = t := by
  unfold resolveTileSizes
  induction t generalizing ranges with
  | nil => simp
  | cons s t ih =>
    cases ranges with
    | nil => simp at hlen
    | cons r ranges =>
      have hs : s ≠ 0 := by have := hpos s (by simp); omega
      rw [List.zipWith_cons_cons, if_neg hs,
        ih (by simpa using hlen) fun s' hs' => hpos s' (by simp [hs'])]

/-! ### The order on estimates -/

/-- Defined estimates compare by value; undefined ones fail with the same error. -/
inductive FootprintLE : Except Failure Int → Except Failure Int → Prop
  | ok {a b : Int} (h : a ≤ b) : FootprintLE (.ok a) (.ok b)
  | error (e : Failure) : FootprintLE (.error e) (.error e)

/-- An estimate is no larger than itself. -/
theorem FootprintLE.refl (x : Except Failure Int) : FootprintLE x x := by
  cases x with
  | error e => exact .error e
  | ok a => exact .ok (le_refl a)

/-- Non-negative factors, compared one by one. -/
abbrev FactorsLE : List Int → List Int → Prop := List.Forall₂ fun a b => 0 ≤ a ∧ a ≤ b

/-- The loop that multiplies: larger factors, larger product. -/
theorem foldl_mul_mono {fs gs : List Int} (h : FactorsLE fs gs) :
    ∀ {a b : Int}, 0 ≤ a → a ≤ b →
      0 ≤ fs.foldl (· * ·) a ∧ fs.foldl (· * ·) a ≤ gs.foldl (· * ·) b := by
  induction h with
  | nil => intro a b ha hab; exact ⟨ha, hab⟩
  | cons hfg _ ih =>
    intro a b ha hab
    exact ih (mul_nonneg ha hfg.1) (mul_le_mul hab hfg.2 hfg.1 (ha.trans hab))

/-- The number of elements grows with the factors. -/
theorem numElements_mono {fs gs : List Int} (h : FactorsLE fs gs) :
    0 ≤ numElements id fs ∧ numElements id fs ≤ numElements id gs :=
  foldl_mul_mono h (by norm_num) (le_refl 1)

/-- No element has a negative number of bytes. -/
theorem elementBytes_nonneg {type : ElementType} {bytes : Int}
    (h : elementBytes type = .ok bytes) : 0 ≤ bytes := by
  unfold elementBytes ElementType.getIntOrFloatBitWidth at h
  cases type with
  | integer w =>
    simp only [bind, Except.bind, pure, Except.pure, Except.ok.injEq] at h
    rw [← h]
    exact Int.tdiv_nonneg (Int.natCast_nonneg w) (by norm_num)
  | index => cases h
  | _ => cases h; decide

/-- Operands of one element type compare as their factors do. -/
theorem operandBytes_mono (type : ValueType) {f g : TensorType → List Int}
    (h : ∀ t, type = .tensor t → FactorsLE (f t) (g t)) :
    FootprintLE (operandBytes id type f) (operandBytes id type g) := by
  cases type with
  | scalar e => exact .refl _
  | tensor t =>
    simp only [operandBytes]
    cases hb : elementBytes t.elementType with
    | error e => exact .error e
    | ok bytes =>
      rw [ok_bind, ok_bind]
      exact .ok (mul_le_mul_of_nonneg_right (numElements_mono (h t rfl)).2
        (elementBytes_nonneg hb))

/-- Footprints compare operand by operand. -/
theorem foldlM_footprint_mono {xs ys : List (Except Failure Int)}
    (h : List.Forall₂ FootprintLE xs ys) : ∀ {a b : Int}, a ≤ b →
      FootprintLE
        (xs.foldlM (fun total footprint => do return id (total + (← footprint))) a)
        (ys.foldlM (fun total footprint => do return id (total + (← footprint))) b) := by
  induction h with
  | nil => intro a b hab; exact .ok hab
  | cons hxy _ ih =>
    intro a b hab
    cases hxy with
    | error e => exact .error e
    | ok hle => exact ih (add_le_add hab hle)

/-! ### Factors -/

/-- A factor list given by a function of the index compares index by index. -/
theorem factorsLE_map {α : Type} (l : List α) {f g : α → Int}
    (h : ∀ x ∈ l, 0 ≤ f x ∧ f x ≤ g x) : FactorsLE (l.map f) (l.map g) := by
  rw [FactorsLE, List.forall₂_map_left_iff, List.forall₂_map_right_iff]
  exact List.forall₂_same.mpr h

/-- Non-negative factors compare with themselves. -/
theorem factorsLE_refl {fs : List Int} (h : ∀ f ∈ fs, 0 ≤ f) : FactorsLE fs fs :=
  List.forall₂_same.mpr fun f hf => ⟨h f hf, le_refl f⟩

/-- Outer and inner factors, one after the other. -/
theorem factorsLE_append {fs gs fs' gs' : List Int} (h : FactorsLE fs gs)
    (h' : FactorsLE fs' gs') : FactorsLE (fs ++ fs') (gs ++ gs') :=
  List.rel_append h h'

/-- **A `linalg` factor** is the exact span of the expression, which grows with the box. -/
theorem linalgFactor_mono {getBound : BoundFn} {expr : AffineExpr}
    {t t' : List Int} (hexact : ExactBound getBound t.length expr) (ht : TileLE t t')
    (extent : Int) :
    0 ≤ linalgFactor id getBound t expr extent
      ∧ linalgFactor id getBound t expr extent ≤ linalgFactor id getBound t' expr extent := by
  obtain ⟨lb, hlb, hleast⟩ := hexact.lower t rfl ht.mem_left
  obtain ⟨ub, hub, hgreatest⟩ := hexact.upper t rfl ht.mem_left
  obtain ⟨lb', hlb', hleast'⟩ := hexact.lower t' ht.length_eq.symm ht.mem_right
  obtain ⟨ub', hub', hgreatest'⟩ := hexact.upper t' ht.length_eq.symm ht.mem_right
  have hspan : lb ≤ ub := hleast.2 hgreatest.1
  have hsub := Set.image_mono (f := expr.eval) ht.box_subset
  have hlo : lb' ≤ lb := hleast'.2 (hsub hleast.1)
  have hhi : ub ≤ ub' := hgreatest'.2 (hsub hgreatest.1)
  simp only [linalgFactor, hlb, hub, hlb', hub', id]
  omega

/-- An inner tile, or the 1 that stands for none, is positive. -/
theorem innerTileSize_pos (innerDimsPos : List Nat) {mixedTiles : List (Option Int)}
    (h : ∀ tile ∈ mixedTiles, ∀ size ∈ tile, 1 ≤ size) (dim : Nat) :
    1 ≤ innerTileSize innerDimsPos mixedTiles dim := by
  unfold innerTileSize
  split
  · cases htile : mixedTiles[innerDimsPos.idxOf dim]? with
    | none => simp
    | some tile =>
      cases tile with
      | none => simp
      | some size => exact h _ (List.mem_of_getElem? htile) size rfl
  · exact le_refl 1

/-- The extent of a tile along a dimension grows with its size. -/
theorem tiledExtent_mono {extent s s' : Int} (hext : 0 ≤ extent) (hs : 1 ≤ s) (hss : s ≤ s') :
    0 ≤ tiledExtent extent s ∧ tiledExtent extent s ≤ tiledExtent extent s' := by
  unfold tiledExtent
  rw [if_neg (by omega), if_neg (by omega)]
  exact ⟨le_min hext (by omega), min_le_min_left extent hss⟩

/-- The operands of the root operation have static extents. -/
def RootOp.operandTypes (root : RootOp) : List ValueType :=
  match root.op with
  | .linalg op => op.operands.map (·.type)
  | .pack op => op.source :: op.dest :: op.otherOperands
  | .unpack op => op.source :: op.dest :: op.otherOperands
  | .other op => op.operands

/-- Every operand has a static shape: no extent is `kDynamic`, which is negative. -/
def RootOp.HasStaticShapes (root : RootOp) : Prop :=
  ∀ type ∈ root.operandTypes, ∀ extent ∈ type.shape, 0 ≤ extent

/-- No extent of a shape is negative, by position. -/
theorem getD_shape_nonneg {shape : List Int} (h : ∀ extent ∈ shape, 0 ≤ extent) (i : Nat) :
    0 ≤ shape.getD i 0 := by
  by_cases hi : i < shape.length
  · rw [List.getD_eq_getElem _ _ hi]; exact h _ (List.getElem_mem hi)
  · rw [List.getD_eq_default _ _ (by omega)]

/-- The factor of a dimension of the source of a pack. -/
theorem packSourceFactor_mono {op : PackOp} {shape : List Int}
    (hshape : ∀ extent ∈ shape, 0 ≤ extent) {t t' : List Int} (ht : TileLE t t') {l : Nat}
    (hl : l < t.length) :
    0 ≤ packSourceFactor id op shape t l
      ∧ packSourceFactor id op shape t l ≤ packSourceFactor id op shape t' l := by
  have h1 := ht.one_le l hl
  have h2 := ht.le l hl
  have hinner := innerTileSize_pos op.innerDimsPos op.innerTile_pos (permutedDim op.outerDimsPerm l)
  have hext := getD_shape_nonneg hshape (permutedDim op.outerDimsPerm l)
  simp only [packSourceFactor, id]
  rw [if_neg (by omega), if_neg (by omega)]
  refine ⟨le_min hext (mul_nonneg (by omega) (by omega)), min_le_min_left _ ?_⟩
  exact mul_le_mul_of_nonneg_right h2 (by omega)

/-- The factor of a dimension of the source of an unpack. -/
theorem unpackSourceFactor_mono {op : UnPackOp} {shape : List Int}
    (hshape : ∀ extent ∈ shape, 0 ≤ extent) {t t' : List Int} (ht : TileLE t t') {l : Nat}
    (hl : l < t.length) :
    0 ≤ unpackSourceFactor id op shape t l
      ∧ unpackSourceFactor id op shape t l ≤ unpackSourceFactor id op shape t' l := by
  have h1 := ht.one_le l hl
  have h2 := ht.le l hl
  have hinner := innerTileSize_pos op.innerDimsPos op.innerTile_pos (permutedDim op.outerDimsPerm l)
  have hext := getD_shape_nonneg hshape (permutedDim op.outerDimsPerm l)
  simp only [unpackSourceFactor, id]
  rw [if_neg (by omega), if_neg (by omega), Int.tdiv_eq_ediv_of_nonneg (by omega),
    Int.tdiv_eq_ediv_of_nonneg (by omega)]
  refine ⟨le_min hext (Int.ediv_nonneg (by omega) (by omega)), min_le_min_left _ ?_⟩
  exact Int.ediv_le_ediv (by omega) (by omega)

/-! ### Operands -/

/-- For a tile with one size per loop the check of `estimateLinalgOperandFootprint`
    passes, and a fully tiled domain resolves to the tile itself. -/
theorem estimateLinalgOperandFootprint_eq (normalize : Int → Int) (getBound : BoundFn)
    {op : LinalgOp} {t : List Int} (hlen : t.length = op.getStaticLoopRanges.length)
    (hpos : ∀ s ∈ t, 1 ≤ s) (operand : LinalgOperand) :
    estimateLinalgOperandFootprint normalize getBound op t operand
      = operandBytes normalize operand.type fun type =>
          operand.indexingMap.zipIdx.map fun (expr, i) =>
            linalgFactor normalize getBound t expr (type.shape.getD i 0) := by
  unfold estimateLinalgOperandFootprint
  cases operand.type with
  | scalar e => rfl
  | tensor type =>
    simp only [operandBytes, hlen, ne_eq, not_true_eq_false, if_false,
      resolveTileSizes_of_pos hlen hpos]

/-- An operand of a linalg operation, with bounds that grow with the tile. -/
theorem estimateLinalgOperandFootprint_mono {getBound : BoundFn} {op : LinalgOp}
    {operand : LinalgOperand}
    (hexact : ∀ expr ∈ operand.indexingMap, ExactBound getBound op.iteratorTypes.length expr)
    {t t' : List Int} (ht : TileLE t t') (hlen : t.length = op.getStaticLoopRanges.length) :
    FootprintLE (estimateLinalgOperandFootprint id getBound op t operand)
      (estimateLinalgOperandFootprint id getBound op t' operand) := by
  rw [estimateLinalgOperandFootprint_eq id getBound hlen ht.mem_left,
    estimateLinalgOperandFootprint_eq id getBound (ht.length_eq ▸ hlen) ht.mem_right]
  refine operandBytes_mono _ fun type _ => factorsLE_map _ fun ⟨expr, i⟩ hmem => ?_
  have hrank : t.length = op.iteratorTypes.length := by
    rw [hlen]; simp [LinalgOp.getStaticLoopRanges]
  exact linalgFactor_mono (hrank ▸ hexact expr (List.fst_mem_of_mem_zipIdx hmem)) ht _

/-- The source of a pack. -/
theorem estimatePackSourceFootprint_mono {op : PackOp}
    (hshape : ∀ extent ∈ op.source.shape, 0 ≤ extent) {t t' : List Int} (ht : TileLE t t') :
    FootprintLE (estimatePackSourceFootprint id op t) (estimatePackSourceFootprint id op t') := by
  refine operandBytes_mono _ fun type htype => ?_
  rw [htype] at hshape
  rw [← ht.length_eq]
  exact factorsLE_map _ fun l hl => packSourceFactor_mono hshape ht (List.mem_range.mp hl)

/-- The destination of a pack. -/
theorem estimatePackDestFootprint_mono {op : PackOp}
    (hshape : ∀ extent ∈ op.dest.shape, 0 ≤ extent) {t t' : List Int} (ht : TileLE t t') :
    FootprintLE (estimatePackDestFootprint id op t) (estimatePackDestFootprint id op t') := by
  refine operandBytes_mono _ fun type htype => ?_
  rw [htype] at hshape
  rw [← ht.length_eq]
  refine factorsLE_append (factorsLE_map _ fun l hl => ?_)
    (factorsLE_refl fun f hf => hshape f (List.mem_of_mem_drop hf))
  have hlt := List.mem_range.mp hl
  exact tiledExtent_mono (getD_shape_nonneg hshape l) (ht.one_le l hlt) (ht.le l hlt)

/-- The source of an unpack. -/
theorem estimateUnpackSourceFootprint_mono {op : UnPackOp}
    (hshape : ∀ extent ∈ op.source.shape, 0 ≤ extent) {t t' : List Int} (ht : TileLE t t') :
    FootprintLE (estimateUnpackSourceFootprint id op t)
      (estimateUnpackSourceFootprint id op t') := by
  refine operandBytes_mono _ fun type htype => ?_
  rw [htype] at hshape
  rw [← ht.length_eq]
  refine factorsLE_append (factorsLE_map _ fun l hl => ?_)
    (factorsLE_refl fun f hf => hshape f (List.mem_of_mem_drop hf))
  exact unpackSourceFactor_mono hshape ht (List.mem_range.mp hl)

/-- The destination of an unpack. -/
theorem estimateUnpackDestFootprint_mono {op : UnPackOp}
    (hshape : ∀ extent ∈ op.dest.shape, 0 ≤ extent) {t t' : List Int} (ht : TileLE t t')
    (hrank : op.dest.shape.length = t.length) :
    FootprintLE (estimateUnpackDestFootprint id op t) (estimateUnpackDestFootprint id op t') := by
  refine operandBytes_mono _ fun type htype => ?_
  rw [htype] at hshape hrank
  refine factorsLE_map _ fun i hi => ?_
  have hlt : i < t.length := hrank ▸ List.mem_range.mp hi
  exact tiledExtent_mono (getD_shape_nonneg hshape i) (ht.one_le i hlt) (ht.le i hlt)

/-- An operand of another operation. -/
theorem estimateOtherFootprint_mono {type : ValueType}
    (hshape : ∀ extent ∈ type.shape, 0 ≤ extent) {t t' : List Int} (ht : TileLE t t') :
    FootprintLE (estimateOtherFootprint id t type) (estimateOtherFootprint id t' type) := by
  refine operandBytes_mono _ fun tensor htype => ?_
  rw [htype] at hshape
  have hstatic : ∀ extent ∈ tensor.shape, staticExtent extent = extent := by
    intro extent hmem
    have hnn := hshape extent hmem
    unfold staticExtent
    rw [if_neg (by unfold kDynamic; omega)]
  rw [← ht.length_eq]
  split
  · rename_i hrank
    refine factorsLE_map _ fun ⟨extent, i⟩ hmem => ?_
    have hext := hshape extent (List.fst_mem_of_mem_zipIdx hmem)
    have hlt : i < t.length := by
      rw [← hrank]; exact List.snd_lt_of_mem_zipIdx hmem
    have h1 := ht.one_le i hlt
    have h2 := ht.le i hlt
    have hdyn : extent ≠ kDynamic := by unfold kDynamic; omega
    have hsize : ¬ (t.getD i 0 = 0 ∨ extent = kDynamic) := by
      rintro (h | h)
      · omega
      · exact hdyn h
    have hsize' : ¬ (t'.getD i 0 = 0 ∨ extent = kDynamic) := by
      rintro (h | h)
      · omega
      · exact hdyn h
    simp only [if_neg hsize, if_neg hsize']
    exact ⟨le_min hext (by omega), min_le_min_left extent h2⟩
  · refine factorsLE_refl fun f hf => ?_
    obtain ⟨extent, hmem, rfl⟩ := List.mem_map.mp hf
    rw [hstatic extent hmem]
    exact hshape extent hmem

/-- The untiled operands do not depend on the tile. -/
private theorem forall₂_whole (types : List ValueType) :
    List.Forall₂ FootprintLE (types.map (estimateWholeFootprint id))
      (types.map (estimateWholeFootprint id)) :=
  List.forall₂_same.mpr fun x _ => FootprintLE.refl x

/-- **The estimate is monotone** in the tile, and defined for both tiles or for neither. -/
theorem estimateFootprint_mono {getBound : BoundFn} {root : RootOp}
    (hexact : ExactBounds getBound root) (hstatic : root.HasStaticShapes) {t t' : List Int}
    (ht : TileLE t t') (hrank : t.length = root.getStaticLoopRanges.length) :
    FootprintLE (estimateFootprint id getBound root t) (estimateFootprint id getBound root t') := by
  refine foldlM_footprint_mono ?_ (le_refl 0)
  unfold operandFootprints
  unfold RootOp.HasStaticShapes RootOp.operandTypes at hstatic
  cases hop : root.op with
  | linalg op =>
    have hlen : t.length = op.getStaticLoopRanges.length := by
      rw [hrank]; simp only [RootOp.getStaticLoopRanges, hop]
    rw [List.forall₂_map_left_iff, List.forall₂_map_right_iff]
    exact List.forall₂_same.mpr fun operand hmem =>
      estimateLinalgOperandFootprint_mono (hexact op hop operand hmem) ht hlen
  | pack op =>
    rw [hop] at hstatic
    exact .cons (estimatePackSourceFootprint_mono (hstatic _ (by simp)) ht)
      (.cons (estimatePackDestFootprint_mono (hstatic _ (by simp)) ht) (forall₂_whole _))
  | unpack op =>
    rw [hop] at hstatic
    have hdest : op.dest.shape.length = t.length := by
      rw [hrank]; simp only [RootOp.getStaticLoopRanges, hop]
    exact .cons (estimateUnpackSourceFootprint_mono (hstatic _ (by simp)) ht)
      (.cons (estimateUnpackDestFootprint_mono (hstatic _ (by simp)) ht hdest) (forall₂_whole _))
  | other op =>
    rw [hop] at hstatic
    rw [List.forall₂_map_left_iff, List.forall₂_map_right_iff]
    exact List.forall₂_same.mpr fun type hmem => estimateOtherFootprint_mono (hstatic type hmem) ht

end CoralNPU.Tiling
