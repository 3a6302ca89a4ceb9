import CoralNPU.Tiling.ShrinkLoop

namespace CoralNPU.Tiling

open Lib

/-!
# Tiling — the shrink loop without assumptions

`ShrinkLoop` follows the loop for the classifications that the analysis computes.  Here the
classification is any four lists of loops, the ranges are any numbers from 0 on, and the condition
of the loop is any function of the tile: every footprint, with every limit, is one.

* `TilesWithin` — every tile lies between 0 and its range; halving, aligning and capping keep it.
* `takesFallback` — the states in which the loop takes the fallback branch.
* `ShrinkInv` — the invariant: the tiles are in their ranges, and no alignment is larger than 1
  after the fallback; `ShrinkInv.step` keeps it, and `shrinkMeasure_step` lowers the measure: the
  fallback state first, then the sum of the tiles.
* `ShrinkState.DoublesFit` — the bound under which the doubled alignments are `int64_t` values.
* `shrinkLoop_terminates` — the loop ends, and how.
-/

/-! ### Tiles within their ranges -/

/-- Every tile lies between 0 and its range. -/
structure TilesWithin (ranges tiles : List Int) : Prop where
  length_eq : tiles.length = ranges.length
  bounds : ∀ i, 0 ≤ tiles.getD i 0 ∧ tiles.getD i 0 ≤ ranges.getD i 0

/-- The full ranges are tiles within the ranges. -/
theorem TilesWithin.full {ranges : List Int} (h : ∀ r ∈ ranges, 0 ≤ r) :
    TilesWithin ranges ranges := by
  refine ⟨rfl, fun i => ⟨?_, le_refl _⟩⟩
  by_cases hi : i < ranges.length
  · rw [List.getD_eq_getElem _ _ hi]
    exact h _ (List.getElem_mem hi)
  · rw [List.getD_eq_default _ _ (by omega)]

/-- A tile that is made smaller stays in its range. -/
theorem TilesWithin.set {ranges tiles : List Int} (h : TilesWithin ranges tiles) {i : Nat} {x : Int}
    (hx : 0 ≤ x) (hle : x ≤ tiles.getD i 0) : TilesWithin ranges (tiles.set i x) := by
  refine ⟨by rw [List.length_set, h.length_eq], fun j => ?_⟩
  obtain ⟨hlo, hhi⟩ := h.bounds j
  rw [getD_set]
  split
  next hij =>
    obtain rfl := hij.1
    exact ⟨hx, le_trans hle hhi⟩
  next => exact ⟨hlo, hhi⟩

/-- Aligning the tiles of some loops. -/
theorem alignTileSizes_within {alignment : Int} (h : 1 ≤ alignment) {ranges : List Int}
    (loops : List Nat) : ∀ {tiles : List Int}, TilesWithin ranges tiles →
      ∃ tiles', alignTileSizes loops alignment tiles = .ok tiles' ∧ TilesWithin ranges tiles' := by
  induction loops with
  | nil => exact fun htiles => ⟨_, rfl, htiles⟩
  | cons i loops ih =>
    intro tiles htiles
    have hcons : alignTileSizes (i :: loops) alignment tiles
        = alignTileSizes loops alignment
          (tiles.set i (alignedExtent alignment (tiles.getD i 0))) := by
      simp only [alignTileSizes, List.foldlM_cons, alignedExtent]
      split
      · rw [set_getD_self]
        rfl
      · rw [alignDown_eq h]
        rfl
    rw [hcons]
    apply ih
    obtain ⟨hlo, hhi⟩ := htiles.bounds i
    unfold alignedExtent
    split
    · exact htiles.set hlo (le_refl _)
    · refine htiles.set ?_ (Int.ediv_mul_le _ (by omega))
      exact mul_nonneg (Int.ediv_nonneg hlo (by omega)) (by omega)

/-- Capping the tiles of some loops. -/
theorem capTileSizes_within {cap : Int} (hcap : 0 ≤ cap) {ranges : List Int} (loops : List Nat) :
    ∀ {tiles : List Int}, TilesWithin ranges tiles →
      TilesWithin ranges (capTileSizes loops cap tiles) := by
  induction loops with
  | nil => exact fun htiles => htiles
  | cons i loops ih =>
    intro tiles htiles
    unfold capTileSizes
    rw [List.foldl_cons]
    apply ih
    split
    · exact htiles.set (le_min (htiles.bounds i).1 hcap) (min_le_left _ _)
    · exact htiles

/-- Halving a tile. -/
theorem halveFirst_within {order : List Slot} (hpos : ∀ p ∈ order, 1 ≤ p.2)
    {ranges tiles tiles' : List Int} (h : TilesWithin ranges tiles)
    (hhalve : halveFirst order tiles = some tiles') :
    TilesWithin ranges tiles' ∧ totalTileSize tiles' < totalTileSize tiles := by
  obtain ⟨pre, i, a, post, hsplit, -, hlong, rfl⟩ := halveFirst_eq_some hhalve
  have ha : 1 ≤ a := hpos (i, a) (by rw [hsplit]; simp)
  obtain ⟨-, hge, hhalf⟩ := halve_spec ha hlong
  have hi : i < tiles.length := by
    by_contra hlen
    rw [List.getD_eq_default _ _ (by omega)] at hlong
    omega
  exact ⟨h.set (by omega) (by omega), sum_toNat_set_lt hi (by omega) (by omega)⟩

/-! ### The fallback branch -/

/-- The loop takes the fallback branch in the state: the tile is over the limit, no loop of the
    four lists can be shrunk, and some alignment is larger than 1. -/
def takesFallback (isOver : List Int → Bool) (loops : LoopClassification) (s : ShrinkState) : Bool :=
  isOver s.dtcmTileSizes ∧
  shrinkLoops loops.vectorLoops s.alignments.vectorAlign s.dtcmTileSizes = .ok none ∧
  shrinkLoops loops.unrollLoops s.alignments.unrollAlign s.dtcmTileSizes = .ok none ∧
  shrinkLoops loops.batchLoops s.batchAlign s.dtcmTileSizes = .ok none ∧
  shrinkLoops loops.reductionLoops s.alignments.reductionAlign s.dtcmTileSizes = .ok none ∧
  s.HasAlignment

/-- After the fallback branch every alignment is 1. -/
theorem takesFallback_step {isOver : List Int → Bool} {loops : LoopClassification}
    {ranges : List Int} {s s' : ShrinkState} (hs : s.Aligned)
    (htakes : takesFallback isOver loops s = true) (hstep : shrinkOnce loops ranges s = .ok s') :
    s' = .unaligned ranges := by
  simp only [takesFallback, decide_eq_true_eq] at htakes
  obtain ⟨-, hv, hu, hb, hr, ha⟩ := htakes
  rw [shrinkLoops_eq hs.vectorAlign] at hv
  rw [shrinkLoops_eq hs.unrollAlign] at hu
  rw [shrinkLoops_eq hs.batchAlign] at hb
  rw [shrinkLoops_eq hs.reductionAlign] at hr
  -- no loop of the four lists can be halved
  have hnone : halveFirst (s.slots loops) s.dtcmTileSizes = none := by
    rw [ShrinkState.slots, halveFirst_append, halveFirst_append, halveFirst_append,
      Except.ok.inj hv, Except.ok.inj hu, Except.ok.inj hb, Except.ok.inj hr]
    rfl
  rw [shrinkOnce_eq hs, hnone] at hstep
  simp only [if_pos ha] at hstep
  exact (Except.ok.inj hstep).symm

/-! ### The invariant -/

/-- What holds in every state of the loop. -/
structure ShrinkInv (ranges : List Int) (s : ShrinkState) : Prop where
  aligned : s.Aligned
  within : TilesWithin ranges s.dtcmTileSizes
  /-- After the fallback there is no alignment to give up. -/
  fallback : s.fallback = true → ¬ s.HasAlignment

section Step

variable {ranges : List Int} {loops : LoopClassification} {s s' : ShrinkState}

/-- **One attempt** keeps the invariant and lowers the measure. -/
theorem ShrinkInv.step (hranges : ∀ r ∈ ranges, 0 ≤ r) (h : ShrinkInv ranges s)
    (hstep : shrinkOnce loops ranges s = .ok s') :
    ShrinkInv ranges s' ∧ shrinkMeasure ranges s' < shrinkMeasure ranges s := by
  rcases shrinkOnce_ok h.aligned hstep with ⟨tiles, hhalve, rfl⟩ | ⟨-, ha, rfl⟩
  · -- the fallback state is the same, and the tiles are smaller
    obtain ⟨hwithin, hlt⟩ := halveFirst_within (ShrinkState.one_le_of_mem_slots h.aligned)
      h.within hhalve
    refine ⟨⟨⟨h.aligned.1, h.aligned.2, h.aligned.3, h.aligned.4⟩, hwithin, h.fallback⟩, ?_⟩
    simp only [shrinkMeasure]
    omega
  · -- the fallback state changes, and the tiles are the full ranges
    have hfirst : s.fallback = false := by
      cases hfb : s.fallback with
      | false => rfl
      | true => exact absurd ha (h.fallback hfb)
    refine ⟨⟨ShrinkState.aligned_unaligned _, TilesWithin.full hranges,
      fun _ => ShrinkState.not_hasAlignment_unaligned _⟩, ?_⟩
    simp only [shrinkMeasure, hfirst, ShrinkState.unaligned, if_true, Bool.false_eq_true, if_false]
    omega

/-- The last iteration returns a tile that fits, or fails. -/
theorem shrinkBody_inr {isOver : List Int → Bool} (h : ShrinkInv ranges s)
    {r : Except Failure ShrinkState}
    (hexit : shrinkBody (fun tiles => .ok (isOver tiles)) loops ranges s = .inr r) :
    (isOver s.dtcmTileSizes = false ∧ r = .ok s) ∨
      (isOver s.dtcmTileSizes = true ∧ r = .error cannotFit) := by
  unfold shrinkBody at hexit
  cases ho : isOver s.dtcmTileSizes with
  | false =>
    simp only [ho] at hexit
    exact .inl ⟨rfl, (Sum.inr.inj hexit).symm⟩
  | true =>
    simp only [ho] at hexit
    refine .inr ⟨rfl, ?_⟩
    rw [shrinkOnce_eq h.aligned] at hexit
    cases hh : halveFirst (s.slots loops) s.dtcmTileSizes with
    | some tiles => rw [hh] at hexit; cases hexit
    | none =>
      rw [hh] at hexit
      by_cases ha : s.HasAlignment
      · simp only [if_pos ha] at hexit; cases hexit
      · simp only [if_neg ha] at hexit
        exact (Sum.inr.inj hexit).symm

end Step

/-! ### Machine arithmetic -/

/-- The doubled alignments, which `shrinkLoops` compares with, are those of the `int64_t`
    arithmetic. -/
def ShrinkState.DoublesFit (s : ShrinkState) : Prop :=
  ∀ align ∈ [s.alignments.vectorAlign, s.alignments.unrollAlign, s.batchAlign,
    s.alignments.reductionAlign], toInt64 (2 * align) = 2 * align

/-- The sizes of a configuration are below 2^62. -/
def LoweringConfig.IsSmall (config : LoweringConfig) : Prop :=
  ∀ level, ∀ size ∈ config.getStaticTilingLevelSizes level, size < 4611686018427387904

/-- An alignment that is derived from small sizes. -/
theorem toInt64_alignmentOf {sizes : List Int} (h : ∀ size ∈ sizes, size < 4611686018427387904)
    (loops : List Nat) :
    toInt64 (2 * alignmentOf sizes loops) = 2 * alignmentOf sizes loops := by
  obtain ⟨hone, -, hvalue⟩ := alignmentOf_spec sizes loops
  have hlt : alignmentOf sizes loops < 4611686018427387904 := by
    rcases hvalue with heq | ⟨i, -, heq⟩
    · rw [heq]
      decide
    · rw [heq]
      by_cases hi : i < sizes.length
      · rw [List.getD_eq_getElem _ _ hi]
        exact h _ (List.getElem_mem hi)
      · rw [List.getD_eq_default _ _ (not_lt.mp hi)]
        decide
  apply toInt64_of_fits
  · omega
  · unfold FitsInt64
    omega

/-- The alignments stay, or become 1. -/
theorem ShrinkState.DoublesFit.step {ranges : List Int} {loops : LoopClassification}
    {s s' : ShrinkState} (h : s.DoublesFit) (hs : s.Aligned)
    (hstep : shrinkOnce loops ranges s = .ok s') : s'.DoublesFit := by
  rcases shrinkOnce_ok hs hstep with ⟨tiles, -, rfl⟩ | ⟨-, -, rfl⟩
  · exact h
  · intro align halign
    simp only [ShrinkState.unaligned, List.mem_cons, List.not_mem_nil, or_false, or_self] at halign
    rw [halign]
    decide

/-! ### The start -/

/-- **The start** exists for every classification and has the invariant. -/
theorem initialShrinkState_inv (target : Target) (analysis : TilingAnalysis)
    (config : LoweringConfig) (hranges : ∀ r ∈ analysis.staticLoopRanges, 0 ≤ r) :
    ∃ s, initialShrinkState target analysis config = .ok s ∧
      ShrinkInv analysis.staticLoopRanges s ∧ (config.IsSmall → s.DoublesFit) := by
  have hv := (alignmentOf_spec (config.getStaticTilingLevelSizes .vectorCommonParallelTiles)
    analysis.classification.vectorLoops).1
  have hu := (alignmentOf_spec (config.getStaticTilingLevelSizes .vectorCommonParallelTiles)
    analysis.classification.unrollLoops).1
  have hb := (alignmentOf_spec (config.getStaticTilingLevelSizes .vectorCommonParallelTiles)
    analysis.classification.batchLoops).1
  have hr := (alignmentOf_spec (config.getStaticTilingLevelSizes .vectorReductionTiles)
    analysis.classification.reductionLoops).1
  have hcap : 0 ≤ maxParallelTileSize target analysis.rootTilingOp :=
    le_trans (by decide) (one_le_maxParallelTileSize target analysis.rootTilingOp)
  -- the four alignments and the two caps, one after the other
  obtain ⟨t₁, h₁, hw₁⟩ := alignTileSizes_within hv analysis.classification.vectorLoops
    (TilesWithin.full hranges)
  obtain ⟨t₂, h₂, hw₂⟩ := alignTileSizes_within hu analysis.classification.unrollLoops hw₁
  obtain ⟨t₃, h₃, hw₃⟩ := alignTileSizes_within hb analysis.classification.batchLoops hw₂
  obtain ⟨t₄, h₄, hw₄⟩ := alignTileSizes_within hr analysis.classification.reductionLoops hw₃
  unfold initialShrinkState
  simp only [h₁, h₂, h₃, h₄, ok_bind, pure_eq_ok]
  refine ⟨_, rfl, ⟨⟨hv, hu, hb, hr⟩, capTileSizes_within hcap _ (capTileSizes_within hcap _ hw₄),
    fun hfb => absurd hfb Bool.false_ne_true⟩, fun hsmall align halign => ?_⟩
  simp only [List.mem_cons, List.not_mem_nil, or_false] at halign
  rcases halign with rfl | rfl | rfl | rfl <;> exact toInt64_alignmentOf (hsmall _) _

/-! ### The loop -/

/-- The loop of the pass ends after finitely many iterations, with a tile that fits or with the
    failure of the pass; it takes the fallback branch at most once, and every tile on the way is in
    its range.  With sizes below 2^62 the alignments on the way can be doubled in an `int64_t`. -/
def ShrinkLoopEnds (target : Target) (analysis : TilingAnalysis) (config : LoweringConfig)
    (isOver : List Int → Bool) : Prop :=
  ∃ s₀ r s, initialShrinkState target analysis config = .ok s₀ ∧
    let body := shrinkBody (fun tiles => .ok (isOver tiles)) analysis.classification
      analysis.staticLoopRanges
    let fuel := shrinkFuel analysis.staticLoopRanges s₀
    let states := visited body fuel s₀
    iterate body fuel s₀ = some r ∧ states.getLast? = some s ∧
    ((isOver s.dtcmTileSizes = false ∧ r = .ok s) ∨
      (isOver s.dtcmTileSizes = true ∧ r = .error cannotFit)) ∧
    states.countP (takesFallback isOver analysis.classification) ≤ 1 ∧
    ∀ s ∈ states, TilesWithin analysis.staticLoopRanges s.dtcmTileSizes ∧
      (config.IsSmall → s.DoublesFit)

/-- **The shrink loop terminates**, for every classification, all ranges from 0 on, every register
    configuration and every condition `isOver`: any footprint function compared with any limit. -/
theorem shrinkLoop_terminates (target : Target) (analysis : TilingAnalysis)
    (config : LoweringConfig) (isOver : List Int → Bool)
    (hranges : ∀ r ∈ analysis.staticLoopRanges, 0 ≤ r) :
    ShrinkLoopEnds target analysis config isOver := by
  obtain ⟨s₀, hinit, hinv₀, hfit₀⟩ := initialShrinkState_inv target analysis config hranges
  have hstep : ∀ s s', ShrinkInv analysis.staticLoopRanges s →
      shrinkBody (fun tiles => .ok (isOver tiles)) analysis.classification
        analysis.staticLoopRanges s = .inl s' →
      ShrinkInv analysis.staticLoopRanges s' ∧
        shrinkMeasure analysis.staticLoopRanges s' < shrinkMeasure analysis.staticLoopRanges s :=
    fun s s' hs hb => hs.step hranges (shrinkBody_inl hb).2
  have hfuel : shrinkMeasure analysis.staticLoopRanges s₀
      < shrinkFuel analysis.staticLoopRanges s₀ := by
    unfold shrinkMeasure shrinkFuel
    split <;> omega
  obtain ⟨r, hr⟩ := iterate_isSome (ShrinkInv analysis.staticLoopRanges)
    (shrinkMeasure analysis.staticLoopRanges) hstep _ s₀ hinv₀ hfuel
  -- the invariant holds in every state on the way
  have hall := forall_mem_visited (ShrinkInv analysis.staticLoopRanges)
    (fun s s' hs hb => (hstep s s' hs hb).1) (shrinkFuel analysis.staticLoopRanges s₀) s₀ hinv₀
  have hfits := fun hsmall => forall_mem_visited
    (fun s => ShrinkInv analysis.staticLoopRanges s ∧ s.DoublesFit)
    (fun s s' hs hb => ⟨(hstep s s' hs.1 hb).1, hs.2.step hs.1.aligned (shrinkBody_inl hb).2⟩)
    (shrinkFuel analysis.staticLoopRanges s₀) s₀ ⟨hinv₀, hfit₀ hsmall⟩
  obtain ⟨s, hlast, hexit⟩ := getLast?_visited _ s₀ r hr
  refine ⟨s₀, r, s, hinit, hr, hlast, ?_, ?_,
    fun t ht => ⟨(hall t ht).within, fun hsmall => (hfits hsmall t ht).2⟩⟩
  · exact shrinkBody_inr (hall s (List.mem_of_getLast? hlast)) hexit
  · -- after the fallback there are no alignments, and without them no fallback
    refine countP_visited_le_one (ShrinkInv analysis.staticLoopRanges)
      (fun s => s.Aligned ∧ ¬ s.HasAlignment) (fun s s' hs hb => (hstep s s' hs hb).1)
      (fun s hs => ?_) (fun s s' hs hb => ?_) (fun s s' hs hP hb => ?_) _ s₀ hinv₀
    · simp only [takesFallback, decide_eq_false_iff_not]
      exact fun htakes => hs.2 htakes.2.2.2.2.2
    · rcases shrinkOnce_ok hs.1 (shrinkBody_inl hb).2 with ⟨tiles, -, rfl⟩ | ⟨-, ha, -⟩
      · exact ⟨⟨hs.1.1, hs.1.2, hs.1.3, hs.1.4⟩, hs.2⟩
      · exact absurd ha hs.2
    · obtain rfl := takesFallback_step hs.aligned hP (shrinkBody_inl hb).2
      exact ⟨ShrinkState.aligned_unaligned _, ShrinkState.not_hasAlignment_unaligned _⟩

/-- A loop without iterations, and a loop of 24 that is in two lists, under a limit that a tile of
    one or two iterations of it does not meet. -/
def twiceListed : TilingAnalysis where
  rootTilingOp := { op := .linalg { kind := .otherNamed, iteratorTypes := [], dpsInputs := [], dpsInits := [] }
                    resultTypes := [] }
  classification :=
    { vectorLoops := [1, 0], unrollLoops := [], reductionLoops := [1], batchLoops := [] }
  staticLoopRanges := [0, 24]
  elemSizeBytes := 1

theorem shrinkLoop_terminates_twiceListed :
    (∀ r ∈ twiceListed.staticLoopRanges, 0 ≤ r) ∧
    ShrinkLoopEnds ⟨"coralnpu", none⟩ twiceListed [(.vectorCommonParallelTiles, [8, 8])]
      fun tiles => decide (tiles.getD 1 0 ≠ 3) :=
  ⟨by decide, shrinkLoop_terminates _ twiceListed _ _ (by decide)⟩

example : (initialShrinkState ⟨"coralnpu", none⟩ twiceListed
      [(.vectorCommonParallelTiles, [8, 8])]).map (fun s₀ =>
    (visited (shrinkBody (fun tiles => .ok (decide (tiles.getD 1 0 ≠ 3))) twiceListed.classification
      twiceListed.staticLoopRanges) 20 s₀).map ShrinkState.dtcmTileSizes)
    = .ok [[0, 16], [0, 8], [0, 4], [0, 2], [0, 1], [0, 24], [0, 12], [0, 6], [0, 3]] := by
  decide

end CoralNPU.Tiling
