import CoralNPU.Tiling.Pipeline

namespace CoralNPU.Tiling

open Lib

/-!
# Tiling — the alignment fallback

When no tile with the derived alignments fits, the DTCM pass starts again from the full ranges
with alignment 1.  It rewrites the register tiles of the vector, unroll and reduction loops, but
not those of the batch loops, and it does not cap the ranges it starts from.

* `OverBefore`, `ShrinkHistory` — what the shrink loop has seen on its way to a state: every
  earlier tile of the sequence was over budget;
* `dtcmPass_exit` — a successful pass, with the state its shrink loop returns;
* `registerTilesOne_iff` — after the fallback every register tile is 1 exactly when there is no
  batch loop;
* `parallelCapHolds_iff` — the cap on the parallel tiles holds exactly when the fallback is not
  taken, or does not stop at a tile above the cap.
-/

/-! ### The history of the loop -/

/-- `tiles` is in the halving sequence from `first`, and every tile before it is over budget. -/
def OverBefore (isOver : List Int → Except Failure Bool) (slots : List Slot)
    (first tiles : List Int) : Prop :=
  ∃ k, halvings slots first k = some tiles
    ∧ ∀ j < k, ∀ t, halvings slots first j = some t → isOver t = .ok true

/-- Every tile of the halving sequence from `first` is over budget. -/
def AllOver (isOver : List Int → Except Failure Bool) (slots : List Slot) (first : List Int) :
    Prop :=
  ∀ k t, halvings slots first k = some t → isOver t = .ok true

section History

variable {isOver : List Int → Except Failure Bool} {slots : List Slot} {first tiles : List Int}

theorem OverBefore.refl (isOver : List Int → Except Failure Bool) (slots : List Slot)
    (first : List Int) : OverBefore isOver slots first first :=
  ⟨0, rfl, fun _ hj => absurd hj (Nat.not_lt_zero _)⟩

/-- The tiles of the sequence up to the present one are over budget. -/
theorem OverBefore.through {k : Nat} (hk : halvings slots first k = some tiles)
    (hbefore : ∀ j < k, ∀ t, halvings slots first j = some t → isOver t = .ok true)
    (hover : isOver tiles = .ok true) :
    ∀ j < k + 1, ∀ t, halvings slots first j = some t → isOver t = .ok true := by
  intro j hj t ht
  rcases Nat.lt_succ_iff_lt_or_eq.mp hj with hlt | rfl
  · exact hbefore j hlt t ht
  · rw [hk] at ht
    exact Option.some.inj ht ▸ hover

theorem OverBefore.step (h : OverBefore isOver slots first tiles) (hover : isOver tiles = .ok true)
    {tiles' : List Int} (hhalve : halveFirst slots tiles = some tiles') :
    OverBefore isOver slots first tiles' := by
  obtain ⟨k, hk, hbefore⟩ := h
  exact ⟨k + 1, halvings_succ_eq_some.mpr ⟨tiles, hk, hhalve⟩,
    OverBefore.through hk hbefore hover⟩

/-- Where the sequence ends, all of it has been seen. -/
theorem OverBefore.allOver (h : OverBefore isOver slots first tiles)
    (hover : isOver tiles = .ok true) (hnone : halveFirst slots tiles = none) :
    AllOver isOver slots first := by
  obtain ⟨k, hk, hbefore⟩ := h
  intro j t ht
  refine OverBefore.through hk hbefore hover j ?_ t ht
  by_contra hj
  obtain ⟨w, hw⟩ := halvings_succ_isSome (Nat.lt_of_not_le fun hle => hj (Nat.lt_succ_of_le hle))
    hk ht
  rw [hnone] at hw
  cases hw

end History

/-- What the shrink loop has seen when it reaches the state `s`. -/
structure ShrinkHistory (isOver : List Int → Except Failure Bool) (loops : LoopClassification)
    (ranges : List Int) (s₀ s : ShrinkState) : Prop where
  aligned : s.fallback = false →
    OverBefore isOver (s₀.slots loops) s₀.dtcmTileSizes s.dtcmTileSizes
  exhausted : s.fallback = true → AllOver isOver (s₀.slots loops) s₀.dtcmTileSizes
  fallback : s.fallback = true →
    OverBefore isOver ((ShrinkState.unaligned ranges).slots loops) ranges s.dtcmTileSizes

section Exit

variable {target : Target} {analysis : TilingAnalysis} {root : RootOp} {config : LoweringConfig}
  {s₀ : ShrinkState}

theorem shrinkHistory_start (hs₀ : IsStart target analysis config s₀)
    (isOver : List Int → Except Failure Bool) :
    ShrinkHistory isOver analysis.classification analysis.staticLoopRanges s₀ s₀ := by
  refine ⟨fun _ => .refl _ _ _, fun htrue => ?_, fun htrue => ?_⟩ <;>
    · rw [hs₀.fallback] at htrue
      cases htrue

/-- **A step from a state over budget** extends the history. -/
theorem shrinkHistory_step (hs₀ : IsStart target analysis config s₀)
    {isOver : List Int → Except Failure Bool} {s s' : ShrinkState}
    (hs : ShrinkPhase analysis.classification analysis.staticLoopRanges s₀ s)
    (h : ShrinkHistory isOver analysis.classification analysis.staticLoopRanges s₀ s)
    (hover : isOver s.dtcmTileSizes = .ok true)
    (hstep : shrinkOnce analysis.classification analysis.staticLoopRanges s = .ok s') :
    ShrinkHistory isOver analysis.classification analysis.staticLoopRanges s₀ s' := by
  rcases shrinkOnce_ok (hs.aligned_state hs₀) hstep with ⟨tiles, hhalve, rfl⟩ | ⟨hnone, ha, rfl⟩
  · -- the next tile of the same sequence
    cases hs with
    | aligned hh =>
      refine ⟨fun hfalse => (h.aligned hfalse).step hover hhalve, h.exhausted, fun htrue => ?_⟩
      rw [show _ = s₀.fallback from rfl, hs₀.fallback] at htrue
      cases htrue
    | fallback hh =>
      exact ⟨nofun, h.exhausted,
        fun htrue => (h.fallback htrue).step hover hhalve⟩
  · -- the fallback begins: the first sequence has been seen to its end
    cases hs with
    | aligned hh =>
      refine ⟨nofun, fun _ => ?_, fun _ => .refl _ _ _⟩
      exact (h.aligned hs₀.fallback).allOver hover hnone
    | fallback hh => exact absurd ha (ShrinkState.not_hasAlignment_unaligned _)

/-! ### The pass -/

/-- The state that the shrink loop of the pass returns. -/
def IsExit (normalize : Int → Int) (getBound : BoundFn) (limit : Int) (target : Target)
    (analysis : TilingAnalysis) (config : LoweringConfig) (s : ShrinkState) : Prop :=
  ∃ s₀, initialShrinkState target analysis config = .ok s₀
    ∧ iterate (shrinkBody (isOverBudget normalize getBound analysis.rootTilingOp limit)
        analysis.classification analysis.staticLoopRanges)
        (shrinkFuel analysis.staticLoopRanges s₀) s₀ = some (.ok s)

/-- **A successful pass** leaves the configuration of the state its shrink loop returns: the
    first state on its way that is within the budget. -/
theorem dtcmPass_exit {normalize : Int → Int} {getBound : BoundFn} {limit : Int}
    {dispatch d₂ : Dispatch} (h : dispatch.Admits target root analysis) {info : CompilationInfo}
    (hinfo : dispatch.compilationInfo = some info)
    (hpass : dtcmPassWithLimit normalize getBound limit dispatch = .ok d₂) :
    ∃ s₀ s, IsStart target analysis info.loweringConfig s₀
      ∧ IsExit normalize getBound limit target analysis info.loweringConfig s
      ∧ ShrinkPhase analysis.classification analysis.staticLoopRanges s₀ s
      ∧ ShrinkHistory (isOverBudget normalize getBound root limit) analysis.classification
          analysis.staticLoopRanges s₀ s
      ∧ isOverBudget normalize getBound root limit s.dtcmTileSizes = .ok false
      ∧ d₂ = { dispatch with compilationInfo := some { info with
          loweringConfig := dtcmConfig analysis info.loweringConfig s } } := by
  have hwf := tilingAnalysis_wellFormed h.analysis_eq h.one_le_range
  obtain ⟨hroot, -, -, -⟩ := tilingAnalysis_ok h.analysis_eq
  obtain ⟨s₀, hinit, hs₀⟩ := initialShrinkState_ok hwf.partitions target info.loweringConfig
  obtain ⟨r, s, hr, hs, hhistory, hexit⟩ := shrinkLoop_exit hs₀ hwf.partitions
    (isOverBudget normalize getBound analysis.rootTilingOp limit)
    (ShrinkHistory (isOverBudget normalize getBound analysis.rootTilingOp limit)
      analysis.classification analysis.staticLoopRanges s₀) (shrinkHistory_start hs₀ _)
    fun s s' hs hhistory hover hstep => shrinkHistory_step hs₀ hs hhistory hover hstep
  obtain ⟨s', rfl, hd⟩ := dtcmPass_result h hinfo hpass hinit hr
  obtain ⟨rfl, hover⟩ := shrinkBody_exit hexit
  rw [hroot] at hhistory hover
  exact ⟨s₀, s, hs₀, ⟨s₀, hinit, hr⟩, hs, hhistory, hover, hd⟩

/-! ### The register tiles -/

/-- Every register tile of a configuration is 1. -/
def RegisterTilesOne (loops : LoopClassification) (config : LoweringConfig) : Prop :=
  (∀ i ∈ loops.parallelLoops,
      (config.getStaticTilingLevelSizes .vectorCommonParallelTiles).getD i 0 = 1)
    ∧ ∀ i ∈ loops.reductionLoops,
      (config.getStaticTilingLevelSizes .vectorReductionTiles).getD i 0 = 1

instance (loops : LoopClassification) (config : LoweringConfig) :
    Decidable (RegisterTilesOne loops config) :=
  inferInstanceAs (Decidable (_ ∧ _))

/-- The pass takes its fallback, and then succeeds. -/
def FallsBack (normalize : Int → Int) (getBound : BoundFn) (limit : Int) (target : Target)
    (analysis : TilingAnalysis) (config : LoweringConfig) : Prop :=
  ∃ s, IsExit normalize getBound limit target analysis config s ∧ s.fallback = true

/-- The loop returns one state. -/
theorem IsExit.unique {normalize : Int → Int} {getBound : BoundFn} {limit : Int} {s s' : ShrinkState}
    (h : IsExit normalize getBound limit target analysis config s)
    (h' : IsExit normalize getBound limit target analysis config s') : s = s' := by
  obtain ⟨s₀, hinit, hr⟩ := h
  obtain ⟨s₀', hinit', hr'⟩ := h'
  rw [hinit] at hinit'
  obtain rfl := Except.ok.inj hinit'
  rw [hr] at hr'
  exact Except.ok.inj (Option.some.inj hr')

/-- A loop the fallback rewrites has register tile 1, a batch loop has 0. -/
theorem fallback_registerTile (h : analysis.WellFormed) (hs₀ : IsStart target analysis config s₀)
    {s : ShrinkState} (hs : ShrinkPhase analysis.classification analysis.staticLoopRanges s₀ s)
    {i : Nat} (hi : i < analysis.staticLoopRanges.length) :
    (fallbackParallelSizes analysis.classification s.dtcmTileSizes
        analysis.staticLoopRanges.length).getD i 0
      = (if analysis.classification.IsCapped i then 1 else 0)
    ∧ (fallbackReductionSizes analysis.classification s.dtcmTileSizes
        analysis.staticLoopRanges.length).getD i 0
      = if i ∈ analysis.classification.reductionLoops then 1 else 0 := by
  rw [getD_fallbackParallelSizes hi, getD_fallbackReductionSizes hi,
    min_eq_right (hs.tile_spec hs₀ h hi).1]
  exact ⟨rfl, rfl⟩

/-- **The fallback leaves every loop tiled by one exactly when** there is no batch loop: the
    batch loops are missing from the list that it fills. -/
theorem registerTilesOne_iff {normalize : Int → Int} {getBound : BoundFn} {limit : Int}
    {dispatch d₂ : Dispatch} (h : dispatch.Admits target root analysis) {info info₂ : CompilationInfo}
    (hinfo : dispatch.compilationInfo = some info)
    (hpass : dtcmPassWithLimit normalize getBound limit dispatch = .ok d₂)
    (hinfo₂ : d₂.compilationInfo = some info₂)
    (hfallback : FallsBack normalize getBound limit target analysis info.loweringConfig) :
    RegisterTilesOne analysis.classification info₂.loweringConfig ↔
      analysis.classification.batchLoops = [] := by
  have hwf := tilingAnalysis_wellFormed h.analysis_eq h.one_le_range
  obtain ⟨s₀, s, hs₀, hexit, hs, -, -, rfl⟩ := dtcmPass_exit h hinfo hpass
  obtain ⟨s', hexit', htrue⟩ := hfallback
  obtain rfl := hexit.unique hexit'
  obtain rfl := Option.some.inj hinfo₂
  have hlt : ∀ i ∈ analysis.classification.allLoops, i < analysis.staticLoopRanges.length :=
    fun i hi => (hwf.mem_allLoops i).mp hi
  unfold RegisterTilesOne
  simp only [dtcmConfig_get_vectorCommonParallelTiles, dtcmConfig_get_vectorReductionTiles, htrue,
    if_true]
  constructor
  · rintro ⟨hparallel, -⟩
    refine List.eq_nil_iff_forall_not_mem.mpr fun i hbatch => ?_
    have hpar : i ∈ analysis.classification.parallelLoops :=
      mem_parallelLoops.mpr (.inr (.inr hbatch))
    have htile := hparallel i hpar
    rw [(fallback_registerTile hwf hs₀ hs (hlt i (List.mem_append_left _ hpar))).1, if_neg] at htile
    · cases htile
    · -- the lists of a classification are disjoint
      have hdisj := (List.nodup_append.mp (List.nodup_append.mp hwf.nodup).1).2.2
      rintro (hv | hu)
      · exact hdisj i (List.mem_append_left _ hv) i hbatch rfl
      · exact hdisj i (List.mem_append_right _ hu) i hbatch rfl
  · intro hbatch
    constructor
    · intro i hi
      rw [(fallback_registerTile hwf hs₀ hs (hlt i (List.mem_append_left _ hi))).1, if_pos]
      rcases mem_parallelLoops.mp hi with hv | hu | hb
      · exact .inl hv
      · exact .inr hu
      · rw [hbatch] at hb
        cases hb
    · intro i hi
      rw [(fallback_registerTile hwf hs₀ hs (hlt i (List.mem_append_right _ hi))).2, if_pos hi]

end Exit

/-- A 4 x 4 x 24 x 1 batch matmul on `i32`. -/
def smallBatchMatmul : RootOp :=
  Contraction.batchMatmul.toRootOp (fun d => if d = 2 then 24 else if d = 3 then 1 else 4)
    (.integer 32) (.integer 32) (.integer 32)

/-- The analysis of `smallBatchMatmul`. -/
def smallBatchMatmulAnalysis : TilingAnalysis :=
  { rootTilingOp := smallBatchMatmul
    classification := classifyLoops smallBatchMatmul
    staticLoopRanges := [4, 4, 24, 1]
    elemSizeBytes := 4 }

/-- The register tiles of `smallBatchMatmul`. -/
def smallBatchMatmulInfo : CompilationInfo :=
  { loweringConfig :=
      [(.vectorCommonParallelTiles, [4, 4, 24, 0]), (.vectorReductionTiles, [0, 0, 0, 1])]
    translationInfo := .cpuDoubleTilingExpert }

/-- The configuration of `smallBatchMatmul` in 1 KiB. -/
def smallBatchMatmulCacheInfo : CompilationInfo :=
  { loweringConfig :=
      [(.vectorCommonParallelTiles, [0, 1, 1, 0]), (.vectorReductionTiles, [0, 0, 0, 1]),
        (.cacheParallelTiles, [4, 1, 24, 0]), (.cacheReductionTiles, [0, 0, 0, 1])]
    translationInfo := .cpuDoubleTilingExpert }

/-- The dispatch function of `smallBatchMatmul` after the register pass. -/
def smallBatchMatmulDispatch : Dispatch :=
  { dispatchOf none smallBatchMatmul with compilationInfo := some smallBatchMatmulInfo }

/-- The fallback state of `smallBatchMatmul` in 1 KiB. -/
theorem smallBatchMatmul_fallsBack :
    FallsBack toInt64 dimBound 1024 plainTarget smallBatchMatmulAnalysis
      smallBatchMatmulInfo.loweringConfig :=
  ⟨.unaligned [4, 1, 24, 1], ⟨_, rfl, by decide +kernel⟩, rfl⟩

/-- The batch loop of a batch matmul is untiled at the register level after the fallback. -/
theorem batchTile_zero :
    registerPass {} (dispatchOf none smallBatchMatmul) = .ok smallBatchMatmulDispatch
      ∧ dtcmPass toInt64 dimBound 1 smallBatchMatmulDispatch
        = .ok { smallBatchMatmulDispatch with compilationInfo := some smallBatchMatmulCacheInfo }
      ∧ FallsBack toInt64 dimBound 1024 plainTarget smallBatchMatmulAnalysis
          smallBatchMatmulInfo.loweringConfig
      ∧ ¬ RegisterTilesOne smallBatchMatmulAnalysis.classification
          smallBatchMatmulCacheInfo.loweringConfig := by
  refine ⟨?_, ?_, smallBatchMatmul_fallsBack, ?_⟩ <;> decide +kernel

/-- The criterion at that batch matmul. -/
theorem registerTilesOne_iff_smallBatchMatmul :
    RegisterTilesOne smallBatchMatmulAnalysis.classification
        smallBatchMatmulCacheInfo.loweringConfig ↔
      smallBatchMatmulAnalysis.classification.batchLoops = [] :=
  @registerTilesOne_iff plainTarget smallBatchMatmulAnalysis smallBatchMatmul toInt64 dimBound 1024
    smallBatchMatmulDispatch
    { smallBatchMatmulDispatch with compilationInfo := some smallBatchMatmulCacheInfo }
    ⟨rfl, rfl, rfl, by decide, by decide⟩ smallBatchMatmulInfo smallBatchMatmulCacheInfo rfl
    (by decide +kernel) rfl smallBatchMatmul_fallsBack

/-! ### The cap -/

/-- The loops, each with the alignment that the DTCM pass derives for its list. -/
def dtcmSlots (loops : LoopClassification) (config : LoweringConfig) : List Slot :=
  let parallel := config.getStaticTilingLevelSizes .vectorCommonParallelTiles
  let reduction := config.getStaticTilingLevelSizes .vectorReductionTiles
  loops.vectorLoops.map (·, alignmentOf parallel loops.vectorLoops)
    ++ loops.unrollLoops.map (·, alignmentOf parallel loops.unrollLoops)
    ++ loops.batchLoops.map (·, alignmentOf parallel loops.batchLoops)
    ++ loops.reductionLoops.map (·, alignmentOf reduction loops.reductionLoops)

/-- Some vector or unroll loop has a tile above the cap. -/
def AboveCap (cap : Int) (loops : LoopClassification) (tiles : List Int) : Prop :=
  ∃ i ∈ loops.vectorLoops ++ loops.unrollLoops, cap < tiles.getD i 0

/-- The cache tile of every vector and unroll loop is at most `cap`. -/
def ParallelCapHolds (cap : Int) (loops : LoopClassification) (config : LoweringConfig) : Prop :=
  ∀ i ∈ loops.vectorLoops ++ loops.unrollLoops,
    (config.getStaticTilingLevelSizes .cacheParallelTiles).getD i 0 ≤ cap

instance (cap : Int) (loops : LoopClassification) (config : LoweringConfig) :
    Decidable (ParallelCapHolds cap loops config) :=
  inferInstanceAs (Decidable (∀ i ∈ loops.vectorLoops ++ loops.unrollLoops, _))

/-- Some aligned and capped tile is not over budget, or else every tile above the cap is, on
    the way down from the full ranges. -/
def CapRespected (isOver : List Int → Except Failure Bool) (cap : Int)
    (loops : LoopClassification) (ranges : List Int) (config : LoweringConfig) : Prop :=
  ¬ AllOver isOver (dtcmSlots loops config)
      (firstTile cap loops ranges (dtcmSlots loops config))
    ∨ ∀ k t, halvings (loops.allLoops.map (·, 1)) ranges k = some t → AboveCap cap loops t →
      isOver t = .ok true

section Cap

variable {target : Target} {analysis : TilingAnalysis} {root : RootOp} {config : LoweringConfig}
  {s₀ : ShrinkState}

theorem IsStart.slots_eq (hs₀ : IsStart target analysis config s₀) :
    s₀.slots analysis.classification = dtcmSlots analysis.classification config := by
  unfold ShrinkState.slots dtcmSlots
  rw [hs₀.vectorAlign, hs₀.unrollAlign, hs₀.batchAlign, hs₀.reductionAlign]

theorem slots_unaligned (loops : LoopClassification) (ranges : List Int) :
    (ShrinkState.unaligned ranges).slots loops = loops.allLoops.map (·, 1) := by
  simp [ShrinkState.slots, ShrinkState.unaligned, LoopClassification.allLoops]

/-- The cap holds of the emitted configuration when it holds of the tile it is made of. -/
theorem parallelCapHolds_dtcmConfig (h : analysis.WellFormed) (config : LoweringConfig)
    (s : ShrinkState) (cap : Int) :
    ParallelCapHolds cap analysis.classification (dtcmConfig analysis config s) ↔
      ¬ AboveCap cap analysis.classification s.dtcmTileSizes := by
  simp only [ParallelCapHolds, AboveCap, not_exists, not_and, not_lt]
  refine forall₂_congr fun i hi => ?_
  have hpar : i ∈ analysis.classification.parallelLoops := List.mem_append_left _ hi
  have hlt := (h.mem_allLoops i).mp (List.mem_append_left _ hpar)
  rw [dtcmConfig_get_cacheParallelTiles, getD_cacheParallelSizes _ _ hlt, if_pos hpar]

/-- The loop starts below the cap. -/
theorem IsStart.not_aboveCap (hs₀ : IsStart target analysis config s₀) (h : analysis.WellFormed) :
    ¬ AboveCap (maxParallelTileSize target analysis.rootTilingOp) analysis.classification
      s₀.dtcmTileSizes := by
  rintro ⟨i, hi, habove⟩
  have hpar : i ∈ analysis.classification.parallelLoops := List.mem_append_left _ hi
  have hlt := (h.mem_allLoops i).mp (List.mem_append_left _ hpar)
  obtain ⟨p, hp, rfl⟩ := (mem_slots h.partitions s₀).mpr hlt
  have hcapped : analysis.classification.IsCapped p.1 := List.mem_append.mp hi
  rw [hs₀.tile p hp, startTile, if_pos hcapped] at habove
  exact absurd (min_le_right _ _) (not_le.mpr habove)

/-- Tiles only shrink, so a sequence that has come below the cap stays there. -/
theorem AboveCap.anti {slots : List Slot} (hpos : ∀ p ∈ slots, 1 ≤ p.2) {first t t' : List Int}
    {loops : LoopClassification} {cap : Int} {j k : Nat} (hjk : j ≤ k)
    (hj : halvings slots first j = some t) (hk : halvings slots first k = some t')
    (habove : AboveCap cap loops t') : AboveCap cap loops t := by
  obtain ⟨i, hi, hlt⟩ := habove
  exact ⟨i, hi, hlt.trans_le (halvings_anti hpos hjk hj hk i)⟩

/-- **The parallel cap holds exactly when** the pass does not fall back, or its fallback does
    not stop at a tile above the cap: the fallback starts from ranges that are not capped. -/
theorem parallelCapHolds_iff {normalize : Int → Int} {getBound : BoundFn} {limit : Int}
    {dispatch d₂ : Dispatch} (h : dispatch.Admits target root analysis) {info info₂ : CompilationInfo}
    (hinfo : dispatch.compilationInfo = some info)
    (hpass : dtcmPassWithLimit normalize getBound limit dispatch = .ok d₂)
    (hinfo₂ : d₂.compilationInfo = some info₂) :
    ParallelCapHolds (maxParallelTileSize target root) analysis.classification info₂.loweringConfig ↔
      CapRespected (isOverBudget normalize getBound root limit) (maxParallelTileSize target root)
        analysis.classification analysis.staticLoopRanges info.loweringConfig := by
  have hwf := tilingAnalysis_wellFormed h.analysis_eq h.one_le_range
  obtain ⟨hroot, -, -, -⟩ := tilingAnalysis_ok h.analysis_eq
  obtain ⟨s₀, s, hs₀, -, hs, hhistory, hover, rfl⟩ := dtcmPass_exit h hinfo hpass
  obtain rfl := Option.some.inj hinfo₂
  have hslots := hs₀.slots_eq
  have hfirst := hs₀.tiles_eq hwf
  have hstart := hs₀.not_aboveCap hwf
  rw [hroot] at hfirst hstart
  rw [parallelCapHolds_dtcmConfig hwf, CapRespected, ← hslots, ← hfirst]
  by_cases hfalse : s.fallback = false
  · -- the last tile is in the aligned sequence, which starts below the cap
    obtain ⟨k, hk, -⟩ := hhistory.aligned hfalse
    refine iff_of_true (fun habove => hstart ?_) (.inl fun hall => ?_)
    · exact habove.anti (ShrinkState.one_le_of_mem_slots hs₀.aligned) (Nat.zero_le k) rfl hk
    · rw [hall k _ hk] at hover
      cases hover
  · have htrue : s.fallback = true := by simpa using hfalse
    obtain ⟨k, hk, hbefore⟩ := hhistory.fallback htrue
    have hpos : ∀ p ∈ (ShrinkState.unaligned analysis.staticLoopRanges).slots
        analysis.classification, 1 ≤ p.2 :=
      ShrinkState.one_le_of_mem_slots (ShrinkState.aligned_unaligned analysis.staticLoopRanges)
    rw [slots_unaligned] at hk hbefore hpos
    rw [or_iff_right (not_not.mpr (hhistory.exhausted htrue))]
    constructor
    · -- a tile above the cap comes before the last one, and was over budget
      intro hcap j t hj habove
      rcases Nat.lt_or_ge j k with hlt | hge
      · exact hbefore j hlt t hj
      · exact absurd (habove.anti hpos hge hk hj) hcap
    · intro hall habove
      rw [hall k _ hk habove] at hover
      cases hover

end Cap

/-- The fallback emits a cache tile of 24 for a loop whose cap is 16. -/
theorem cacheTile_above_cap :
    dtcmPass toInt64 dimBound 1 smallBatchMatmulDispatch
        = .ok { smallBatchMatmulDispatch with compilationInfo := some smallBatchMatmulCacheInfo }
      ∧ ¬ ParallelCapHolds (maxParallelTileSize plainTarget smallBatchMatmul)
          smallBatchMatmulAnalysis.classification smallBatchMatmulCacheInfo.loweringConfig := by
  refine ⟨?_, ?_⟩ <;> decide +kernel

/-- The criterion for the cap at that batch matmul. -/
theorem parallelCapHolds_iff_smallBatchMatmul :
    ParallelCapHolds (maxParallelTileSize plainTarget smallBatchMatmul)
        smallBatchMatmulAnalysis.classification smallBatchMatmulCacheInfo.loweringConfig ↔
      CapRespected (isOverBudget toInt64 dimBound smallBatchMatmul 1024)
        (maxParallelTileSize plainTarget smallBatchMatmul)
        smallBatchMatmulAnalysis.classification smallBatchMatmulAnalysis.staticLoopRanges
        smallBatchMatmulInfo.loweringConfig :=
  @parallelCapHolds_iff plainTarget smallBatchMatmulAnalysis smallBatchMatmul toInt64 dimBound 1024
    smallBatchMatmulDispatch
    { smallBatchMatmulDispatch with compilationInfo := some smallBatchMatmulCacheInfo }
    ⟨rfl, rfl, rfl, by decide, by decide⟩ smallBatchMatmulInfo smallBatchMatmulCacheInfo rfl
    (by decide +kernel) rfl

end CoralNPU.Tiling
