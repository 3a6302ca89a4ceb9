import CoralNPU.Tiling.CacheTile

namespace CoralNPU.Tiling

open Lib

/-!
# Tiling — the three passes together

The lowering configuration after the register, the DTCM and the workgroup pass.

* `PartitionedLoops` — each loop is in one list, and the reduction list is the reduction loops;
* `LoweringConfig.WellFormed` — what the configuration must satisfy for the root operation;
* `OnlyFallbackRewrites` — the levels the DTCM pass may touch;
* `tilingPasses_wellFormed` — the passes, run in order, produce such a configuration.
-/

/-- Every loop is in exactly one of the four lists, and the reduction list holds exactly the
    reduction iterators. -/
structure PartitionedLoops (loops : LoopClassification) (iterTypes : List IteratorType) : Prop where
  once : loops.allLoops.Perm (List.range iterTypes.length)
  reduction : ∀ i, i ∈ loops.reductionLoops ↔ iterTypes[i]? = some .reduction

/-- A tile of a level that tiles the loops of one iterator type: between 1 and the range
    for these, 0 for all others. -/
def TilesLoops (iterTypes : List IteratorType) (ranges : List Int) (t : IteratorType)
    (sizes : List Int) : Prop :=
  ∀ i < iterTypes.length,
    (iterTypes[i]? = some t → 1 ≤ sizes.getD i 0 ∧ sizes.getD i 0 ≤ ranges.getD i 0)
    ∧ (iterTypes[i]? ≠ some t → sizes.getD i 0 = 0)

/-- A well-formed configuration of a root operation. -/
structure LoweringConfig.WellFormed (config : LoweringConfig) (root : RootOp) : Prop where
  cacheParallel : TilesLoops root.getLoopIteratorTypes root.getStaticLoopRanges .parallel
    (config.getStaticTilingLevelSizes .cacheParallelTiles)
  cacheReduction : TilesLoops root.getLoopIteratorTypes root.getStaticLoopRanges .reduction
    (config.getStaticTilingLevelSizes .cacheReductionTiles)
  distribution : config.getStaticTilingLevelSizes .distributionTiles
    = config.getStaticTilingLevelSizes .cacheParallelTiles
  length_eq : ∀ level ∈ config.levels,
    (config.getStaticTilingLevelSizes level).length = root.getStaticLoopRanges.length
  levels_eq : config.levels = [.vectorCommonParallelTiles, .vectorReductionTiles,
    .cacheParallelTiles, .cacheReductionTiles, .distributionTiles]
  nodup : config.levels.Nodup

/-- A pass changes at most the given levels. -/
def ChangesOnly (levels : List TilingLevel) (before after : LoweringConfig) : Prop :=
  ∀ level, level ∉ levels →
    after.getStaticTilingLevelSizes level = before.getStaticTilingLevelSizes level

/-- The DTCM pass sets the two cache levels; the two vector levels change only if its shrink
    loop ended in the fallback. -/
def OnlyFallbackRewrites (normalize : Int → Int) (getBound : BoundFn) (limit : Int)
    (target : Target) (analysis : TilingAnalysis) (before after : LoweringConfig) : Prop :=
  ∃ s₀ s, initialShrinkState target analysis before = .ok s₀
    ∧ iterate (shrinkBody (isOverBudget normalize getBound analysis.rootTilingOp limit)
        analysis.classification analysis.staticLoopRanges)
        (shrinkFuel analysis.staticLoopRanges s₀) s₀ = some (.ok s)
    ∧ ChangesOnly [.cacheParallelTiles, .cacheReductionTiles, .vectorCommonParallelTiles,
        .vectorReductionTiles] before after
    ∧ (s.fallback = false →
        ChangesOnly [.cacheParallelTiles, .cacheReductionTiles] before after)

/-! ### The classification -/

theorem partitionedLoops_classifyLoops (root : RootOp) :
    PartitionedLoops (classifyLoops root) root.getLoopIteratorTypes where
  once := allLoops_classifyLoops root
  reduction := fun i => by rw [reductionLoops_classifyLoops, mem_loopsOfType]

/-- A loop is parallel exactly when it is in one of the parallel lists. -/
theorem mem_parallelLoops_iff {loops : LoopClassification} {iterTypes : List IteratorType}
    (h : PartitionedLoops loops iterTypes) {i : Nat} (hi : i < iterTypes.length) :
    i ∈ loops.parallelLoops ↔ iterTypes[i]? = some .parallel := by
  have hmem : i ∈ loops.allLoops := h.once.mem_iff.mpr (List.mem_range.mpr hi)
  have hnodup : loops.allLoops.Nodup := h.once.nodup_iff.mpr List.nodup_range
  have hsplit : i ∈ loops.parallelLoops ∨ i ∈ loops.reductionLoops := List.mem_append.mp hmem
  have hdisj : i ∈ loops.parallelLoops → i ∉ loops.reductionLoops := fun hp hr =>
    (List.nodup_append.mp hnodup).2.2 i hp i hr rfl
  constructor
  · intro hp
    have hnr := mt (h.reduction i).mpr (hdisj hp)
    rw [List.getElem?_eq_getElem hi] at hnr ⊢
    cases hty : iterTypes[i] with
    | parallel => rfl
    | reduction => rw [hty] at hnr; exact absurd rfl hnr
  · intro hp
    refine hsplit.resolve_right fun hr => ?_
    rw [(h.reduction i).mp hr] at hp
    cases hp

/-! ### The DTCM pass -/

section

variable {target : Target} {analysis : TilingAnalysis} {root : RootOp}

/-- The cache levels tile the loops of their iterator type. -/
theorem dtcmConfig_tilesLoops (hclass : analysis.classification = classifyLoops root)
    (hranges : analysis.staticLoopRanges = root.getStaticLoopRanges) (config : LoweringConfig)
    {s : ShrinkState} (htile : ∀ i < analysis.staticLoopRanges.length,
      1 ≤ s.dtcmTileSizes.getD i 0
        ∧ s.dtcmTileSizes.getD i 0 ≤ analysis.staticLoopRanges.getD i 0) :
    TilesLoops root.getLoopIteratorTypes root.getStaticLoopRanges .parallel
      ((dtcmConfig analysis config s).getStaticTilingLevelSizes .cacheParallelTiles)
    ∧ TilesLoops root.getLoopIteratorTypes root.getStaticLoopRanges .reduction
      ((dtcmConfig analysis config s).getStaticTilingLevelSizes .cacheReductionTiles) := by
  have hpart := partitionedLoops_classifyLoops root
  have hlen : analysis.staticLoopRanges.length = root.getLoopIteratorTypes.length := by
    rw [hranges, length_getStaticLoopRanges]
  rw [dtcmConfig_get_cacheParallelTiles, dtcmConfig_get_cacheReductionTiles]
  constructor
  · intro i hi
    have hi' : i < analysis.staticLoopRanges.length := hlen ▸ hi
    rw [getD_cacheParallelSizes _ _ hi', hclass, ne_eq, ← mem_parallelLoops_iff hpart hi, ← hranges]
    refine ⟨fun hp => ?_, fun hp => if_neg hp⟩
    rw [if_pos hp]
    exact htile i hi'
  · intro i hi
    have hi' : i < analysis.staticLoopRanges.length := hlen ▸ hi
    rw [getD_cacheReductionSizes _ _ hi', hclass, ne_eq, ← hpart.reduction i, ← hranges]
    refine ⟨fun hr => ?_, fun hr => if_neg hr⟩
    rw [if_pos hr]
    exact htile i hi'

/-- The DTCM pass appends the two cache levels to those of the register pass. -/
theorem dtcmConfig_levels (target : Target) (analysis : TilingAnalysis) (vw : Int) (alignments : Alignments) (s : ShrinkState) :
    (dtcmConfig analysis (registerConfig target analysis vw alignments) s).levels
      = [.vectorCommonParallelTiles, .vectorReductionTiles, .cacheParallelTiles,
          .cacheReductionTiles] := by
  unfold dtcmConfig
  cases s.fallback <;> rfl

theorem dtcmConfig_changesOnly (analysis : TilingAnalysis) (config : LoweringConfig) (s : ShrinkState) :
    ChangesOnly [.cacheParallelTiles, .cacheReductionTiles, .vectorCommonParallelTiles,
        .vectorReductionTiles] config (dtcmConfig analysis config s)
    ∧ (s.fallback = false → ChangesOnly [.cacheParallelTiles, .cacheReductionTiles] config
        (dtcmConfig analysis config s)) := by
  constructor
  · intro level hlevel
    simp only [List.mem_cons, List.not_mem_nil, or_false, not_or] at hlevel
    exact dtcmConfig_get_other analysis config s hlevel.1 hlevel.2.1 hlevel.2.2.1 hlevel.2.2.2
  · intro hfalse level hlevel
    simp only [List.mem_cons, List.not_mem_nil, or_false, not_or] at hlevel
    by_cases hvp : level = .vectorCommonParallelTiles
    · rw [hvp, dtcmConfig_get_vectorCommonParallelTiles, hfalse]
      rfl
    by_cases hvr : level = .vectorReductionTiles
    · rw [hvr, dtcmConfig_get_vectorReductionTiles, hfalse]
      rfl
    exact dtcmConfig_get_other analysis config s hlevel.1 hlevel.2 hvp hvr

/-- A DTCM pass that succeeds has a loop that does. -/
theorem dtcmPass_result {normalize : Int → Int} {getBound : BoundFn} {limit : Int}
    {dispatch d₂ : Dispatch} (h : dispatch.Admits target root analysis) {info : CompilationInfo}
    (hinfo : dispatch.compilationInfo = some info)
    (hpass : dtcmPassWithLimit normalize getBound limit dispatch = .ok d₂)
    {s₀ : ShrinkState} {r : Except Failure ShrinkState}
    (hinit : initialShrinkState target analysis info.loweringConfig = .ok s₀)
    (hr : iterate (shrinkBody (isOverBudget normalize getBound analysis.rootTilingOp limit)
      analysis.classification analysis.staticLoopRanges)
      (shrinkFuel analysis.staticLoopRanges s₀) s₀ = some r) :
    ∃ s, r = .ok s ∧ d₂ = { dispatch with compilationInfo := some { info with
      loweringConfig := dtcmConfig analysis info.loweringConfig s } } := by
  unfold dtcmPassWithLimit at hpass
  rw [runOnRoot_of_admits h, hinfo] at hpass
  obtain ⟨info', hselect, hd⟩ := bind_eq_ok.mp hpass
  simp only [selectCacheTiles, hinit, ok_bind, hr] at hselect
  obtain ⟨s, rfl, hinfo'⟩ := bind_eq_ok.mp hselect
  obtain rfl := Except.ok.inj hinfo'
  exact ⟨s, rfl, (Except.ok.inj hd).symm⟩

/-- **A successful DTCM pass** leaves the configuration of the exit state of its loop. -/
theorem dtcmPass_ok {normalize : Int → Int} {getBound : BoundFn} {limit : Int}
    {dispatch d₂ : Dispatch} (h : dispatch.Admits target root analysis) {info : CompilationInfo}
    (hinfo : dispatch.compilationInfo = some info)
    (hpass : dtcmPassWithLimit normalize getBound limit dispatch = .ok d₂) :
    ∃ s₀ s, IsStart target analysis info.loweringConfig s₀
      ∧ ShrinkPhase analysis.classification analysis.staticLoopRanges s₀ s
      ∧ d₂ = { dispatch with compilationInfo := some { info with
          loweringConfig := dtcmConfig analysis info.loweringConfig s } }
      ∧ OnlyFallbackRewrites normalize getBound limit target analysis info.loweringConfig
          (dtcmConfig analysis info.loweringConfig s) := by
  have hwf := tilingAnalysis_wellFormed h.analysis_eq h.one_le_range
  obtain ⟨s₀, hinit, hs₀⟩ := initialShrinkState_ok hwf.partitions target info.loweringConfig
  obtain ⟨r, s, hr, hs, -, hexit⟩ := shrinkLoop_exit hs₀ hwf.partitions
    (isOverBudget normalize getBound analysis.rootTilingOp limit) (fun _ => True) trivial
    fun _ _ _ _ _ _ => trivial
  obtain ⟨s', rfl, hd⟩ := dtcmPass_result h hinfo hpass hinit hr
  obtain ⟨rfl, -⟩ := shrinkBody_exit hexit
  obtain ⟨honly, hfallback⟩ := dtcmConfig_changesOnly analysis info.loweringConfig s
  exact ⟨s₀, s, hs₀, hs, hd, s₀, s, hinit, hr, honly, hfallback⟩

/-! ### The workgroup pass -/

/-- **A successful workgroup pass** copies the parallel cache tiles. -/
theorem workgroupPass_ok {dispatch d₃ : Dispatch} (h : dispatch.Admits target root analysis)
    {info : CompilationInfo} (hinfo : dispatch.compilationInfo = some info)
    (hpass : workgroupPass dispatch = .ok d₃) :
    d₃ = { dispatch with compilationInfo := some { info with
      loweringConfig := info.loweringConfig.updateConfigItem .distributionTiles
        (info.loweringConfig.getStaticTilingLevelSizes .cacheParallelTiles) } } := by
  unfold workgroupPass at hpass
  rw [runOnRoot_of_admits h, hinfo] at hpass
  obtain ⟨info', hselect, hd⟩ := bind_eq_ok.mp hpass
  unfold selectWorkgroupTiles at hselect
  by_cases hlevel : info.loweringConfig.hasTilingLevel .cacheParallelTiles
  · simp only [hlevel, Bool.not_true, Bool.false_eq_true, if_false] at hselect
    obtain rfl := Except.ok.inj hselect
    exact (Except.ok.inj hd).symm
  · simp only [hlevel, Bool.not_false, if_true] at hselect
    cases hselect

end

/-! ### The pipeline -/

/-- **A well-formed lowering configuration.** Whatever the options, the arithmetic and the
    budget: if the three passes succeed in order, the loops are partitioned, the final
    configuration is well formed, and each pass has changed only the levels it sets. -/
theorem tilingPasses_wellFormed {normalize : Int → Int} {getBound : BoundFn}
    {options : RegisterOptions} {limit : Int} {target : Target} {root : RootOp}
    {analysis : TilingAnalysis} {d₀ d₁ d₂ d₃ : Dispatch} (h : d₀.Admits target root analysis)
    (h₁ : registerPass options d₀ = .ok d₁)
    (h₂ : dtcmPassWithLimit normalize getBound limit d₁ = .ok d₂)
    (h₃ : workgroupPass d₂ = .ok d₃) :
    ∃ info₁ info₂ info₃, d₁.compilationInfo = some info₁ ∧ d₂.compilationInfo = some info₂
      ∧ d₃.compilationInfo = some info₃
      ∧ PartitionedLoops analysis.classification root.getLoopIteratorTypes
      ∧ info₃.loweringConfig.WellFormed root
      ∧ info₁.loweringConfig.levels = [.vectorCommonParallelTiles, .vectorReductionTiles]
      ∧ OnlyFallbackRewrites normalize getBound limit target analysis info₁.loweringConfig
          info₂.loweringConfig
      ∧ ChangesOnly [.distributionTiles] info₂.loweringConfig info₃.loweringConfig := by
  have hwf := tilingAnalysis_wellFormed h.analysis_eq h.one_le_range
  obtain ⟨-, hclass, hranges, -⟩ := tilingAnalysis_ok h.analysis_eq
  obtain ⟨vw, alignments, info₁, -, -, rfl, hconfig₁⟩ := registerPass_ok h h₁
  obtain ⟨s₀, s, hs₀, hs, rfl, honly⟩ := dtcmPass_ok (h.with_info _) rfl h₂
  obtain rfl := workgroupPass_ok ((h.with_info _).with_info _) rfl h₃
  refine ⟨info₁, _, _, rfl, rfl, rfl, ?_, ?_, ?_, honly, ?_⟩
  · rw [hclass]
    exact partitionedLoops_classifyLoops root
  · obtain ⟨hparallel, hreduction⟩ := dtcmConfig_tilesLoops hclass hranges info₁.loweringConfig
      fun i hi => hs.tile_spec hs₀ hwf hi
    have hlevels := dtcmConfig_levels target analysis vw alignments s
    rw [← hconfig₁] at hlevels
    have hnew : ∀ level, level ≠ .distributionTiles →
        ((dtcmConfig analysis info₁.loweringConfig s).updateConfigItem .distributionTiles
          ((dtcmConfig analysis info₁.loweringConfig s).getStaticTilingLevelSizes
            .cacheParallelTiles)).getStaticTilingLevelSizes level
        = (dtcmConfig analysis info₁.loweringConfig s).getStaticTilingLevelSizes level :=
      fun level hne => LoweringConfig.getStaticTilingLevelSizes_update_ne _ hne _
    have hall : ((dtcmConfig analysis info₁.loweringConfig s).updateConfigItem .distributionTiles
          ((dtcmConfig analysis info₁.loweringConfig s).getStaticTilingLevelSizes
            .cacheParallelTiles)).levels
        = [.vectorCommonParallelTiles, .vectorReductionTiles, .cacheParallelTiles,
            .cacheReductionTiles, .distributionTiles] := by
      rw [LoweringConfig.levels_update_of_notMem (by rw [hlevels]; decide), hlevels]
      rfl
    refine ⟨?_, ?_, ?_, ?_, hall, by rw [hall]; decide⟩
    · rw [hnew _ (by decide)]; exact hparallel
    · rw [hnew _ (by decide)]; exact hreduction
    · rw [LoweringConfig.getStaticTilingLevelSizes_update_self, hnew _ (by decide)]
    · intro level hlevel
      rw [hall] at hlevel
      simp only [List.mem_cons, List.not_mem_nil, or_false] at hlevel
      rw [← hranges]
      rcases hlevel with rfl | rfl | rfl | rfl | rfl
      · rw [hnew _ (by decide), dtcmConfig_get_vectorCommonParallelTiles, hconfig₁]
        split
        · exact length_fallbackParallelSizes
        · exact length_registerParallelSizes
      · rw [hnew _ (by decide), dtcmConfig_get_vectorReductionTiles, hconfig₁]
        split
        · exact length_fallbackReductionSizes
        · exact length_registerReductionSizes
      · rw [hnew _ (by decide), dtcmConfig_get_cacheParallelTiles]
        exact length_cacheParallelSizes
      · rw [hnew _ (by decide), dtcmConfig_get_cacheReductionTiles]
        exact length_cacheReductionSizes
      · rw [LoweringConfig.getStaticTilingLevelSizes_update_self,
          dtcmConfig_get_cacheParallelTiles]
        exact length_cacheParallelSizes
  · rw [hconfig₁]
    rfl
  · intro level hlevel
    exact LoweringConfig.getStaticTilingLevelSizes_update_ne _ (by simpa using hlevel) _

/-- The final configuration of `smallMatmul`. -/
def smallMatmulWorkgroupInfo : CompilationInfo :=
  { smallMatmulCacheInfo with
    loweringConfig := smallMatmulCacheInfo.loweringConfig ++
      [(TilingLevel.distributionTiles, [4, 16, 0])] }

/-- The pipeline on `smallMatmul`. -/
theorem tilingPasses_wellFormed_smallMatmul :
    ∃ info₁ info₂ info₃, some smallMatmulInfo = some info₁ ∧ some smallMatmulCacheInfo = some info₂
      ∧ some smallMatmulWorkgroupInfo = some info₃
      ∧ PartitionedLoops smallMatmulAnalysis.classification smallMatmul.getLoopIteratorTypes
      ∧ info₃.loweringConfig.WellFormed smallMatmul
      ∧ info₁.loweringConfig.levels = [.vectorCommonParallelTiles, .vectorReductionTiles]
      ∧ OnlyFallbackRewrites toInt64 dimBound 8192 plainTarget
          smallMatmulAnalysis info₁.loweringConfig info₂.loweringConfig
      ∧ ChangesOnly [.distributionTiles] info₂.loweringConfig info₃.loweringConfig :=
  @tilingPasses_wellFormed toInt64 dimBound {} 8192 plainTarget smallMatmul smallMatmulAnalysis
    (dispatchOf none smallMatmul)
    { dispatchOf none smallMatmul with compilationInfo := some smallMatmulInfo }
    { dispatchOf none smallMatmul with compilationInfo := some smallMatmulCacheInfo }
    { dispatchOf none smallMatmul with compilationInfo := some smallMatmulWorkgroupInfo }
    ⟨rfl, rfl, rfl, by decide, by decide⟩ (by decide +kernel) (by decide +kernel) (by decide +kernel)

end CoralNPU.Tiling
