import CoralNPU.Tiling.ShrinkLoop

namespace CoralNPU.Tiling

open Lib

/-!
# Tiling — the configuration the DTCM pass emits

The sizes the DTCM pass scatters into its levels, entry by entry, and what each level of
`dtcmConfig` holds.

* `getD_cacheParallelSizes`, `getD_cacheReductionSizes` — a tile goes to the level of its
  loop, the other level has 0;
* `emittedTile_dtcmConfig` — the two levels together are the tile of the shrink loop;
* `dtcmConfig_get_vectorCommonParallelTiles` and its siblings — what each level holds.
-/

variable {loops : LoopClassification} {t : List Int} {n i : Nat}

/-- The parallel loops are those that are vectorized, unrolled or batch loops. -/
theorem mem_parallelLoops : i ∈ loops.parallelLoops ↔
    i ∈ loops.vectorLoops ∨ i ∈ loops.unrollLoops ∨ i ∈ loops.batchLoops := by
  simp only [LoopClassification.parallelLoops, List.mem_append, or_assoc]

/-! ### The scattered sizes -/

/-- The parallel level has the tile of every parallel loop, and 0 for the others. -/
theorem getD_cacheParallelSizes (loops : LoopClassification) (t : List Int) (hi : i < n) :
    (cacheParallelSizes loops t n).getD i 0
      = if i ∈ loops.parallelLoops then t.getD i 0 else 0 := by
  simp only [cacheParallelSizes, getD_scatter, length_scatter, List.length_replicate, hi, and_true,
    getD_replicate_self, mem_parallelLoops]
  by_cases hb : i ∈ loops.batchLoops <;> by_cases hu : i ∈ loops.unrollLoops <;>
    by_cases hv : i ∈ loops.vectorLoops <;> simp [hb, hu, hv]

/-- The reduction level has the tile of every reduction loop, and 0 for the others. -/
theorem getD_cacheReductionSizes (loops : LoopClassification) (t : List Int) (hi : i < n) :
    (cacheReductionSizes loops t n).getD i 0
      = if i ∈ loops.reductionLoops then t.getD i 0 else 0 := by
  simp only [cacheReductionSizes, getD_scatter, List.length_replicate, hi, and_true,
    getD_replicate_self]

/-- The fallback cuts the register tile of a vectorized or unrolled loop to 1. Batch loops get 0, as
    the source does not scatter them. -/
theorem getD_fallbackParallelSizes (hi : i < n) :
    (fallbackParallelSizes loops t n).getD i 0
      = if loops.IsCapped i then min (t.getD i 0) 1 else 0 := by
  simp only [fallbackParallelSizes, getD_scatter, length_scatter, List.length_replicate, hi,
    and_true, getD_replicate_self, LoopClassification.IsCapped]
  by_cases hu : i ∈ loops.unrollLoops <;> by_cases hv : i ∈ loops.vectorLoops <;> simp [hu, hv]

/-- The fallback cuts the register tile of a reduction loop to 1. -/
theorem getD_fallbackReductionSizes (hi : i < n) :
    (fallbackReductionSizes loops t n).getD i 0
      = if i ∈ loops.reductionLoops then min (t.getD i 0) 1 else 0 := by
  simp only [fallbackReductionSizes, getD_scatter, List.length_replicate, hi, and_true,
    getD_replicate_self]

/-- Every level has one entry for each loop. -/
@[simp] theorem length_cacheParallelSizes : (cacheParallelSizes loops t n).length = n := by
  simp [cacheParallelSizes]

/-- As for the parallel level. -/
@[simp] theorem length_cacheReductionSizes : (cacheReductionSizes loops t n).length = n := by
  simp [cacheReductionSizes]

/-- As for the cache level. -/
@[simp] theorem length_fallbackParallelSizes : (fallbackParallelSizes loops t n).length = n := by
  simp [fallbackParallelSizes]

/-- As for the cache level. -/
@[simp] theorem length_fallbackReductionSizes : (fallbackReductionSizes loops t n).length = n := by
  simp [fallbackReductionSizes]

/-! ### The levels of the configuration -/

section Levels

variable (analysis : TilingAnalysis) (config : LoweringConfig) (s : ShrinkState)

/-- The cache tiles of the parallel loops, with and without fallback. -/
theorem dtcmConfig_get_cacheParallelTiles :
    (dtcmConfig analysis config s).getStaticTilingLevelSizes .cacheParallelTiles
      = cacheParallelSizes analysis.classification s.dtcmTileSizes
          analysis.staticLoopRanges.length := by
  unfold dtcmConfig
  cases s.fallback <;>
    simp [LoweringConfig.getStaticTilingLevelSizes_update_ne]

/-- The cache tiles of the reduction loops, with and without fallback. -/
theorem dtcmConfig_get_cacheReductionTiles :
    (dtcmConfig analysis config s).getStaticTilingLevelSizes .cacheReductionTiles
      = cacheReductionSizes analysis.classification s.dtcmTileSizes
          analysis.staticLoopRanges.length := by
  unfold dtcmConfig
  cases s.fallback <;>
    simp [LoweringConfig.getStaticTilingLevelSizes_update_ne]

/-- The register tiles of the parallel loops: only the fallback replaces them. -/
theorem dtcmConfig_get_vectorCommonParallelTiles :
    (dtcmConfig analysis config s).getStaticTilingLevelSizes .vectorCommonParallelTiles
      = if s.fallback then fallbackParallelSizes analysis.classification s.dtcmTileSizes
          analysis.staticLoopRanges.length
        else config.getStaticTilingLevelSizes .vectorCommonParallelTiles := by
  unfold dtcmConfig
  cases s.fallback <;>
    simp [LoweringConfig.getStaticTilingLevelSizes_update_ne]

/-- The register tiles of the reduction loops: only the fallback replaces them. -/
theorem dtcmConfig_get_vectorReductionTiles :
    (dtcmConfig analysis config s).getStaticTilingLevelSizes .vectorReductionTiles
      = if s.fallback then fallbackReductionSizes analysis.classification s.dtcmTileSizes
          analysis.staticLoopRanges.length
        else config.getStaticTilingLevelSizes .vectorReductionTiles := by
  unfold dtcmConfig
  cases s.fallback <;>
    simp [LoweringConfig.getStaticTilingLevelSizes_update_ne]

/-- The levels the DTCM pass does not know are left alone. -/
theorem dtcmConfig_get_other {level : TilingLevel} (hp : level ≠ .cacheParallelTiles)
    (hr : level ≠ .cacheReductionTiles) (hvp : level ≠ .vectorCommonParallelTiles)
    (hvr : level ≠ .vectorReductionTiles) :
    (dtcmConfig analysis config s).getStaticTilingLevelSizes level
      = config.getStaticTilingLevelSizes level := by
  unfold dtcmConfig
  cases s.fallback <;>
    simp [LoweringConfig.getStaticTilingLevelSizes_update_ne, hp, hr, hvp, hvr]

/-- The configuration has the level that marks an operation as tiled for the DTCM. -/
theorem dtcmConfig_hasTilingLevel :
    (dtcmConfig analysis config s).hasTilingLevel .cacheParallelTiles = true := by
  have hmem : TilingLevel.cacheParallelTiles ∈ (dtcmConfig analysis config s).levels := by
    unfold dtcmConfig
    cases s.fallback <;> simp [LoweringConfig.mem_levels_update]
  simpa [LoweringConfig.hasTilingLevel] using hmem

end Levels

/-! ### The emitted tile -/

/-- The tile of every loop in a configuration: its parallel or its reduction cache tile. -/
def emittedTile (config : LoweringConfig) : List Int :=
  (config.getStaticTilingLevelSizes .cacheParallelTiles).zipWith (· + ·)
    (config.getStaticTilingLevelSizes .cacheReductionTiles)

/-- **The emitted tile** is the tile the shrink loop ended with. -/
theorem emittedTile_dtcmConfig {analysis : TilingAnalysis} (h : analysis.WellFormed)
    (config : LoweringConfig) {s : ShrinkState}
    (hlen : s.dtcmTileSizes.length = analysis.staticLoopRanges.length) :
    emittedTile (dtcmConfig analysis config s) = s.dtcmTileSizes := by
  unfold emittedTile
  rw [dtcmConfig_get_cacheParallelTiles, dtcmConfig_get_cacheReductionTiles]
  refine List.ext_getElem (by simp [hlen]) fun i hi₁ hi₂ => ?_
  have hi : i < analysis.staticLoopRanges.length := hlen ▸ hi₂
  have hp := getD_cacheParallelSizes analysis.classification s.dtcmTileSizes hi
  have hr := getD_cacheReductionSizes analysis.classification s.dtcmTileSizes hi
  rw [List.getD_eq_getElem _ _ (by simpa using hi)] at hp hr
  rw [List.getElem_zipWith, hp, hr, List.getD_eq_getElem _ _ hi₂]
  -- the loop is in exactly one of the two lists
  have hmem := (h.mem_allLoops i).mpr hi
  have hdisj : ¬ (i ∈ analysis.classification.parallelLoops
      ∧ i ∈ analysis.classification.reductionLoops) := fun hc =>
    (List.nodup_append.mp h.nodup).2.2 i hc.1 i hc.2 rfl
  have hor : i ∈ analysis.classification.parallelLoops
      ∨ i ∈ analysis.classification.reductionLoops := List.mem_append.mp hmem
  by_cases hpar : i ∈ analysis.classification.parallelLoops
  · have hred : i ∉ analysis.classification.reductionLoops := fun hc => hdisj ⟨hpar, hc⟩
    rw [if_pos hpar, if_neg hred, add_zero]
  · rw [if_neg hpar, if_pos (hor.resolve_left hpar), zero_add]

end CoralNPU.Tiling
