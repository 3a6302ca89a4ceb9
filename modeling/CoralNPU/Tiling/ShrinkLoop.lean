import CoralNPU.Lib.Except
import CoralNPU.Lib.Halving
import CoralNPU.Tiling.Classify
import CoralNPU.Tiling.Passes

namespace CoralNPU.Tiling

open Lib

/-!
# Tiling — the shrink loop

The `while` loop of the DTCM pass is a run of `Lib.halveFirst` over the loops of all four
lists, each with the alignment of its list (`ShrinkState.slots`), and possibly a second run
from the full ranges with alignment 1.

* `initialShrinkState_eq` — the tile the loop starts from;
* `shrinkOnce_eq` — everything one attempt can do;
* `ShrinkPhase` — the invariant: which of the two runs the loop is in, and how far;
* `shrinkLoop_exit` — the loop terminates, and how it can end;
* `selectCacheTiles_ok`, `selectCacheTiles_error` — the same for the whole pass.
-/

/-! ### Well-formed analyses -/

/-- The classification lists every loop once, and no loop is empty. -/
structure TilingAnalysis.WellFormed (analysis : TilingAnalysis) : Prop where
  nodup : analysis.classification.allLoops.Nodup
  mem_allLoops : ∀ i, i ∈ analysis.classification.allLoops ↔ i < analysis.staticLoopRanges.length
  one_le_range : ∀ i, i < analysis.staticLoopRanges.length → 1 ≤ analysis.staticLoopRanges.getD i 0

/-- The classification lists every loop once. -/
structure TilingAnalysis.Partitions (analysis : TilingAnalysis) : Prop where
  nodup : analysis.classification.allLoops.Nodup
  mem_allLoops : ∀ i, i ∈ analysis.classification.allLoops ↔ i < analysis.staticLoopRanges.length

/-- A well-formed analysis has every loop in one class. -/
theorem TilingAnalysis.WellFormed.partitions {analysis : TilingAnalysis} (h : analysis.WellFormed) :
    analysis.Partitions := ⟨h.nodup, h.mem_allLoops⟩

/-- What the analysis of an admitted root operation consists of. -/
theorem tilingAnalysis_ok {root : RootOp} {analysis : TilingAnalysis}
    (h : tilingAnalysis root = .ok analysis) :
    analysis.rootTilingOp = root ∧ analysis.classification = classifyLoops root
      ∧ analysis.staticLoopRanges = root.getStaticLoopRanges
      ∧ elemSizeBytes root = .ok analysis.elemSizeBytes := by
  unfold tilingAnalysis at h
  obtain ⟨bytes, hbytes, h⟩ := bind_eq_ok.mp h
  split at h
  · cases h
  · cases h
    exact ⟨rfl, rfl, rfl, hbytes⟩

/-- So has every analysis that succeeds. -/
theorem tilingAnalysis_partitions {root : RootOp} {analysis : TilingAnalysis}
    (h : tilingAnalysis root = .ok analysis) : analysis.Partitions := by
  obtain ⟨-, hclass, hrange, -⟩ := tilingAnalysis_ok h
  refine ⟨?_, fun i => ?_⟩
  · rw [hclass]; exact nodup_allLoops_classifyLoops root
  · rw [hclass, hrange, mem_allLoops_classifyLoops, length_getStaticLoopRanges]

/-- And it is well formed, if all ranges are positive. -/
theorem tilingAnalysis_wellFormed {root : RootOp} {analysis : TilingAnalysis}
    (h : tilingAnalysis root = .ok analysis) (hranges : ∀ r ∈ root.getStaticLoopRanges, 1 ≤ r) :
    analysis.WellFormed := by
  obtain ⟨hnodup, hmem⟩ := tilingAnalysis_partitions h
  obtain ⟨-, -, hrange, -⟩ := tilingAnalysis_ok h
  refine ⟨hnodup, hmem, fun i hi => ?_⟩
  rw [hrange] at hi ⊢
  rw [List.getD_eq_getElem _ _ hi]
  exact hranges _ (List.getElem_mem hi)

/-! ### The helpers of the pass -/

/-- Aligning down, for a positive alignment. -/
theorem alignDown_eq {align : Int} (h : 1 ≤ align) (value : Int) :
    alignDown value align = .ok (value / align * align) := by
  unfold alignDown
  rw [if_neg (by omega)]
  rfl

/-- `shrinkLoops` halves the first loop that is long enough. -/
theorem shrinkLoops_eq {alignment : Int} (h : 1 ≤ alignment) (loops : List Nat) (t : List Int) :
    shrinkLoops loops alignment t = .ok (halveFirst (loops.map (·, alignment)) t) := by
  induction loops with
  | nil => rfl
  | cons i rest ih =>
    unfold shrinkLoops
    rw [List.map_cons, halveFirst]
    by_cases hshort : t.getD i 0 < 2 * alignment
    · rw [if_pos hshort, if_pos hshort, ih]
    · rw [if_neg hshort, if_neg hshort, alignDown_eq h, ok_bind,
        Int.tdiv_eq_ediv_of_nonneg (by omega)]
      rfl

/-- A loop range aligned down; a range up to the alignment is kept. -/
def alignedExtent (alignment extent : Int) : Int :=
  if extent ≤ alignment then extent else extent / alignment * alignment

/-- The loop that aligns: every loop of the class is aligned. -/
theorem alignTileSizes_eq {alignment : Int} (h : 1 ≤ alignment) {loops : List Nat}
    (hnodup : loops.Nodup) (t : List Int) :
    alignTileSizes loops alignment t
      = .ok (scatter loops (fun i => alignedExtent alignment (t.getD i 0)) t) := by
  rw [← foldl_set_eq_scatter hnodup (fun _ x => alignedExtent alignment x) 0 t]
  refine foldlM_eq_ok_foldl (fun sizes i _ => ?_) t
  unfold alignedExtent
  by_cases hle : sizes.getD i 0 ≤ alignment
  · rw [if_pos hle, if_pos hle, set_getD_self]
    rfl
  · rw [if_neg hle, if_neg hle, alignDown_eq h]
    rfl

/-- The loop that caps: every positive size of the class is capped. -/
theorem capTileSizes_eq {loops : List Nat} (hnodup : loops.Nodup) (cap : Int) (t : List Int) :
    capTileSizes loops cap t
      = scatter loops (fun i => if t.getD i 0 > 0 then min (t.getD i 0) cap else t.getD i 0) t := by
  rw [← foldl_set_eq_scatter hnodup (fun _ x => if x > 0 then min x cap else x) 0 t]
  unfold capTileSizes
  congr 1
  funext sizes i
  by_cases hpos : sizes.getD i 0 > 0
  · rw [if_pos hpos, if_pos hpos]
  · rw [if_neg hpos, if_neg hpos, set_getD_self]

/-- A tile that is not positive is below every cap. -/
theorem cap_eq_min {cap : Int} (hcap : 1 ≤ cap) (x : Int) :
    (if x > 0 then min x cap else x) = min x cap := by
  by_cases hx : x > 0
  · rw [if_pos hx]
  · rw [if_neg hx, min_eq_left (by omega)]

/-- The derived alignment is at least 1 and at least every tile it is derived from. -/
theorem alignmentOf_spec (sizes : List Int) (loops : List Nat) :
    1 ≤ alignmentOf sizes loops
      ∧ (∀ i ∈ loops, sizes.getD i 0 ≤ alignmentOf sizes loops)
      ∧ (alignmentOf sizes loops = 1 ∨ ∃ i ∈ loops, alignmentOf sizes loops = sizes.getD i 0) := by
  suffices h : ∀ a : Int, 1 ≤ a →
      let result := loops.foldl (fun align idx =>
        if idx < sizes.length ∧ sizes.getD idx 0 > 0 then max align (sizes.getD idx 0) else align) a
      a ≤ result ∧ (∀ i ∈ loops, sizes.getD i 0 ≤ result)
        ∧ (result = a ∨ ∃ i ∈ loops, result = sizes.getD i 0) from
    h 1 (le_refl 1)
  -- induction on the loops, for every value the maximum may start from
  induction loops with
  | nil => intro a _; simp
  | cons i rest ih =>
    intro a ha
    simp only [List.foldl_cons]
    by_cases hi : i < sizes.length ∧ sizes.getD i 0 > 0
    · rw [if_pos hi]
      obtain ⟨hge, hall, hval⟩ := ih (max a (sizes.getD i 0)) (ha.trans (le_max_left _ _))
      refine ⟨(le_max_left _ _).trans hge, ?_, ?_⟩
      · intro j hj
        rcases List.mem_cons.mp hj with rfl | hj
        · exact (le_max_right _ _).trans hge
        · exact hall j hj
      · rcases hval with hval | ⟨j, hj, hval⟩
        · rcases max_choice a (sizes.getD i 0) with hmax | hmax
          · exact .inl (hval.trans hmax)
          · exact .inr ⟨i, by simp, hval.trans hmax⟩
        · exact .inr ⟨j, by simp [hj], hval⟩
    · rw [if_neg hi]
      obtain ⟨hge, hall, hval⟩ := ih a ha
      refine ⟨hge, ?_, ?_⟩
      · intro j hj
        rcases List.mem_cons.mp hj with rfl | hj
        · by_cases hlen : j < sizes.length
          · have : ¬ sizes.getD j 0 > 0 := fun hpos => hi ⟨hlen, hpos⟩
            omega
          · rw [List.getD_eq_default _ _ (by omega)]
            omega
        · exact hall j hj
      · rcases hval with hval | ⟨j, hj, hval⟩
        · exact .inl hval
        · exact .inr ⟨j, by simp [hj], hval⟩

/-! ### The state of the loop -/

namespace ShrinkState

/-- Every loop with its alignment, in the order the shrink loop visits them. -/
def slots (s : ShrinkState) (loops : LoopClassification) : List Slot :=
  loops.vectorLoops.map (·, s.alignments.vectorAlign)
    ++ loops.unrollLoops.map (·, s.alignments.unrollAlign)
    ++ loops.batchLoops.map (·, s.batchAlign)
    ++ loops.reductionLoops.map (·, s.alignments.reductionAlign)

/-- All alignments are at least 1. -/
structure Aligned (s : ShrinkState) : Prop where
  vectorAlign : 1 ≤ s.alignments.vectorAlign
  unrollAlign : 1 ≤ s.alignments.unrollAlign
  batchAlign : 1 ≤ s.batchAlign
  reductionAlign : 1 ≤ s.alignments.reductionAlign

/-- Some alignment is larger than 1: the fallback is still possible. -/
def HasAlignment (s : ShrinkState) : Prop :=
  s.alignments.vectorAlign > 1 ∨ s.alignments.unrollAlign > 1
    ∨ s.alignments.reductionAlign > 1 ∨ s.batchAlign > 1

/-- It can be decided whether an alignment is left. -/
instance (s : ShrinkState) : Decidable s.HasAlignment :=
  inferInstanceAs (Decidable (_ ∨ _ ∨ _ ∨ _))

/-- The state with which the fallback starts, at a later tile. -/
def unaligned (tiles : List Int) : ShrinkState :=
  { alignments := { vectorAlign := 1, unrollAlign := 1, reductionAlign := 1 }
    batchAlign := 1
    fallback := true
    dtcmTileSizes := tiles }

/-- A state without alignments is aligned. -/
theorem aligned_unaligned (tiles : List Int) : (unaligned tiles).Aligned :=
  ⟨le_refl 1, le_refl 1, le_refl 1, le_refl 1⟩

/-- It has no alignment left. -/
theorem not_hasAlignment_unaligned (tiles : List Int) : ¬ (unaligned tiles).HasAlignment := by
  simp [HasAlignment, unaligned]

/-- There is one slot for each loop. -/
@[simp] theorem slots_map_fst (s : ShrinkState) (loops : LoopClassification) :
    (s.slots loops).map (·.1) = loops.allLoops := by
  simp [slots, LoopClassification.allLoops, Function.comp_def]

/-- The slots depend on the alignments only. -/
@[simp] theorem slots_with_tiles (s : ShrinkState) (loops : LoopClassification) (t : List Int) :
    ({ s with dtcmTileSizes := t } : ShrinkState).slots loops = s.slots loops := rfl

/-- The alignments are positive. -/
theorem one_le_of_mem_slots {s : ShrinkState} (hs : s.Aligned) {loops : LoopClassification} :
    ∀ p ∈ s.slots loops, 1 ≤ p.2 := by
  intro p hp
  simp only [slots, List.mem_append, List.mem_map] at hp
  rcases hp with ((⟨_, _, rfl⟩ | ⟨_, _, rfl⟩) | ⟨_, _, rfl⟩) | ⟨_, _, rfl⟩
  · exact hs.vectorAlign
  · exact hs.unrollAlign
  · exact hs.batchAlign
  · exact hs.reductionAlign

/-- Without alignments larger than 1 every slot has alignment 1. -/
theorem eq_one_of_mem_slots {s : ShrinkState} (hs : s.Aligned) (hno : ¬ s.HasAlignment)
    {loops : LoopClassification} : ∀ p ∈ s.slots loops, p.2 = 1 := by
  obtain ⟨hv, hu, hb, hr⟩ := hs
  unfold HasAlignment at hno
  intro p hp
  simp only [slots, List.mem_append, List.mem_map] at hp
  rcases hp with ((⟨_, _, rfl⟩ | ⟨_, _, rfl⟩) | ⟨_, _, rfl⟩) | ⟨_, _, rfl⟩ <;> simp only <;> omega

end ShrinkState

/-- The diagnostic of a workload that does not fit. -/
def cannotFit : Failure := .passFailure "workload cannot fit in DTCM even with 1x1x... tile size"

/-- **One attempt**: halve a loop, or else fall back, or else give up. -/
theorem shrinkOnce_eq {s : ShrinkState} (hs : s.Aligned) (loops : LoopClassification)
    (ranges : List Int) :
    shrinkOnce loops ranges s =
      match halveFirst (s.slots loops) s.dtcmTileSizes with
      | some tiles => .ok { s with dtcmTileSizes := tiles }
      | none => if s.HasAlignment then .ok (.unaligned ranges) else .error cannotFit := by
  unfold shrinkOnce ShrinkState.slots
  rw [shrinkLoops_eq hs.vectorAlign, shrinkLoops_eq hs.unrollAlign, shrinkLoops_eq hs.batchAlign,
    shrinkLoops_eq hs.reductionAlign, halveFirst_append, halveFirst_append, halveFirst_append]
  simp only [ok_bind]
  cases halveFirst (loops.vectorLoops.map (·, s.alignments.vectorAlign)) s.dtcmTileSizes with
  | some tiles => rfl
  | none =>
    cases halveFirst (loops.unrollLoops.map (·, s.alignments.unrollAlign)) s.dtcmTileSizes with
    | some tiles => rfl
    | none =>
      cases halveFirst (loops.batchLoops.map (·, s.batchAlign)) s.dtcmTileSizes with
      | some tiles => rfl
      | none =>
        cases halveFirst (loops.reductionLoops.map (·, s.alignments.reductionAlign))
            s.dtcmTileSizes with
        | some tiles => rfl
        | none =>
          simp only [Option.none_or]
          by_cases h : s.HasAlignment
          · rw [if_pos h]; unfold ShrinkState.HasAlignment at h; rw [if_pos h]; rfl
          · rw [if_neg h]; unfold ShrinkState.HasAlignment at h; rw [if_neg h]; rfl

/-! ### The tile the loop starts from -/

/-- The first tile of one loop: its range aligned down, and capped for the loops that are. -/
def startTile (cap : Int) (capped : Prop) [Decidable capped] (alignment range : Int) : Int :=
  if capped then min (alignedExtent alignment range) cap else alignedExtent alignment range

/-- An aligned extent is a tile of the loop. -/
theorem alignedExtent_spec {a range : Int} (ha : 1 ≤ a) (hrange : 1 ≤ range) :
    1 ≤ alignedExtent a range ∧ alignedExtent a range ≤ range := by
  unfold alignedExtent
  split
  · exact ⟨hrange, le_refl _⟩
  · have hq : 1 ≤ range / a := by rw [Int.le_ediv_iff_mul_le (by omega)]; omega
    have hle : a ≤ range / a * a := by nlinarith
    exact ⟨by omega, Int.ediv_mul_le _ (by omega)⟩

/-- So is the tile that the shrink loop starts with. -/
theorem startTile_spec {cap : Int} (hcap : 1 ≤ cap) (capped : Prop) [Decidable capped]
    {a range : Int} (ha : 1 ≤ a) (hrange : 1 ≤ range) :
    1 ≤ startTile cap capped a range ∧ startTile cap capped a range ≤ range := by
  obtain ⟨hge, hle⟩ := alignedExtent_spec ha hrange
  unfold startTile
  split
  · exact ⟨le_min hge hcap, (min_le_left _ _).trans hle⟩
  · exact ⟨hge, hle⟩

/-- The loops whose tiles are capped: the vector and the unroll loops. -/
def LoopClassification.IsCapped (loops : LoopClassification) (i : Nat) : Prop :=
  i ∈ loops.vectorLoops ∨ i ∈ loops.unrollLoops

/-- It can be decided whether a loop is capped. -/
instance (loops : LoopClassification) (i : Nat) : Decidable (loops.IsCapped i) :=
  inferInstanceAs (Decidable (_ ∨ _))

/-- The state the shrink loop starts in. -/
structure IsStart (target : Target) (analysis : TilingAnalysis) (config : LoweringConfig)
    (s : ShrinkState) : Prop where
  vectorAlign : s.alignments.vectorAlign = alignmentOf
    (config.getStaticTilingLevelSizes .vectorCommonParallelTiles) analysis.classification.vectorLoops
  unrollAlign : s.alignments.unrollAlign = alignmentOf
    (config.getStaticTilingLevelSizes .vectorCommonParallelTiles) analysis.classification.unrollLoops
  batchAlign : s.batchAlign = alignmentOf
    (config.getStaticTilingLevelSizes .vectorCommonParallelTiles) analysis.classification.batchLoops
  reductionAlign : s.alignments.reductionAlign = alignmentOf
    (config.getStaticTilingLevelSizes .vectorReductionTiles) analysis.classification.reductionLoops
  fallback : s.fallback = false
  length_eq : s.dtcmTileSizes.length = analysis.staticLoopRanges.length
  tile : ∀ p ∈ s.slots analysis.classification, s.dtcmTileSizes.getD p.1 0 =
    startTile (maxParallelTileSize target analysis.rootTilingOp)
      (analysis.classification.IsCapped p.1) p.2 (analysis.staticLoopRanges.getD p.1 0)

/-- The shrink loop starts with positive alignments. -/
theorem IsStart.aligned {target : Target} {analysis : TilingAnalysis} {config : LoweringConfig}
    {s : ShrinkState} (h : IsStart target analysis config s) : s.Aligned where
  vectorAlign := by rw [h.vectorAlign]; exact (alignmentOf_spec _ _).1
  unrollAlign := by rw [h.unrollAlign]; exact (alignmentOf_spec _ _).1
  batchAlign := by rw [h.batchAlign]; exact (alignmentOf_spec _ _).1
  reductionAlign := by rw [h.reductionAlign]; exact (alignmentOf_spec _ _).1

/-- The cap is positive. -/
theorem one_le_maxParallelTileSize (target : Target) (root : RootOp) :
    1 ≤ maxParallelTileSize target root := by
  unfold maxParallelTileSize
  split <;> decide

/-- **The start** of the shrink loop always exists and is as `IsStart` says. -/
theorem initialShrinkState_ok {analysis : TilingAnalysis} (h : analysis.Partitions)
    (target : Target) (config : LoweringConfig) :
    ∃ s, initialShrinkState target analysis config = .ok s
      ∧ IsStart target analysis config s := by
  obtain ⟨hnodup, hmem⟩ := h
  -- the four lists are duplicate-free and disjoint
  unfold LoopClassification.allLoops at hnodup hmem
  obtain ⟨hvub, hr, hdr⟩ := List.nodup_append.mp hnodup
  obtain ⟨hvu, hb, hdb⟩ := List.nodup_append.mp hvub
  obtain ⟨hv, hu, hdu⟩ := List.nodup_append.mp hvu
  unfold initialShrinkState
  simp only [alignTileSizes_eq (alignmentOf_spec _ _).1 hv,
    alignTileSizes_eq (alignmentOf_spec _ _).1 hu, alignTileSizes_eq (alignmentOf_spec _ _).1 hb,
    alignTileSizes_eq (alignmentOf_spec _ _).1 hr, ok_bind, pure_eq_ok]
  refine ⟨_, rfl, rfl, rfl, rfl, rfl, rfl, ?_, ?_⟩
  · simp only [capTileSizes_eq hv, capTileSizes_eq hu, length_scatter]
  · intro p hp
    have hlt : ∀ i, i ∈ analysis.classification.vectorLoops ∨ i ∈ analysis.classification.unrollLoops
        ∨ i ∈ analysis.classification.batchLoops ∨ i ∈ analysis.classification.reductionLoops →
        i < analysis.staticLoopRanges.length := by
      intro i hi
      rw [← hmem]
      simp only [List.mem_append]
      tauto
    simp only [List.mem_append] at hdr hdb
    simp only [ShrinkState.slots, List.mem_append, List.mem_map] at hp
    unfold startTile LoopClassification.IsCapped
    rcases hp with ((⟨i, hi, rfl⟩ | ⟨i, hi, rfl⟩) | ⟨i, hi, rfl⟩) | ⟨i, hi, rfl⟩
    · have hiu : i ∉ analysis.classification.unrollLoops := fun hc => hdu i hi i hc rfl
      have hib : i ∉ analysis.classification.batchLoops := fun hc => hdb i (.inl hi) i hc rfl
      have hir : i ∉ analysis.classification.reductionLoops := fun hc =>
        hdr i (.inl (.inl hi)) i hc rfl
      simp only [capTileSizes_eq hv, capTileSizes_eq hu, getD_scatter, length_scatter, hi, hiu, hib,
        hir, hlt i (.inl hi), true_and, false_and, if_true, if_false, true_or]
      exact cap_eq_min (one_le_maxParallelTileSize _ _) _
    · have hiv : i ∉ analysis.classification.vectorLoops := fun hc => hdu i hc i hi rfl
      have hib : i ∉ analysis.classification.batchLoops := fun hc => hdb i (.inr hi) i hc rfl
      have hir : i ∉ analysis.classification.reductionLoops := fun hc =>
        hdr i (.inl (.inr hi)) i hc rfl
      simp only [capTileSizes_eq hv, capTileSizes_eq hu, getD_scatter, length_scatter, hi, hiv, hib,
        hir, hlt i (.inr (.inl hi)), true_and, false_and, if_true, if_false, or_true]
      exact cap_eq_min (one_le_maxParallelTileSize _ _) _
    · have hiv : i ∉ analysis.classification.vectorLoops := fun hc => hdb i (.inl hc) i hi rfl
      have hiu : i ∉ analysis.classification.unrollLoops := fun hc => hdb i (.inr hc) i hi rfl
      have hir : i ∉ analysis.classification.reductionLoops := fun hc =>
        hdr i (.inr hi) i hc rfl
      simp only [capTileSizes_eq hv, capTileSizes_eq hu, getD_scatter, length_scatter, hi, hiv, hiu,
        hir, hlt i (.inr (.inr (.inl hi))), true_and, false_and, if_true, if_false, or_self]
    · have hiv : i ∉ analysis.classification.vectorLoops := fun hc =>
        hdr i (.inl (.inl hc)) i hi rfl
      have hiu : i ∉ analysis.classification.unrollLoops := fun hc =>
        hdr i (.inl (.inr hc)) i hi rfl
      have hib : i ∉ analysis.classification.batchLoops := fun hc => hdr i (.inr hc) i hi rfl
      simp only [capTileSizes_eq hv, capTileSizes_eq hu, getD_scatter, length_scatter, hi, hiv, hiu,
        hib, hlt i (.inr (.inr (.inr hi))), true_and, false_and, if_true, if_false, or_self]

/-! ### The invariant of the loop -/

/-- The states the shrink loop passes through: those of the run with the derived
    alignments, and those of the fallback run from the full ranges. -/
inductive ShrinkPhase (loops : LoopClassification) (ranges : List Int) (s₀ : ShrinkState) :
    ShrinkState → Prop
  | aligned {tiles : List Int} (h : Halved (s₀.slots loops) s₀.dtcmTileSizes tiles) :
    ShrinkPhase loops ranges s₀ { s₀ with dtcmTileSizes := tiles }
  | fallback {tiles : List Int}
    (h : Halved ((ShrinkState.unaligned ranges).slots loops) ranges tiles) :
    ShrinkPhase loops ranges s₀ (.unaligned tiles)

/-- How many more attempts there can be. -/
def shrinkMeasure (ranges : List Int) (s : ShrinkState) : Nat :=
  totalTileSize s.dtcmTileSizes + if s.fallback then 0 else totalTileSize ranges + 1

section Run

variable {target : Target} {analysis : TilingAnalysis} {config : LoweringConfig}
  {s₀ : ShrinkState}

/-- The slots of a state are the loops, each once. -/
theorem slots_nodup (h : analysis.Partitions) (s : ShrinkState) :
    ((s.slots analysis.classification).map (·.1)).Nodup := by
  rw [ShrinkState.slots_map_fst]
  exact h.nodup

/-- Every loop has a slot. -/
theorem mem_slots (h : analysis.Partitions) (s : ShrinkState) {i : Nat} :
    (∃ p ∈ s.slots analysis.classification, p.1 = i) ↔ i < analysis.staticLoopRanges.length := by
  rw [← h.mem_allLoops, ← ShrinkState.slots_map_fst s, List.mem_map]

/-- Every slot belongs to a loop. -/
theorem slots_lt (h : analysis.Partitions) (s : ShrinkState) :
    ∀ p ∈ s.slots analysis.classification, p.1 < analysis.staticLoopRanges.length :=
  fun p hp => (mem_slots h s).mp ⟨p, hp, rfl⟩

/-- The first tile of every loop lies between 1 and its range. -/
theorem IsStart.tile_spec (hs₀ : IsStart target analysis config s₀) (h : analysis.WellFormed)
    {i : Nat} (hi : i < analysis.staticLoopRanges.length) :
    1 ≤ s₀.dtcmTileSizes.getD i 0
      ∧ s₀.dtcmTileSizes.getD i 0 ≤ analysis.staticLoopRanges.getD i 0 := by
  obtain ⟨p, hp, rfl⟩ := (mem_slots h.partitions s₀).mpr hi
  rw [hs₀.tile p hp]
  exact startTile_spec (one_le_maxParallelTileSize _ _) _
    (ShrinkState.one_le_of_mem_slots hs₀.aligned p hp) (h.one_le_range p.1 hi)

/-- In both phases the alignments are positive. -/
theorem ShrinkPhase.aligned_state (hs₀ : IsStart target analysis config s₀) {s : ShrinkState}
    (hs : ShrinkPhase analysis.classification analysis.staticLoopRanges s₀ s) : s.Aligned := by
  cases hs with
  | aligned h => exact ⟨hs₀.aligned.1, hs₀.aligned.2, hs₀.aligned.3, hs₀.aligned.4⟩
  | fallback h => exact ShrinkState.aligned_unaligned _

/-- In both phases there is one size for each loop. -/
theorem ShrinkPhase.length_eq (hs₀ : IsStart target analysis config s₀) {s : ShrinkState}
    (hs : ShrinkPhase analysis.classification analysis.staticLoopRanges s₀ s) :
    s.dtcmTileSizes.length = analysis.staticLoopRanges.length := by
  cases hs with
  | aligned h => exact h.length_eq.trans hs₀.length_eq
  | fallback h => exact h.length_eq

/-- A run that starts between 1 and the ranges stays there. -/
private theorem halved_bounds (h : analysis.WellFormed) {s : ShrinkState} (hs : s.Aligned)
    {u t : List Int} (hhalved : Halved (s.slots analysis.classification) u t) {i : Nat}
    (hi : i < analysis.staticLoopRanges.length)
    (hu : 1 ≤ u.getD i 0 ∧ u.getD i 0 ≤ analysis.staticLoopRanges.getD i 0) :
    1 ≤ t.getD i 0 ∧ t.getD i 0 ≤ analysis.staticLoopRanges.getD i 0 := by
  obtain ⟨p, hp, rfl⟩ := (mem_slots h.partitions s).mpr hi
  have hpos := ShrinkState.one_le_of_mem_slots hs p hp
  rcases hhalved.slot p hp with heq | ⟨_, hge, _, hlt⟩ <;> omega

/-- **Bounds.** The tile of every loop lies between 1 and its range, in every state. -/
theorem ShrinkPhase.tile_spec (hs₀ : IsStart target analysis config s₀) (h : analysis.WellFormed)
    {s : ShrinkState} (hs : ShrinkPhase analysis.classification analysis.staticLoopRanges s₀ s)
    {i : Nat} (hi : i < analysis.staticLoopRanges.length) :
    1 ≤ s.dtcmTileSizes.getD i 0
      ∧ s.dtcmTileSizes.getD i 0 ≤ analysis.staticLoopRanges.getD i 0 := by
  cases hs with
  | aligned hh => exact halved_bounds h hs₀.aligned hh hi (hs₀.tile_spec h hi)
  | fallback hh =>
    exact halved_bounds h (ShrinkState.aligned_unaligned _) hh hi
      ⟨h.one_le_range i hi, le_refl _⟩

/-- What can follow a state: a halved loop, or the start of the fallback. -/
theorem shrinkOnce_ok {s s' : ShrinkState} (hs : s.Aligned) {loops : LoopClassification}
    {ranges : List Int} (hstep : shrinkOnce loops ranges s = .ok s') :
    (∃ tiles, halveFirst (s.slots loops) s.dtcmTileSizes = some tiles
      ∧ s' = { s with dtcmTileSizes := tiles })
    ∨ (halveFirst (s.slots loops) s.dtcmTileSizes = none ∧ s.HasAlignment
      ∧ s' = .unaligned ranges) := by
  rw [shrinkOnce_eq hs] at hstep
  cases hh : halveFirst (s.slots loops) s.dtcmTileSizes with
  | some tiles =>
    rw [hh] at hstep
    exact .inl ⟨tiles, rfl, (Except.ok.inj hstep).symm⟩
  | none =>
    rw [hh] at hstep
    by_cases ha : s.HasAlignment
    · simp only [if_pos ha] at hstep
      exact .inr ⟨rfl, ha, (Except.ok.inj hstep).symm⟩
    · simp only [if_neg ha] at hstep
      cases hstep

/-- **A step keeps the phase.** -/
theorem ShrinkPhase.step (hs₀ : IsStart target analysis config s₀) (h : analysis.Partitions)
    {s s' : ShrinkState} (hs : ShrinkPhase analysis.classification analysis.staticLoopRanges s₀ s)
    (hstep : shrinkOnce analysis.classification analysis.staticLoopRanges s = .ok s') :
    ShrinkPhase analysis.classification analysis.staticLoopRanges s₀ s' := by
  rcases shrinkOnce_ok (hs.aligned_state hs₀) hstep with ⟨tiles, hhalve, rfl⟩ | ⟨-, -, rfl⟩
  · cases hs with
    | aligned hh =>
      refine .aligned (hh.step (slots_nodup h s₀)
        (ShrinkState.one_le_of_mem_slots hs₀.aligned) (fun p hp => ?_) hhalve)
      rw [hs₀.length_eq]
      exact slots_lt h s₀ p hp
    | fallback hh =>
      exact .fallback (hh.step (slots_nodup h _)
        (ShrinkState.one_le_of_mem_slots (ShrinkState.aligned_unaligned _))
        (slots_lt h _) hhalve)
  · exact .fallback (Halved.refl _ _)

/-- **A step lowers the measure.** -/
theorem shrinkMeasure_lt (hs₀ : IsStart target analysis config s₀) (h : analysis.Partitions)
    {s s' : ShrinkState} (hs : ShrinkPhase analysis.classification analysis.staticLoopRanges s₀ s)
    (hstep : shrinkOnce analysis.classification analysis.staticLoopRanges s = .ok s') :
    shrinkMeasure analysis.staticLoopRanges s' < shrinkMeasure analysis.staticLoopRanges s := by
  have hal := hs.aligned_state hs₀
  rcases shrinkOnce_ok hal hstep with ⟨tiles, hhalve, rfl⟩ | ⟨-, ha, rfl⟩
  · obtain ⟨pre, i, a, post, hsplit, -, hlong, rfl⟩ := halveFirst_eq_some hhalve
    have hmem : (i, a) ∈ s.slots analysis.classification := by rw [hsplit]; simp
    have hi := slots_lt h s _ hmem
    have hpos : 1 ≤ a := ShrinkState.one_le_of_mem_slots hal _ hmem
    obtain ⟨-, hge, hhalf⟩ := halve_spec hpos hlong
    have hlt : totalTileSize (s.dtcmTileSizes.set i (halve a (s.dtcmTileSizes.getD i 0)))
        < totalTileSize s.dtcmTileSizes :=
      sum_toNat_set_lt (by rw [hs.length_eq hs₀]; exact hi) (by omega) (by omega)
    unfold shrinkMeasure
    simp only
    omega
  · -- only the first run has alignments, so this is the one fallback
    cases hs with
    | aligned hh =>
      simp only [shrinkMeasure, ShrinkState.unaligned, hs₀.fallback, if_true, Bool.false_eq_true,
        if_false]
      omega
    | fallback hh => exact absurd ha (ShrinkState.not_hasAlignment_unaligned _)

/-- A continued iteration is an attempt. -/
theorem shrinkBody_inl {isOver : List Int → Except Failure Bool} {loops : LoopClassification}
    {ranges : List Int} {s s' : ShrinkState}
    (h : shrinkBody isOver loops ranges s = .inl s') :
    isOver s.dtcmTileSizes = .ok true ∧ shrinkOnce loops ranges s = .ok s' := by
  unfold shrinkBody at h
  cases ho : isOver s.dtcmTileSizes with
  | error e => rw [ho] at h; cases h
  | ok b =>
    rw [ho] at h
    cases b with
    | false => cases h
    | true =>
      refine ⟨rfl, ?_⟩
      cases hstep : shrinkOnce loops ranges s with
      | error e => simp only [hstep] at h; cases h
      | ok t => simp only [hstep] at h; rw [Sum.inl.inj h]

/-- **The shrink loop** terminates, in a state of one of the two runs from which the body
    exits.  `J` is any further invariant that steps from over-budget states keep. -/
theorem shrinkLoop_exit (hs₀ : IsStart target analysis config s₀) (h : analysis.Partitions)
    (isOver : List Int → Except Failure Bool) (J : ShrinkState → Prop) (hJ₀ : J s₀)
    (hJ : ∀ s s', ShrinkPhase analysis.classification analysis.staticLoopRanges s₀ s → J s →
      isOver s.dtcmTileSizes = .ok true →
      shrinkOnce analysis.classification analysis.staticLoopRanges s = .ok s' → J s') :
    ∃ r s, iterate (shrinkBody isOver analysis.classification analysis.staticLoopRanges)
        (shrinkFuel analysis.staticLoopRanges s₀) s₀ = some r
      ∧ ShrinkPhase analysis.classification analysis.staticLoopRanges s₀ s ∧ J s
      ∧ shrinkBody isOver analysis.classification analysis.staticLoopRanges s = .inr r := by
  have hstart : ShrinkPhase analysis.classification analysis.staticLoopRanges s₀ s₀ :=
    .aligned (Halved.refl _ _)
  obtain ⟨r, hr⟩ := iterate_isSome
    (ShrinkPhase analysis.classification analysis.staticLoopRanges s₀)
    (shrinkMeasure analysis.staticLoopRanges)
    (fun s s' hs hb => ⟨hs.step hs₀ h (shrinkBody_inl hb).2,
      shrinkMeasure_lt hs₀ h hs (shrinkBody_inl hb).2⟩)
    (shrinkFuel analysis.staticLoopRanges s₀) s₀ hstart
    (by unfold shrinkMeasure shrinkFuel; split <;> omega)
  obtain ⟨s, ⟨hs, hJs⟩, hexit⟩ := iterate_exit
    (fun s => ShrinkPhase analysis.classification analysis.staticLoopRanges s₀ s ∧ J s)
    (fun s s' hs hb => ⟨hs.1.step hs₀ h (shrinkBody_inl hb).2,
      hJ s s' hs.1 hs.2 (shrinkBody_inl hb).1 (shrinkBody_inl hb).2⟩)
    _ s₀ r ⟨hstart, hJ₀⟩ hr
  exact ⟨r, s, hr, hs, hJs, hexit⟩

/-- The loop returns the state it stops in, and that state is within the budget. -/
theorem shrinkBody_exit {isOver : List Int → Except Failure Bool} {loops : LoopClassification}
    {ranges : List Int} {s s' : ShrinkState}
    (hexit : shrinkBody isOver loops ranges s = .inr (.ok s')) :
    s = s' ∧ isOver s.dtcmTileSizes = .ok false := by
  unfold shrinkBody at hexit
  cases ho : isOver s.dtcmTileSizes with
  | error e => rw [ho] at hexit; cases hexit
  | ok b =>
    rw [ho] at hexit
    cases b with
    | false => exact ⟨Except.ok.inj (Sum.inr.inj hexit), rfl⟩
    | true =>
      cases hstep : shrinkOnce loops ranges s with
      | ok t => simp only [hstep] at hexit; cases hexit
      | error e => simp only [hstep] at hexit; cases hexit

/-- Giving up means that every tile is 1. -/
theorem shrinkOnce_error (hs₀ : IsStart target analysis config s₀) (h : analysis.WellFormed)
    {s : ShrinkState} (hs : ShrinkPhase analysis.classification analysis.staticLoopRanges s₀ s)
    {e : Failure} (hstep : shrinkOnce analysis.classification analysis.staticLoopRanges s = .error e) :
    e = cannotFit ∧ ∀ i, i < analysis.staticLoopRanges.length → s.dtcmTileSizes.getD i 0 = 1 := by
  have hal := hs.aligned_state hs₀
  rw [shrinkOnce_eq hal] at hstep
  cases hh : halveFirst (s.slots analysis.classification) s.dtcmTileSizes with
  | some tiles => rw [hh] at hstep; cases hstep
  | none =>
    rw [hh] at hstep
    by_cases ha : s.HasAlignment
    · simp only [if_pos ha] at hstep; cases hstep
    · simp only [if_neg ha] at hstep
      refine ⟨(Except.error.inj hstep).symm, fun i hi => ?_⟩
      obtain ⟨p, hp, rfl⟩ := (mem_slots h.partitions s).mpr hi
      have hshort := halveFirst_eq_none.mp hh p hp
      have hone := ShrinkState.eq_one_of_mem_slots hal ha p hp
      have hge := (hs.tile_spec hs₀ h hi).1
      omega

/-- **The whole pass**: the three ways in which it ends, and the state each ends in. -/
theorem selectCacheTiles_cases (h : analysis.WellFormed) (normalize : Int → Int)
    (getBound : BoundFn) (limit : Int) (info : CompilationInfo) (target : Target)
    (hs₀ : IsStart target analysis info.loweringConfig s₀)
    (hinit : initialShrinkState target analysis info.loweringConfig = .ok s₀)
    (J : ShrinkState → Prop) (hJ₀ : J s₀)
    (hJ : ∀ s s', ShrinkPhase analysis.classification analysis.staticLoopRanges s₀ s → J s →
      isOverBudget normalize getBound analysis.rootTilingOp limit s.dtcmTileSizes = .ok true →
      shrinkOnce analysis.classification analysis.staticLoopRanges s = .ok s' → J s') :
    ∃ s, ShrinkPhase analysis.classification analysis.staticLoopRanges s₀ s ∧ J s ∧
      ((isOverBudget normalize getBound analysis.rootTilingOp limit s.dtcmTileSizes = .ok false
          ∧ selectCacheTiles normalize getBound limit (some info) target analysis
            = .ok { info with loweringConfig := dtcmConfig analysis info.loweringConfig s })
        ∨ (∃ e, isOverBudget normalize getBound analysis.rootTilingOp limit s.dtcmTileSizes
            = .error e
          ∧ selectCacheTiles normalize getBound limit (some info) target analysis = .error e)
        ∨ (isOverBudget normalize getBound analysis.rootTilingOp limit s.dtcmTileSizes = .ok true
          ∧ (∀ i, i < analysis.staticLoopRanges.length → s.dtcmTileSizes.getD i 0 = 1)
          ∧ selectCacheTiles normalize getBound limit (some info) target analysis
            = .error cannotFit)) := by
  obtain ⟨r, s, hr, hs, hJs, hexit⟩ := shrinkLoop_exit hs₀ h.partitions
    (isOverBudget normalize getBound analysis.rootTilingOp limit) J hJ₀ hJ
  refine ⟨s, hs, hJs, ?_⟩
  have hselect : selectCacheTiles normalize getBound limit (some info) target analysis
      = r >>= fun s => .ok { info with
          loweringConfig := dtcmConfig analysis info.loweringConfig s } := by
    simp only [selectCacheTiles, hinit, ok_bind, hr]
    rfl
  unfold shrinkBody at hexit
  cases ho : isOverBudget normalize getBound analysis.rootTilingOp limit s.dtcmTileSizes with
  | error e =>
    simp only [ho] at hexit
    obtain rfl := Sum.inr.inj hexit
    exact .inr (.inl ⟨e, rfl, hselect⟩)
  | ok b =>
    cases b with
    | false =>
      simp only [ho] at hexit
      obtain rfl := Sum.inr.inj hexit
      exact .inl ⟨rfl, hselect⟩
    | true =>
      simp only [ho] at hexit
      cases hstep : shrinkOnce analysis.classification analysis.staticLoopRanges s with
      | ok s' => rw [hstep] at hexit; cases hexit
      | error e =>
        rw [hstep] at hexit
        obtain rfl := Sum.inr.inj hexit
        obtain ⟨rfl, hones⟩ := shrinkOnce_error hs₀ h hs hstep
        exact .inr (.inr ⟨rfl, hones, hselect⟩)

end Run

end CoralNPU.Tiling
