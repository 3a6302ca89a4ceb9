import CoralNPU.Tiling.CacheConfig

namespace CoralNPU.Tiling

open Lib

/-!
# Tiling — the register tiles

What the register pass assigns to each loop, as a function of the loop.

* `registerTile`, `reductionTile` — the tile of a parallel and of a reduction loop;
* `getD_registerParallelSizes`, `getD_registerReductionSizes` — the pass scatters them;
* `selectRegisterTiles_ok` — what a successful register pass leaves behind;
* `registerAlignments_pos` — the alignments of a successful pass are positive where used.
-/

/-- The register tile of a parallel loop. -/
def registerTile (loops : LoopClassification) (ranges : List Int) (vectorWidth : Int)
    (alignments : Alignments) (hasMatrix : Bool) (i : Nat) : Int :=
  let range := ranges.getD i 0
  if loops.unrollLoops.isEmpty then
    if i ∈ loops.vectorLoops ∧ some i = loops.vectorLoops.getLast? then min range vectorWidth else 1
  else if i ∈ loops.vectorLoops then min range alignments.vectorAlign
  else if i ∈ loops.unrollLoops then unrollTile range alignments.unrollAlign
  else min range (if hasMatrix then 1 else alignments.vectorAlign)

/-- The register tile of a reduction loop. -/
def reductionTile (ranges : List Int) (alignments : Alignments) (i : Nat) : Int :=
  min (ranges.getD i 0) alignments.reductionAlign

section Sizes

variable {loops : LoopClassification} {ranges : List Int} {vw : Int} {alignments : Alignments}
  {hasMatrix : Bool} {i : Nat}

/-- One size for each loop. -/
@[simp] theorem length_registerParallelSizes :
    (registerParallelSizes loops ranges vw alignments hasMatrix).length = ranges.length := by
  unfold registerParallelSizes
  split <;> simp

/-- One size for each loop. -/
@[simp] theorem length_registerReductionSizes :
    (registerReductionSizes loops ranges alignments).length = ranges.length := by
  simp [registerReductionSizes]

/-- **The register level of the parallel loops**, entry by entry. -/
theorem getD_registerParallelSizes (hnodup : loops.allLoops.Nodup) (hi : i < ranges.length) :
    (registerParallelSizes loops ranges vw alignments hasMatrix).getD i 0
      = if i ∈ loops.parallelLoops then registerTile loops ranges vw alignments hasMatrix i
        else 0 := by
  obtain ⟨hvub, -, -⟩ := List.nodup_append.mp hnodup
  obtain ⟨hvu, -, hdb⟩ := List.nodup_append.mp hvub
  obtain ⟨-, -, hdu⟩ := List.nodup_append.mp hvu
  have hvb : i ∈ loops.vectorLoops → i ∉ loops.batchLoops := fun hv hb =>
    hdb i (List.mem_append_left _ hv) i hb rfl
  have hub : i ∈ loops.unrollLoops → i ∉ loops.batchLoops := fun hu hb =>
    hdb i (List.mem_append_right _ hu) i hb rfl
  have hvu' : i ∈ loops.vectorLoops → i ∉ loops.unrollLoops := fun hv hu => hdu i hv i hu rfl
  unfold registerParallelSizes registerTile
  by_cases hempty : loops.unrollLoops.isEmpty
  · have hnil : loops.unrollLoops = [] := List.isEmpty_iff.mp hempty
    simp only [hempty, if_true, getD_scatter, length_scatter, List.length_replicate, hi, and_true,
      getD_replicate_self, mem_parallelLoops]
    by_cases hb : i ∈ loops.batchLoops
    · have hv : i ∉ loops.vectorLoops := fun hv => hvb hv hb
      simp [hb, hv]
    · by_cases hv : i ∈ loops.vectorLoops
      · simp [hb, hv]
      · simp [hb, hv, hnil]
  · simp only [hempty, if_false, getD_scatter, length_scatter, List.length_replicate, hi, and_true,
      getD_replicate_self, mem_parallelLoops, Bool.false_eq_true]
    by_cases hb : i ∈ loops.batchLoops
    · have hv : i ∉ loops.vectorLoops := fun hv => hvb hv hb
      have hu : i ∉ loops.unrollLoops := fun hu => hub hu hb
      simp [hb, hv, hu]
    · by_cases hu : i ∈ loops.unrollLoops
      · have hv : i ∉ loops.vectorLoops := fun hv => hvu' hv hu
        simp [hb, hu, hv]
      · by_cases hv : i ∈ loops.vectorLoops <;> simp [hb, hu, hv]

/-- **The register level of the reduction loops**, entry by entry. -/
theorem getD_registerReductionSizes (hi : i < ranges.length) :
    (registerReductionSizes loops ranges alignments).getD i 0
      = if i ∈ loops.reductionLoops then reductionTile ranges alignments i else 0 := by
  simp only [registerReductionSizes, getD_scatter, List.length_replicate, hi, and_true,
    getD_replicate_self, reductionTile]

end Sizes

/-! ### The pass -/

/-- **A successful register pass**: its vector width, its alignments and its configuration. -/
theorem selectRegisterTiles_ok {options : RegisterOptions} {target : Target}
    {analysis : TilingAnalysis} {info : CompilationInfo}
    (h : selectRegisterTiles options target analysis = .ok info) :
    ∃ vw alignments, vectorWidth (vlenBits target options) analysis.elemSizeBytes = .ok vw
      ∧ registerAlignments target options analysis vw = .ok alignments
      ∧ info.loweringConfig =
        [(.vectorCommonParallelTiles, registerParallelSizes analysis.classification
            analysis.staticLoopRanges vw alignments (hasMatrix target analysis.rootTilingOp)),
          (.vectorReductionTiles, registerReductionSizes analysis.classification
            analysis.staticLoopRanges alignments)] := by
  unfold selectRegisterTiles at h
  obtain ⟨vw, hvw, h⟩ := bind_eq_ok.mp h
  obtain ⟨alignments, hal, h⟩ := bind_eq_ok.mp h
  cases h
  exact ⟨vw, alignments, hvw, hal, rfl⟩

/-- A vector has at least one lane. -/
theorem vectorWidth_pos {vlenBits elemSizeBytes vw : Int}
    (h : vectorWidth vlenBits elemSizeBytes = .ok vw) : 1 ≤ vw := by
  unfold vectorWidth at h
  obtain ⟨w, -, h⟩ := bind_eq_ok.mp h
  split at h
  · cases h
  · cases h
    omega

/-- The options of the register pass the results are about. -/
structure RegisterOptions.NonNegative (options : RegisterOptions) : Prop where
  vectorAlignment : 0 ≤ options.vectorAlignment
  unrollAlignment : 0 ≤ options.unrollAlignment
  reductionAlignment : 0 ≤ options.reductionAlignment
  parallelAlignment : 0 ≤ options.parallelAlignment

/-- With an unroll loop, the alignments of the vector and unroll loops are positive. -/
theorem resolveAlignments_pos {vw numRegisters parallelAlignment : Int} (hvw : 1 ≤ vw)
    {loops : LoopClassification} {ranges : List Int} {initial alignments : Alignments}
    (hv : 0 ≤ initial.vectorAlign) (hu : 0 ≤ initial.unrollAlign)
    (h : resolveAlignments vw numRegisters loops ranges parallelAlignment initial = .ok alignments)
    (hunroll : loops.unrollLoops.isEmpty = false) :
    1 ≤ alignments.vectorAlign ∧ 1 ≤ alignments.unrollAlign
      ∧ alignments.reductionAlign = initial.reductionAlign := by
  unfold resolveAlignments at h
  simp only [hunroll, Bool.false_eq_true, if_false] at h
  -- the vector alignment is the option, or at most 8 and at least 1
  have hva : ∀ a : Alignments, a = (if initial.vectorAlign = 0
      then { initial with vectorAlign := min vw 8 } else initial) →
      1 ≤ a.vectorAlign ∧ a.unrollAlign = initial.unrollAlign
        ∧ a.reductionAlign = initial.reductionAlign := by
    rintro a rfl
    by_cases hzero : initial.vectorAlign = 0
    · rw [if_pos hzero]
      exact ⟨le_min hvw (by norm_num), rfl, rfl⟩
    · rw [if_neg hzero]
      exact ⟨by omega, rfl, rfl⟩
  obtain ⟨h1, h2, h3⟩ := hva _ rfl
  generalize (if initial.vectorAlign = 0
      then { initial with vectorAlign := min vw 8 } else initial) = a at h h1 h2 h3
  by_cases hua : a.unrollAlign ≠ 0
  · rw [if_pos hua] at h
    cases h
    exact ⟨h1, by omega, h3⟩
  · rw [if_neg hua] at h
    obtain ⟨limit, -, h⟩ := bind_eq_ok.mp h
    obtain ⟨full, -, h⟩ := bind_eq_ok.mp h
    split at h
    · cases h
    · cases h
      refine ⟨h1, ?_, h3⟩
      show 1 ≤ vw * min (max 1 limit) full
      have hmin : 1 ≤ min (max 1 limit) full := le_min (le_max_left _ _) (by omega)
      nlinarith

/-- **Positive alignments.** With an unroll loop, a successful register pass has positive
    vector and unroll alignments; its reduction alignment is not negative. -/
theorem registerAlignments_pos {target : Target} {options : RegisterOptions}
    (hoptions : options.NonNegative) {analysis : TilingAnalysis} {vw : Int} (hvw : 1 ≤ vw)
    {alignments : Alignments}
    (h : registerAlignments target options analysis vw = .ok alignments) :
    (analysis.classification.unrollLoops.isEmpty = false →
      1 ≤ alignments.vectorAlign ∧ 1 ≤ alignments.unrollAlign)
    ∧ 0 ≤ alignments.reductionAlign := by
  unfold registerAlignments at h
  by_cases hm : hasMatrix target analysis.rootTilingOp
  · simp only [hm, if_true] at h
    cases h
    exact ⟨fun _ => ⟨by norm_num, by norm_num⟩, by norm_num⟩
  · simp only [hm, Bool.false_eq_true, if_false] at h
    by_cases hunroll : analysis.classification.unrollLoops.isEmpty = false
    · obtain ⟨h1, h2, h3⟩ := resolveAlignments_pos hvw hoptions.vectorAlignment
        hoptions.unrollAlignment h hunroll
      exact ⟨fun _ => ⟨h1, h2⟩, by rw [h3]; exact hoptions.reductionAlignment⟩
    · refine ⟨fun hc => absurd hc hunroll, ?_⟩
      have hempty : analysis.classification.unrollLoops.isEmpty = true := by simpa using hunroll
      have hr := hoptions.reductionAlignment
      unfold resolveAlignments at h
      simp only [hempty, if_true] at h
      split at h
      · cases h; exact hr
      · split at h <;> cases h <;> exact hr

/-! ### Register tiles and the alignment derived from them -/

/-- The tiles of one list of loops against one alignment: each is at most 1, or the range
    of its loop limited to the alignment. -/
def Limited (tile range : Nat → Int) (alignment : Int) (loops : List Nat) : Prop :=
  ∀ i ∈ loops, tile i ≤ 1 ∨ tile i = min (range i) alignment

/-- The largest tile of a list of loops, at least 1. -/
def largestTile (tile : Nat → Int) (loops : List Nat) : Int :=
  loops.foldl (fun a i => max a (tile i)) 1

/-- The alignment that the DTCM pass takes from a level is the largest tile in it. -/
theorem alignmentOf_eq_largestTile {sizes : List Int} {tile : Nat → Int} {loops : List Nat}
    (h : ∀ i ∈ loops, i < sizes.length ∧ sizes.getD i 0 = tile i) :
    alignmentOf sizes loops = largestTile tile loops := by
  suffices hgen : ∀ a : Int, 1 ≤ a →
      loops.foldl (fun align idx =>
        if idx < sizes.length ∧ sizes.getD idx 0 > 0 then max align (sizes.getD idx 0) else align) a
      = loops.foldl (fun a i => max a (tile i)) a from hgen 1 (le_refl 1)
  induction loops with
  | nil => intro a _; rfl
  | cons i rest ih =>
    intro a ha
    obtain ⟨hi, htile⟩ := h i (by simp)
    have ih := ih fun j hj => h j (by simp [hj])
    rw [List.foldl_cons, List.foldl_cons, htile]
    by_cases hpos : i < sizes.length ∧ tile i > 0
    · rw [if_pos hpos]
      exact ih _ (ha.trans (le_max_left _ _))
    · -- a tile that is not positive does not change the maximum
      have hle : tile i ≤ a := by
        have : ¬ tile i > 0 := fun hc => hpos ⟨hi, hc⟩
        omega
      rw [if_neg hpos, max_eq_left hle]
      exact ih a ha

/-- The largest tile is the least bound of the tiles, and of 1. -/
theorem largestTile_spec (tile : Nat → Int) (loops : List Nat) :
    1 ≤ largestTile tile loops ∧ (∀ i ∈ loops, tile i ≤ largestTile tile loops)
      ∧ ∀ b, 1 ≤ b → (∀ i ∈ loops, tile i ≤ b) → largestTile tile loops ≤ b := by
  suffices hgen : ∀ a : Int,
      a ≤ loops.foldl (fun a i => max a (tile i)) a
      ∧ (∀ i ∈ loops, tile i ≤ loops.foldl (fun a i => max a (tile i)) a)
      ∧ ∀ b, a ≤ b → (∀ i ∈ loops, tile i ≤ b) → loops.foldl (fun a i => max a (tile i)) a ≤ b from
    hgen 1
  induction loops with
  | nil => intro a; simp
  | cons i rest ih =>
    intro a
    obtain ⟨h1, h2, h3⟩ := ih (max a (tile i))
    refine ⟨(le_max_left _ _).trans h1, ?_, ?_⟩
    · intro j hj
      rcases List.mem_cons.mp hj with rfl | hj
      · exact (le_max_right _ _).trans h1
      · exact h2 j hj
    · intro b hb hall
      exact h3 b (max_le hb (hall i (by simp))) fun j hj => hall j (by simp [hj])

/-- **The derived alignment** of a list limits its tiles as the original one does. -/
theorem Limited.largestTile {tile range : Nat → Int} {alignment : Int} {loops : List Nat}
    (h : Limited tile range alignment loops) :
    Limited tile range (largestTile tile loops) loops := by
  obtain ⟨-, hle, hleast⟩ := largestTile_spec tile loops
  intro i hi
  rcases h i hi with hone | heq
  · exact .inl hone
  · by_cases hsmall : tile i ≤ 1
    · exact .inl hsmall
    · -- `alignment` is above 1, so every tile is below it
      have halign : 1 ≤ alignment := by have := min_le_right (range i) alignment; omega
      have hbound : CoralNPU.Tiling.largestTile tile loops ≤ alignment := by
        refine hleast alignment halign fun j hj => ?_
        rcases h j hj with hj1 | hjeq
        · omega
        · rw [hjeq]; exact min_le_right _ _
      refine .inr (le_antisymm (le_min ?_ (hle i hi)) ?_)
      · rw [heq]; exact min_le_left _ _
      · rw [heq]; exact min_le_min_left _ hbound

section Tiles

variable {loops : LoopClassification} {ranges : List Int} {vw : Int} {alignments : Alignments}
  {hasMatrix : Bool}

/-- The register tiles of the vectorized loops are ranges, cut to their limit. -/
theorem limited_vectorLoops :
    Limited (registerTile loops ranges vw alignments hasMatrix) (ranges.getD · 0)
      (if loops.unrollLoops.isEmpty then vw else alignments.vectorAlign) loops.vectorLoops := by
  intro i hi
  unfold registerTile
  by_cases hempty : loops.unrollLoops.isEmpty
  · simp only [hempty, if_true]
    split
    · exact .inr rfl
    · exact .inl (le_refl 1)
  · simp only [hempty, Bool.false_eq_true, if_false, hi, if_true]
    exact .inr trivial

/-- Those of the unrolled loops. -/
theorem limited_unrollLoops (hdisj : ∀ i ∈ loops.unrollLoops, i ∉ loops.vectorLoops) :
    Limited (registerTile loops ranges vw alignments hasMatrix) (ranges.getD · 0)
      alignments.unrollAlign loops.unrollLoops := by
  intro i hi
  have hempty : loops.unrollLoops.isEmpty = false := by
    cases hu : loops.unrollLoops with
    | nil => rw [hu] at hi; cases hi
    | cons => rfl
  unfold registerTile
  simp only [hempty, Bool.false_eq_true, if_false, hdisj i hi, hi, if_true]
  unfold unrollTile
  split
  · exact .inl (le_refl 1)
  · exact .inr rfl

/-- Those of the batch loops. -/
theorem limited_batchLoops (hv : ∀ i ∈ loops.batchLoops, i ∉ loops.vectorLoops)
    (hu : ∀ i ∈ loops.batchLoops, i ∉ loops.unrollLoops) :
    Limited (registerTile loops ranges vw alignments hasMatrix) (ranges.getD · 0)
      (if hasMatrix then 1 else alignments.vectorAlign) loops.batchLoops := by
  intro i hi
  unfold registerTile
  by_cases hempty : loops.unrollLoops.isEmpty
  · simp only [hempty, if_true, hv i hi, false_and, if_false]
    exact .inl (le_refl 1)
  · simp only [hempty, Bool.false_eq_true, if_false, hv i hi, hu i hi]
    exact .inr trivial

/-- Those of the reduction loops. -/
theorem limited_reductionLoops :
    Limited (reductionTile ranges alignments) (ranges.getD · 0) alignments.reductionAlign
      loops.reductionLoops := fun _ _ => .inr rfl

end Tiles

end CoralNPU.Tiling
