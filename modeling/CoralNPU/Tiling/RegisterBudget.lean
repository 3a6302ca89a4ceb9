import CoralNPU.Tiling.Fallback
import Mathlib.Algebra.BigOperators.Group.List.Basic

namespace CoralNPU.Tiling

open Lib

/-!
# Tiling — the register budget of the automatic register tile

For an operation with unroll loops the register pass picks an unroll factor `U` with
`1 + U + a * U ≤ R`: one register for the left operand, `U` for the right one, and `a * U` for
the accumulators, where `a` is the alignment of a vector loop.  The tile it builds limits every
vector and batch loop to `a` and every unroll loop to `U` vectors.

* `maxFullUnroll_ok`, `resolveAlignments_auto` — the alignments the pass resolves;
* `WithinRegisterBudget` — the budget, for the tile that comes out;
* `FitsRegisters` — the condition on the ranges; `fitsRegisters_of_single` is the case the
  formula was written for;
* `withinRegisterBudget_iff` — the budget holds exactly under that condition.
-/

/-! ### The alignments -/

/-- The largest number of vectors that an unroll loop fills. -/
def largestUnroll (vectorWidth : Int) (ranges : List Int) (unrollLoops : List Nat) : Int :=
  unrollLoops.foldl (fun u i => max u (ceilDiv (ranges.getD i 0) vectorWidth)) 0

/-- Division with rounding up, for positive numbers. -/
theorem divideCeil_eq {x y : Int} (hx : 1 ≤ x) (hy : 1 ≤ y) : divideCeil x y = .ok (ceilDiv x y) := by
  unfold divideCeil ceilDiv
  rw [if_neg (by omega), Int.tdiv_eq_ediv_of_nonneg (by omega)]
  rfl

/-- The loop over the unrolled loops, for positive ranges. -/
theorem maxFullUnroll_ok {vw : Int} (hvw : 1 ≤ vw) {ranges : List Int} {loops : List Nat}
    (hranges : ∀ i ∈ loops, 1 ≤ ranges.getD i 0) :
    maxFullUnroll vw ranges loops = .ok (largestUnroll vw ranges loops) := by
  unfold maxFullUnroll largestUnroll
  refine foldlM_eq_ok_foldl (fun u i hi => ?_) 0
  rw [if_neg (not_not.mpr (by have := hranges i hi; omega)), divideCeil_eq (hranges i hi) hvw]
  rfl

/-- Its result is positive. -/
theorem one_le_largestUnroll {vw : Int} (hvw : 1 ≤ vw) {ranges : List Int} {loops : List Nat}
    (hne : loops ≠ []) (hranges : ∀ i ∈ loops, 1 ≤ ranges.getD i 0) :
    1 ≤ largestUnroll vw ranges loops := by
  unfold largestUnroll
  -- the maximum is at least its first element
  have hge : ∀ (l : List Nat) (a : Int),
      a ≤ l.foldl (fun u i => max u (ceilDiv (ranges.getD i 0) vw)) a := by
    intro l
    induction l with
    | nil => exact fun a => le_refl a
    | cons i l ih => exact fun a => (le_max_left _ _).trans (ih _)
  cases loops with
  | nil => exact absurd rfl hne
  | cons i l =>
    rw [List.foldl_cons]
    exact ((one_le_ceilDiv (hranges i (by simp)) hvw).trans (le_max_right _ _)).trans (hge l _)

/-- The unroll factor that the pass picks. -/
def unrollFactor (vectorWidth numRegisters : Int) (ranges : List Int) (unrollLoops : List Nat) :
    Int :=
  min ((numRegisters - 1) / (1 + min vectorWidth 8)) (largestUnroll vectorWidth ranges unrollLoops)

/-- **The automatic alignments** of an operation with unroll loops. -/
theorem resolveAlignments_auto {vw numRegisters : Int} (hvw : 1 ≤ vw)
    (hregs : 2 + min vw 8 ≤ numRegisters) {loops : LoopClassification} (hne : loops.unrollLoops ≠ [])
    {ranges : List Int} (hranges : ∀ i ∈ loops.unrollLoops, 1 ≤ ranges.getD i 0)
    (parallelAlignment reductionAlignment : Int) :
    resolveAlignments vw numRegisters loops ranges parallelAlignment ⟨0, 0, reductionAlignment⟩
      = .ok ⟨min vw 8, vw * unrollFactor vw numRegisters ranges loops.unrollLoops,
          reductionAlignment⟩ := by
  have halign : 1 ≤ min vw 8 := le_min hvw (by norm_num)
  have hlimit : 1 ≤ (numRegisters - 1) / (1 + min vw 8) := by
    rw [Int.le_ediv_iff_mul_le (by omega)]
    omega
  have hfull := one_le_largestUnroll hvw hne hranges
  have hdivide : divide "(numRegisters - 1) / (1 + vectorAlign)" (numRegisters - 1)
      (1 + min vw 8) = .ok ((numRegisters - 1) / (1 + min vw 8)) := by
    unfold divide
    rw [if_neg (by omega), Int.tdiv_eq_ediv_of_nonneg (by omega)]
    rfl
  unfold resolveAlignments
  rw [if_neg (by simpa using hne)]
  simp only [if_true, ne_eq, not_true_eq_false, if_false, hdivide, maxFullUnroll_ok hvw hranges,
    ok_bind, max_eq_right hlimit]
  rw [if_neg (by omega)]
  rfl

/-! ### The budget -/

/-- The product of the tiles of some loops. -/
def tileProduct (tile : Nat → Int) (loops : List Nat) : Int := (loops.map tile).prod

/-- **The register budget:** one register for the left operand, `U` for the right one and `P * U`
    for the accumulators, where `P` is the product of the vector and batch tiles, and `U` the
    number of vectors in the product of the unroll tiles. -/
def WithinRegisterBudget (numRegisters vectorWidth : Int) (loops : LoopClassification)
    (tile : Nat → Int) : Prop :=
  let P := tileProduct tile (loops.vectorLoops ++ loops.batchLoops)
  let U := ceilDiv (tileProduct tile loops.unrollLoops) vectorWidth
  1 + U + P * U ≤ numRegisters

/-- It can be decided whether a tile is within the budget. -/
instance (numRegisters vectorWidth : Int) (loops : LoopClassification) (tile : Nat → Int) :
    Decidable (WithinRegisterBudget numRegisters vectorWidth loops tile) :=
  inferInstanceAs (Decidable (_ ≤ _))

/-- The vectors that the unroll loops fill together are at most what the formula of the pass
    allows for *all* the vector and batch loops together. -/
def FitsRegisters (numRegisters vectorWidth : Int) (loops : LoopClassification)
    (ranges : List Int) : Prop :=
  let range := fun i => ranges.getD i 0
  let P := tileProduct (fun i => min (range i) (min vectorWidth 8))
    (loops.vectorLoops ++ loops.batchLoops)
  let align := vectorWidth * unrollFactor vectorWidth numRegisters ranges loops.unrollLoops
  ceilDiv (tileProduct (fun i => unrollTile (range i) align) loops.unrollLoops) vectorWidth
    ≤ (numRegisters - 1) / (1 + P)

/-- The product depends on the tiles of the loops only. -/
theorem tileProduct_congr {tile tile' : Nat → Int} {loops : List Nat}
    (h : ∀ i ∈ loops, tile i = tile' i) : tileProduct tile loops = tileProduct tile' loops := by
  unfold tileProduct
  rw [List.map_congr_left h]

/-- It is positive, if the tiles are. -/
theorem one_le_tileProduct {tile : Nat → Int} {loops : List Nat} (h : ∀ i ∈ loops, 1 ≤ tile i) :
    1 ≤ tileProduct tile loops := by
  unfold tileProduct
  induction loops with
  | nil => exact le_refl 1
  | cons i loops ih =>
    rw [List.map_cons, List.prod_cons]
    have hi := h i (by simp)
    have hrest := ih fun j hj => h j (by simp [hj])
    nlinarith

/-- The budget, solved for the number of vectors. -/
theorem budget_iff {P U R : Int} (hP : 0 ≤ P) : 1 + U + P * U ≤ R ↔ U ≤ (R - 1) / (1 + P) := by
  rw [Int.le_ediv_iff_mul_le (by omega)]
  constructor <;> intro h <;> linarith [mul_comm U P]

/-- **The case the formula was written for:** one vector loop and one unroll loop. -/
theorem fitsRegisters_of_single {numRegisters vw : Int} (hvw : 1 ≤ vw)
    (hregs : 2 + min vw 8 ≤ numRegisters) {loops : LoopClassification} {ranges : List Int}
    {m n : Nat} (hm : loops.vectorLoops ++ loops.batchLoops = [m]) (hn : loops.unrollLoops = [n])
    (hmrange : 1 ≤ ranges.getD m 0) (hnrange : 1 ≤ ranges.getD n 0) :
    FitsRegisters numRegisters vw loops ranges := by
  have halign : 1 ≤ min vw 8 := le_min hvw (by norm_num)
  have hlimit : 1 ≤ (numRegisters - 1) / (1 + min vw 8) := by
    rw [Int.le_ediv_iff_mul_le (by omega)]
    omega
  unfold FitsRegisters
  simp only [hm, hn, tileProduct, List.map_cons, List.map_nil, List.prod_cons, List.prod_nil, mul_one]
  have hfactor : 1 ≤ unrollFactor vw numRegisters ranges [n] :=
    le_min hlimit (one_le_largestUnroll hvw (by simp) (by simpa using hnrange))
  -- the unroll tile is at most `unrollFactor` vectors long
  have htile : unrollTile (ranges.getD n 0) (vw * unrollFactor vw numRegisters ranges [n])
      ≤ vw * unrollFactor vw numRegisters ranges [n] := by
    unfold unrollTile
    split
    · nlinarith
    · exact min_le_right _ _
  have hvectors : ceilDiv (unrollTile (ranges.getD n 0)
      (vw * unrollFactor vw numRegisters ranges [n])) vw ≤ unrollFactor vw numRegisters ranges [n] := by
    rw [ceilDiv]
    refine Int.lt_add_one_iff.mp (Int.ediv_lt_of_lt_mul (by omega) ?_)
    nlinarith
  -- and the vector tile at most the alignment that `unrollFactor` was computed for
  have hquot : (numRegisters - 1) / (1 + min vw 8)
      ≤ (numRegisters - 1) / (1 + min (ranges.getD m 0) (min vw 8)) := by
    have hsmall : min (ranges.getD m 0) (min vw 8) ≤ min vw 8 := min_le_right _ _
    have hpos : 1 ≤ min (ranges.getD m 0) (min vw 8) := le_min hmrange halign
    have hmul : (numRegisters - 1) / (1 + min vw 8) * (1 + min vw 8) ≤ numRegisters - 1 :=
      Int.ediv_mul_le _ (by omega)
    rw [Int.le_ediv_iff_mul_le (by omega)]
    nlinarith
  exact hvectors.trans ((min_le_left _ _).trans hquot)

/-! ### The pass -/

section Pass

variable {target : Target} {options : RegisterOptions} {analysis : TilingAnalysis} {root : RootOp}
  {dispatch : Dispatch}

/-- The register pass with automatic alignments, off the matrix path: no assertion fails, and
    this is the configuration. -/
theorem registerPass_auto (h : dispatch.Admits target root analysis)
    (hne : analysis.classification.unrollLoops ≠ []) (hvector : options.vectorAlignment = 0)
    (hunroll : options.unrollAlignment = 0) (hmatrix : hasMatrix target root = false) {vw : Int}
    (hvw : vectorWidth (vlenBits target options) analysis.elemSizeBytes = .ok vw)
    (hregs : 2 + min vw 8 ≤ options.numVectorRegisters) :
    ∃ info, registerPass options dispatch = .ok { dispatch with compilationInfo := some info }
      ∧ info.loweringConfig = registerConfig target analysis vw
        ⟨min vw 8, vw * unrollFactor vw options.numVectorRegisters analysis.staticLoopRanges
          analysis.classification.unrollLoops, options.reductionAlignment⟩ := by
  have hwf := tilingAnalysis_wellFormed h.analysis_eq h.one_le_range
  obtain ⟨hroot, -, -, -⟩ := tilingAnalysis_ok h.analysis_eq
  have hranges : ∀ i ∈ analysis.classification.unrollLoops,
      1 ≤ analysis.staticLoopRanges.getD i 0 := fun i hi =>
    hwf.one_le_range i ((hwf.mem_allLoops i).mp
      (List.mem_append_left _ (mem_parallelLoops.mpr (.inr (.inl hi)))))
  have hal : registerAlignments target options analysis vw
      = .ok ⟨min vw 8, vw * unrollFactor vw options.numVectorRegisters analysis.staticLoopRanges
          analysis.classification.unrollLoops, options.reductionAlignment⟩ := by
    unfold registerAlignments
    simp only [hroot, hmatrix, Bool.false_eq_true, if_false, hvector, hunroll]
    exact resolveAlignments_auto (vectorWidth_pos hvw) hregs hne hranges _ _
  exact registerPass_of_alignments h hvw hal

/-- The register pass picks a tile within the register budget. -/
def PicksWithinBudget (options : RegisterOptions) (vw : Int) (root : RootOp) (dispatch : Dispatch) :
    Prop :=
  ∃ info, registerPass options dispatch = .ok { dispatch with compilationInfo := some info }
    ∧ WithinRegisterBudget options.numVectorRegisters vw (classifyLoops root)
      fun i => (info.loweringConfig.getStaticTilingLevelSizes .vectorCommonParallelTiles).getD i 0

/-- **The automatic register tile fits the register file exactly when** the unroll loops together
    fill no more vectors than the formula of the pass allows for the product of all vector and
    batch tiles: the pass applies it to a single vector loop. -/
theorem withinRegisterBudget_iff (h : dispatch.Admits target root analysis)
    (hne : analysis.classification.unrollLoops ≠ []) (hvector : options.vectorAlignment = 0)
    (hunroll : options.unrollAlignment = 0) (hmatrix : hasMatrix target root = false) {vw : Int}
    (hvw : vectorWidth (vlenBits target options) analysis.elemSizeBytes = .ok vw)
    (hregs : 2 + min vw 8 ≤ options.numVectorRegisters) :
    PicksWithinBudget options vw root dispatch ↔
      FitsRegisters options.numVectorRegisters vw (classifyLoops root) root.getStaticLoopRanges := by
  have hwf := tilingAnalysis_wellFormed h.analysis_eq h.one_le_range
  obtain ⟨hroot, hclass, hranges, -⟩ := tilingAnalysis_ok h.analysis_eq
  obtain ⟨info, hpass, hconfig⟩ := registerPass_auto h hne hvector hunroll hmatrix hvw hregs
  have halign : 1 ≤ min vw 8 := le_min (vectorWidth_pos hvw) (by norm_num)
  set loops := classifyLoops root with hloops
  set u := vw * unrollFactor vw options.numVectorRegisters root.getStaticLoopRanges loops.unrollLoops
    with hu
  have hnodup : loops.allLoops.Nodup := hclass ▸ hwf.nodup
  obtain ⟨hvu, -, hdb⟩ := List.nodup_append.mp (List.nodup_append.mp hnodup).1
  obtain ⟨-, -, hdu⟩ := List.nodup_append.mp hvu
  have hempty : loops.unrollLoops.isEmpty = false := by
    rw [← hclass]
    simpa using hne
  -- the tile of a parallel loop
  have htile : ∀ i ∈ loops.parallelLoops,
      (info.loweringConfig.getStaticTilingLevelSizes .vectorCommonParallelTiles).getD i 0
        = if i ∈ loops.unrollLoops then unrollTile (root.getStaticLoopRanges.getD i 0) u
          else min (root.getStaticLoopRanges.getD i 0) (min vw 8) := by
    intro i hi
    have hi' : i < analysis.staticLoopRanges.length := by
      rw [← hwf.mem_allLoops, hclass]
      exact List.mem_append_left _ hi
    rw [hconfig]
    show (registerParallelSizes _ _ _ _ _).getD i 0 = _
    rw [getD_registerParallelSizes hwf.nodup hi', hclass, if_pos hi, hranges, hroot, hmatrix]
    unfold registerTile
    simp only [hempty, Bool.false_eq_true, if_false]
    by_cases hv : i ∈ loops.vectorLoops
    · rw [if_pos hv, if_neg fun hc => hdu i hv i hc rfl]
    · rw [if_neg hv]
  have hvectors : tileProduct
      (fun i => (info.loweringConfig.getStaticTilingLevelSizes .vectorCommonParallelTiles).getD i 0)
      (loops.vectorLoops ++ loops.batchLoops)
      = tileProduct (fun i => min (root.getStaticLoopRanges.getD i 0) (min vw 8))
        (loops.vectorLoops ++ loops.batchLoops) := by
    refine tileProduct_congr fun i hi => ?_
    rcases List.mem_append.mp hi with hv | hb
    · rw [htile i (mem_parallelLoops.mpr (.inl hv)), if_neg fun hc => hdu i hv i hc rfl]
    · rw [htile i (mem_parallelLoops.mpr (.inr (.inr hb))),
        if_neg fun hc => hdb i (List.mem_append_right _ hc) i hb rfl]
  have hunrolls : tileProduct
      (fun i => (info.loweringConfig.getStaticTilingLevelSizes .vectorCommonParallelTiles).getD i 0)
      loops.unrollLoops
      = tileProduct (fun i => unrollTile (root.getStaticLoopRanges.getD i 0) u)
        loops.unrollLoops :=
    tileProduct_congr fun i hi => by rw [htile i (mem_parallelLoops.mpr (.inr (.inl hi))), if_pos hi]
  have hP : 1 ≤ tileProduct (fun i => min (root.getStaticLoopRanges.getD i 0) (min vw 8))
      (loops.vectorLoops ++ loops.batchLoops) := by
    refine one_le_tileProduct fun i hi => le_min ?_ halign
    rw [← hranges]
    refine hwf.one_le_range i ((hwf.mem_allLoops i).mp (List.mem_append_left _ ?_))
    rw [hclass]
    rcases List.mem_append.mp hi with hv | hb
    · exact mem_parallelLoops.mpr (.inl hv)
    · exact mem_parallelLoops.mpr (.inr (.inr hb))
  have hbudget : WithinRegisterBudget options.numVectorRegisters vw loops
      (fun i => (info.loweringConfig.getStaticTilingLevelSizes .vectorCommonParallelTiles).getD i 0)
      ↔ FitsRegisters options.numVectorRegisters vw loops root.getStaticLoopRanges := by
    unfold WithinRegisterBudget FitsRegisters
    simp only [hvectors, hunrolls]
    exact budget_iff (by omega)
  rw [← hbudget]
  refine ⟨fun ⟨info', hpass', hwithin⟩ => ?_, fun hwithin => ⟨info, hpass, hwithin⟩⟩
  rw [hpass] at hpass'
  obtain rfl := Option.some.inj (congrArg Dispatch.compilationInfo (Except.ok.inj hpass'))
  exact hwithin

end Pass

/-- A batch matmul gets a register tile of 4 x 4 x 24, which needs 103 vector registers. -/
theorem smallBatchMatmul_exceeds_budget :
    registerPass {} (dispatchOf none smallBatchMatmul) = .ok smallBatchMatmulDispatch
      ∧ ¬ PicksWithinBudget {} 4 smallBatchMatmul (dispatchOf none smallBatchMatmul) := by
  have hpass : registerPass {} (dispatchOf none smallBatchMatmul) = .ok smallBatchMatmulDispatch := by
    decide +kernel
  refine ⟨hpass, ?_⟩
  rintro ⟨info, hpass', hwithin⟩
  rw [hpass] at hpass'
  obtain rfl := Option.some.inj (congrArg Dispatch.compilationInfo (Except.ok.inj hpass'))
  exact absurd hwithin (by decide +kernel)

/-- The criterion at that batch matmul. -/
theorem withinRegisterBudget_iff_smallBatchMatmul :
    PicksWithinBudget {} 4 smallBatchMatmul (dispatchOf none smallBatchMatmul) ↔
      FitsRegisters 32 4 (classifyLoops smallBatchMatmul) smallBatchMatmul.getStaticLoopRanges :=
  @withinRegisterBudget_iff plainTarget {} smallBatchMatmulAnalysis smallBatchMatmul
    (dispatchOf none smallBatchMatmul) ⟨rfl, rfl, rfl, by decide, by decide⟩ (by decide) rfl rfl
    (by decide) 4 (by decide) (by decide)

end CoralNPU.Tiling
