import CoralNPU.Tiling.Pipeline

namespace CoralNPU.Tiling

open Lib

/-!
# Tiling — the register tiles of operations without unroll loops

Elementwise operations, reductions, depthwise convolutions, packs and unpacks have no unroll
loop.  The register pass resolves a vector alignment for them, but tiles the last vector loop by
the vector width; and the parallel loops of an operation whose first two inputs both index them
are batch loops, which it tiles by 1.

* `resolvedVectorAlign`, `resolveAlignments_of_no_unroll` — the alignment the options resolve to;
* `getLast?_vectorLoops` — the innermost parallel loop is the last vector loop if it is one;
* `vectorizedAsResolved_iff` — the innermost parallel loop has the tile of that alignment, and
  all others tile 1, exactly under `GenericTilesAgree`.
-/

/-! ### The innermost parallel loop -/

/-- The innermost parallel loop. -/
def RootOp.innermostParallel? (root : RootOp) : Option Nat :=
  (loopsOfType root.getLoopIteratorTypes .parallel).getLast?

/-- A sublist that has the last element of a list without duplicates ends with it. -/
theorem getLast?_of_sublist {l L : List Nat} (hsub : l.Sublist L) (hnodup : L.Nodup) {i : Nat}
    (hlast : L.getLast? = some i) (hmem : i ∈ l) : l.getLast? = some i := by
  obtain ⟨L', rfl⟩ := List.getLast?_eq_some_iff.mp hlast
  obtain ⟨l₁, l₂, rfl, h₁, h₂⟩ := List.sublist_append_iff.mp hsub
  have hnot : i ∉ L' := fun hi => (List.nodup_append.mp hnodup).2.2 i hi i (by simp) rfl
  rcases List.mem_append.mp hmem with hi | hi
  · exact absurd (h₁.subset hi) hnot
  · -- the second part is the one element
    have hlen := h₂.length_le
    match l₂, hi, hlen with
    | [x], hi, _ =>
      obtain rfl := List.mem_singleton.mp hi
      simp

/-- Refining the loops one after the other keeps the order of those that stay vector loops. -/
theorem vectorLoops_foldl_refineLoop (isDepthwiseConv : Bool) (lhsMap rhsMap : AffineMap)
    (loops : List Nat) (c : LoopClassification) :
    ∃ l, l.Sublist loops ∧
      (loops.foldl (refineLoop isDepthwiseConv lhsMap rhsMap) c).vectorLoops
        = c.vectorLoops ++ l := by
  induction loops generalizing c with
  | nil => exact ⟨[], List.Sublist.refl _, (List.append_nil _).symm⟩
  | cons i loops ih =>
    obtain ⟨l, hl, hfold⟩ := ih (refineLoop isDepthwiseConv lhsMap rhsMap c i)
    rw [List.foldl_cons, hfold]
    rcases refineLoop_cases isDepthwiseConv lhsMap rhsMap c i with h | h | h
    · exact ⟨i :: l, hl.cons_cons i, by rw [h, List.append_assoc, List.singleton_append]⟩
    · exact ⟨l, hl.cons i, by rw [h]⟩
    · exact ⟨l, hl.cons i, by rw [h]⟩

theorem vectorLoops_refineLinalgOpLoops (op : LinalgOp) (c : LoopClassification) :
    (refineLinalgOpLoops op c).vectorLoops.Sublist c.vectorLoops := by
  unfold refineLinalgOpLoops
  split
  · exact List.Sublist.refl _
  · obtain ⟨l, hl, hfold⟩ := vectorLoops_foldl_refineLoop (isDepthwiseConvLike op)
      (mapOf op.dpsInputs 0) (mapOf op.dpsInputs 1) c.vectorLoops { c with vectorLoops := [] }
    rw [hfold]
    exact hl

/-- The vector loops are in the order of the iterators. -/
theorem vectorLoops_sublist (root : RootOp) :
    (classifyLoops root).vectorLoops.Sublist (loopsOfType root.getLoopIteratorTypes .parallel) := by
  unfold classifyLoops
  cases root.op with
  | linalg op => exact vectorLoops_refineLinalgOpLoops op _
  | pack op => exact List.Sublist.refl _
  | unpack op => exact List.Sublist.refl _
  | other op => exact List.Sublist.refl _

theorem nodup_loopsOfType (iterTypes : List IteratorType) (t : IteratorType) :
    (loopsOfType iterTypes t).Nodup :=
  List.nodup_range.filter _

/-- The innermost parallel loop is the last vector loop, if it is a vector loop. -/
theorem getLast?_vectorLoops {root : RootOp} {i : Nat} (hi : root.innermostParallel? = some i)
    (hv : i ∈ (classifyLoops root).vectorLoops) :
    (classifyLoops root).vectorLoops.getLast? = some i :=
  getLast?_of_sublist (vectorLoops_sublist root) (nodup_loopsOfType _ _) hi hv

theorem innermostParallel_mem {root : RootOp} {i : Nat} (hi : root.innermostParallel? = some i) :
    i < root.getLoopIteratorTypes.length ∧ i ∈ (classifyLoops root).parallelLoops := by
  have htype := mem_loopsOfType.mp (List.mem_of_getLast? hi)
  have hlt : i < root.getLoopIteratorTypes.length := (List.getElem?_eq_some_iff.mp htype).1
  exact ⟨hlt, (mem_parallelLoops_iff (partitionedLoops_classifyLoops root) hlt).mpr htype⟩

/-! ### The resolved alignment -/

/-- The vector alignment that the options resolve to: the parallel-alignment option, else the
    vector-alignment option, else the vector width. -/
def RegisterOptions.resolvedVectorAlign (options : RegisterOptions) (vectorWidth : Int) : Int :=
  if options.parallelAlignment ≠ 0 then options.parallelAlignment
  else if options.vectorAlignment ≠ 0 then options.vectorAlignment
  else vectorWidth

/-- **What `resolveAlignments` returns** without unroll loops. -/
theorem resolveAlignments_of_no_unroll (options : RegisterOptions) (vw numRegisters : Int)
    {loops : LoopClassification} (hunroll : loops.unrollLoops = []) (ranges : List Int) :
    resolveAlignments vw numRegisters loops ranges options.parallelAlignment
        ⟨options.vectorAlignment, options.unrollAlignment, options.reductionAlignment⟩
      = .ok ⟨options.resolvedVectorAlign vw, 0, options.reductionAlignment⟩ := by
  unfold resolveAlignments RegisterOptions.resolvedVectorAlign
  simp only [hunroll, List.isEmpty_nil, if_true]
  split
  · rfl
  · split <;> rfl

/-! ### The register tiles -/

section Pass

variable {target : Target} {options : RegisterOptions} {analysis : TilingAnalysis} {root : RootOp}
  {dispatch : Dispatch}

/-- Without unroll loops the register pass fails only where it has no vector width. -/
theorem registerPass_of_no_unroll (h : dispatch.Admits target root analysis)
    (hunroll : analysis.classification.unrollLoops = []) {vw : Int}
    (hvw : vectorWidth (vlenBits target options) analysis.elemSizeBytes = .ok vw) :
    ∃ info alignments, registerPass options dispatch
        = .ok { dispatch with compilationInfo := some info }
      ∧ info.loweringConfig = registerConfig target analysis vw alignments := by
  obtain ⟨alignments, hal⟩ : ∃ a, registerAlignments target options analysis vw = .ok a := by
    unfold registerAlignments
    split
    · exact ⟨_, rfl⟩
    · exact ⟨_, resolveAlignments_of_no_unroll options vw _ hunroll _⟩
  obtain ⟨info, hpass, hconfig⟩ := registerPass_of_alignments h hvw hal
  exact ⟨info, alignments, hpass, hconfig⟩

/-- The register tile of loop `i` is its range limited to the alignment, that of every other
    parallel loop is 1. -/
structure VectorizedBy (align : Int) (root : RootOp) (i : Nat) (sizes : List Int) : Prop where
  innermost : sizes.getD i 0 = min (root.getStaticLoopRanges.getD i 0) align
  others : ∀ j, root.getLoopIteratorTypes[j]? = some .parallel → j ≠ i → sizes.getD j 0 = 1

/-- The register pass vectorizes the innermost parallel loop with the resolved alignment. -/
def VectorizedAsResolved (options : RegisterOptions) (vw : Int) (root : RootOp) (innermost : Nat)
    (dispatch : Dispatch) : Prop :=
  ∃ info, registerPass options dispatch = .ok { dispatch with compilationInfo := some info }
    ∧ VectorizedBy (options.resolvedVectorAlign vw) root innermost
      (info.loweringConfig.getStaticTilingLevelSizes .vectorCommonParallelTiles)

/-- The innermost parallel loop is a vector loop whose range meets the vector width and the
    alignment alike; or it is a batch loop that the alignment tiles by 1, and so does the vector
    width the last vector loop. -/
def GenericTilesAgree (options : RegisterOptions) (vw : Int) (root : RootOp) (innermost : Nat) :
    Prop :=
  let range := fun i => root.getStaticLoopRanges.getD i 0
  let align := options.resolvedVectorAlign vw
  (innermost ∈ (classifyLoops root).vectorLoops ∧ min (range innermost) vw = min (range innermost) align)
    ∨ innermost ∉ (classifyLoops root).vectorLoops ∧ min (range innermost) align = 1
      ∧ ∀ j, (classifyLoops root).vectorLoops.getLast? = some j → min (range j) vw = 1

/-- The tile of a parallel loop of an operation without unroll loops. -/
theorem registerTile_of_no_unroll {loops : LoopClassification} (hunroll : loops.unrollLoops = [])
    (ranges : List Int) (vw : Int) (alignments : Alignments) (hasMatrix : Bool) (i : Nat) :
    registerTile loops ranges vw alignments hasMatrix i
      = if loops.vectorLoops.getLast? = some i then min (ranges.getD i 0) vw else 1 := by
  unfold registerTile
  simp only [hunroll, List.isEmpty_nil, if_true]
  by_cases hlast : loops.vectorLoops.getLast? = some i
  · rw [if_pos ⟨List.mem_of_getLast? hlast, hlast.symm⟩, if_pos hlast]
  · rw [if_neg fun hc => hlast hc.2.symm, if_neg hlast]

/-- **The resolved alignment is the one that vectorizes exactly when** it limits the range of the
    innermost parallel loop as the vector width does, or that loop is not vectorized at all and
    needs no vectorizing. -/
theorem vectorizedAsResolved_iff (h : dispatch.Admits target root analysis)
    (hunroll : analysis.classification.unrollLoops = []) {innermost : Nat}
    (hinner : root.innermostParallel? = some innermost) {vw : Int}
    (hvw : vectorWidth (vlenBits target options) analysis.elemSizeBytes = .ok vw) :
    VectorizedAsResolved options vw root innermost dispatch ↔
      GenericTilesAgree options vw root innermost := by
  have hwf := tilingAnalysis_wellFormed h.analysis_eq h.one_le_range
  obtain ⟨-, hclass, hranges, -⟩ := tilingAnalysis_ok h.analysis_eq
  obtain ⟨info, alignments, hpass, hconfig⟩ := registerPass_of_no_unroll h hunroll hvw
  have hlen : analysis.staticLoopRanges.length = root.getLoopIteratorTypes.length := by
    rw [hranges, length_getStaticLoopRanges]
  obtain ⟨hlt, hpar⟩ := innermostParallel_mem hinner
  -- the tile of a parallel loop
  have htile : ∀ i, i ∈ (classifyLoops root).parallelLoops →
      (info.loweringConfig.getStaticTilingLevelSizes .vectorCommonParallelTiles).getD i 0
        = if (classifyLoops root).vectorLoops.getLast? = some i
          then min (root.getStaticLoopRanges.getD i 0) vw else 1 := by
    intro i hi
    have hi' : i < analysis.staticLoopRanges.length := by
      rw [← hwf.mem_allLoops, hclass]
      exact List.mem_append_left _ hi
    rw [hconfig]
    show (registerParallelSizes _ _ _ _ _).getD i 0 = _
    rw [getD_registerParallelSizes hwf.nodup hi', if_pos (hclass ▸ hi),
      registerTile_of_no_unroll hunroll, hclass, hranges]
  have hmem : ∀ j, root.getLoopIteratorTypes[j]? = some .parallel →
      j ∈ (classifyLoops root).parallelLoops := fun j hj =>
    (mem_parallelLoops_iff (partitionedLoops_classifyLoops root)
      (List.getElem?_eq_some_iff.mp hj).1).mpr hj
  have hproperty : VectorizedAsResolved options vw root innermost dispatch ↔
      VectorizedBy (options.resolvedVectorAlign vw) root innermost
        (info.loweringConfig.getStaticTilingLevelSizes .vectorCommonParallelTiles) := by
    refine ⟨fun ⟨info', hpass', hby⟩ => ?_, fun hby => ⟨info, hpass, hby⟩⟩
    rw [hpass] at hpass'
    have hinfo := congrArg Dispatch.compilationInfo (Except.ok.inj hpass')
    obtain rfl := Option.some.inj hinfo
    exact hby
  rw [hproperty]
  by_cases hv : innermost ∈ (classifyLoops root).vectorLoops
  · -- the vectorized loop is the innermost one
    have hlast := getLast?_vectorLoops hinner hv
    have hself := htile innermost hpar
    rw [if_pos hlast] at hself
    constructor
    · intro hby
      exact .inl ⟨hv, hself.symm.trans hby.innermost⟩
    · rintro (⟨-, heq⟩ | ⟨hnv, -⟩)
      · refine ⟨hself.trans heq, fun j hj hne => ?_⟩
        rw [htile j (hmem j hj), hlast, if_neg fun hc => hne (Option.some.inj hc).symm]
      · exact absurd hv hnv
  · -- the innermost loop is a batch loop, the vectorized one is another
    have hself := htile innermost hpar
    rw [if_neg fun hc => hv (List.mem_of_getLast? hc)] at hself
    constructor
    · intro hby
      refine .inr ⟨hv, hby.innermost.symm.trans hself, fun j hj => ?_⟩
      have hjv := List.mem_of_getLast? hj
      have htype := mem_loopsOfType.mp ((vectorLoops_sublist root).subset hjv)
      have hone := hby.others j htype fun hc => hv (hc ▸ hjv)
      rw [htile j (hmem j htype), if_pos hj] at hone
      exact hone
    · rintro (⟨hc, -⟩ | ⟨-, hone, hlast⟩)
      · exact absurd hc hv
      · refine ⟨hself.trans hone.symm, fun j hj _ => ?_⟩
        rw [htile j (hmem j hj)]
        split
        · next hj => exact hlast j hj
        · rfl

end Pass

/-- An elementwise operation with two inputs over eight `i32`. -/
def vectorAdd : RootOp :=
  let operand : LinalgOperand :=
    { type := .tensor { shape := [8], elementType := .integer 32 }
      indexingMap := AffineMap.ofDims [0] }
  { op := .linalg
      { kind := .generic false false
        iteratorTypes := [.parallel]
        dpsInputs := [operand, operand]
        dpsInits := [operand] }
    resultTypes := [.tensor { shape := [8], elementType := .integer 32 }] }

/-- The analysis of `vectorAdd`. -/
def vectorAddAnalysis : TilingAnalysis :=
  { rootTilingOp := vectorAdd
    classification := classifyLoops vectorAdd
    staticLoopRanges := [8]
    elemSizeBytes := 4 }

/-- The register tiles of `vectorAdd`. -/
def vectorAddInfo : CompilationInfo :=
  { loweringConfig := [(.vectorCommonParallelTiles, [1]), (.vectorReductionTiles, [0])]
    translationInfo := .cpuDoubleTilingExpert }

/-- The only loop of an addition is indexed by both inputs, so it is not vectorized. -/
theorem vectorAdd_not_vectorized :
    registerPass {} (dispatchOf none vectorAdd)
        = .ok { dispatchOf none vectorAdd with compilationInfo := some vectorAddInfo }
      ∧ ¬ VectorizedAsResolved {} 4 vectorAdd 0 (dispatchOf none vectorAdd) := by
  have hpass : registerPass {} (dispatchOf none vectorAdd)
      = .ok { dispatchOf none vectorAdd with compilationInfo := some vectorAddInfo } := by
    decide +kernel
  refine ⟨hpass, ?_⟩
  rintro ⟨info, hpass', hby⟩
  rw [hpass] at hpass'
  obtain rfl := Option.some.inj (congrArg Dispatch.compilationInfo (Except.ok.inj hpass'))
  exact absurd hby.innermost (by decide)

/-- The criterion at that addition. -/
theorem vectorizedAsResolved_iff_vectorAdd :
    VectorizedAsResolved {} 4 vectorAdd 0 (dispatchOf none vectorAdd) ↔
      GenericTilesAgree {} 4 vectorAdd 0 :=
  @vectorizedAsResolved_iff plainTarget {} vectorAddAnalysis vectorAdd (dispatchOf none vectorAdd)
    ⟨rfl, rfl, rfl, by decide, by decide⟩ (by decide) 0 (by decide) 4 (by decide)

end CoralNPU.Tiling
