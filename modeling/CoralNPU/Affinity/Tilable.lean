import CoralNPU.Affinity.Annotation
import CoralNPU.Tiling.Defined

namespace CoralNPU.Affinity

open Lib CoralNPU.Tiling

/-!
# Affinity — what is offloaded can be tiled

Every operation `shouldExecuteOnCoralNPU` accepts passes the tiling analysis and the three
tile-size-selection passes.

* `Verified` — what the verifier of the `linalg` operations guarantees;
* `registerArithmeticDefined` — no division by zero and no failed assertion for non-empty loops;
* `hasBitWidth_of_supported`, `estimateFootprint_ones` — the estimate is defined, and the all-ones
  tile of three operands takes at most 12 bytes, in the wrapping arithmetic of the code;
* `tilingPasses_of_shouldExecute` — the passes succeed.
-/

/-- The verified shape of a contraction or convolution: two inputs, one ranked destination
    that is also the result, and for each loop an operand dimension it indexes alone. -/
structure Verified (root : RootOp) (op : LinalgOp) : Prop where
  op_eq : root.op = .linalg op
  inputs : op.dpsInputs.length = 2
  inits : ∃ init t, op.dpsInits = [init] ∧ init.type = .tensor t ∧ root.resultTypes = [.tensor t]
  loops : ∀ d < op.iteratorTypes.length, op.loopExtents d ≠ []

/-- No operand has an empty dimension. -/
def NonEmpty (root : RootOp) : Prop :=
  ∀ type ∈ root.operandTypes, ∀ extent ∈ type.shape, 1 ≤ extent

/-! ### The analysis -/

theorem mem_loopExtents {op : LinalgOp} {d : Nat} {extent : Int} (h : extent ∈ op.loopExtents d) :
    ∃ operand ∈ op.operands, extent ∈ operand.type.shape := by
  obtain ⟨operand, hmem, h⟩ := List.mem_flatMap.mp h
  obtain ⟨⟨expr, ext⟩, hzip, h⟩ := List.mem_filterMap.mp h
  refine ⟨operand, hmem, ?_⟩
  simp only at h
  split at h
  · rw [← Option.some.inj h]
    exact (List.of_mem_zip hzip).2
  · cases h

/-- Every loop of a verified operation without empty dimensions is at least 1 long. -/
theorem one_le_range {root : RootOp} {op : LinalgOp} (hv : Verified root op)
    (hne : NonEmpty root) : ∀ r ∈ root.getStaticLoopRanges, 1 ≤ r := by
  intro r hr
  simp only [RootOp.getStaticLoopRanges, hv.op_eq, LinalgOp.getStaticLoopRanges] at hr
  obtain ⟨d, hd, rfl⟩ := List.mem_map.mp hr
  cases hext : op.loopExtents d with
  | nil => exact absurd hext (hv.loops d (List.mem_range.mp hd))
  | cons e rest =>
    have hfirst : e ∈ op.loopExtents d := by rw [hext]; simp
    obtain ⟨operand, hmem, he⟩ := mem_loopExtents hfirst
    refine hne operand.type ?_ e he
    simp only [RootOp.operandTypes, hv.op_eq]
    exact List.mem_map_of_mem hmem

/-- **The analysis admits** the operation, with whole-byte elements of at most 4 bytes. -/
theorem tilingAnalysis_of_supported {root : RootOp} {op : LinalgOp} (hv : Verified root op)
    (hne : NonEmpty root) (hresults : ∀ type ∈ root.resultTypes, isSupportedType type = true) :
    ∃ analysis, tilingAnalysis root = .ok analysis
      ∧ 1 ≤ analysis.elemSizeBytes ∧ analysis.elemSizeBytes ≤ 4 := by
  obtain ⟨init, t, -, -, hres⟩ := hv.inits
  have hsupported : isSupportedElementType t.elementType = true := by
    have := hresults (.tensor t) (by rw [hres]; simp)
    simp only [isSupportedType, Bool.and_eq_true] at this
    exact this.2
  have hsize : ∃ bytes, elemSizeBytes root = .ok bytes ∧ 1 ≤ bytes ∧ bytes ≤ 4 := by
    unfold elemSizeBytes
    rw [hres]
    simp only [isSupportedElementType, ElementType.isInteger, ElementType.isF32, Bool.or_eq_true,
      decide_eq_true_eq] at hsupported
    rcases hsupported with ((h | h) | h) | h <;> simp only [h]
    · exact ⟨1, rfl, by decide, by decide⟩
    · exact ⟨2, rfl, by decide, by decide⟩
    · exact ⟨4, rfl, by decide, by decide⟩
    · exact ⟨4, rfl, by decide, by decide⟩
  obtain ⟨bytes, hbytes, hb₁, hb₂⟩ := hsize
  have hstatic : root.getStaticLoopRanges.contains kDynamic = false := by
    by_contra hc
    have hmem : kDynamic ∈ root.getStaticLoopRanges := by simpa using hc
    have := one_le_range hv hne _ hmem
    unfold kDynamic at this
    omega
  unfold tilingAnalysis
  rw [hbytes, ok_bind, hstatic]
  exact ⟨_, rfl, hb₁, hb₂⟩

/-! ### The register pass -/

/-- The default options, with the vector register width left open. -/
def defaultOptions (vectorRegisterWidthBits : Int) : RegisterOptions :=
  { vectorRegisterWidthBits := vectorRegisterWidthBits }

/-- **The arithmetic of the register pass** is defined: a vector holds at least one element of up
    to 4 bytes, and with the default options no divisor is zero. -/
theorem registerArithmeticDefined {analysis : TilingAnalysis} (h : analysis.WellFormed)
    (hb₁ : 1 ≤ analysis.elemSizeBytes) (hb₂ : analysis.elemSizeBytes ≤ 4) {target : Target}
    {width : Int} (hvlen : 32 ≤ vlenBits target (defaultOptions width)) :
    RegisterArithmeticDefined target (defaultOptions width) analysis where
  elemSize := by omega
  width := by
    have hbits : 4 ≤ (vlenBits target (defaultOptions width)).tdiv 8 := by
      rw [Int.tdiv_eq_ediv_of_nonneg (by omega)]
      omega
    rw [Int.tdiv_eq_ediv_of_nonneg (by omega), Int.lt_iff_add_one_le,
      Int.le_ediv_iff_mul_le (by omega)]
    omega
  unroll := by
    intro _ _ _
    refine ⟨(by decide : (1 : Int) + 0 ≠ 0), fun i hi => h.one_le_range i ((h.mem_allLoops i).mp ?_)⟩
    simp only [LoopClassification.allLoops, List.mem_append]
    exact .inl (.inl (.inr hi))

/-! ### The estimate -/

/-- A supported operand has a width. -/
theorem hasBitWidth_of_supported {type : ValueType} (h : isSupportedType type = true) :
    ValueType.hasBitWidth type = true := by
  cases type with
  | scalar _ => rfl
  | tensor t =>
    simp only [isSupportedType, Bool.and_eq_true] at h
    obtain ⟨bytes, hbytes, -, -⟩ := elementBytes_of_supported h.2
    exact (elementBytes_isOk_iff _).mp ⟨bytes, hbytes⟩

/-- Over a single iteration point every dimension spans one element. -/
theorem linalgFactor_ones {getBound : BoundFn} {expr : AffineExpr} {n : Nat}
    (hexact : ExactBound getBound n expr) (extent : Int) :
    linalgFactor toInt64 getBound (List.replicate n 1) expr extent = 1 := by
  have hone : ∀ s ∈ List.replicate n (1 : Int), 1 ≤ s := by
    intro s hs
    rw [List.eq_of_mem_replicate hs]
  obtain ⟨lb, hlb, ⟨p, hp, hpv⟩, -⟩ := hexact.lower _ (by simp) hone
  obtain ⟨ub, hub, ⟨q, hq, hqv⟩, -⟩ := hexact.upper _ (by simp) hone
  -- the box holds one point
  have hzero : ∀ p ∈ box (List.replicate n 1), p = fun _ => 0 := by
    intro p hp
    funext i
    obtain ⟨hlo, hhi⟩ := hp i
    have hentry : (List.replicate n (1 : Int)).getD i 1 = 1 := by
      by_cases hi : i < n
      · simp [List.getD_eq_getElem?_getD, hi]
      · rw [List.getD_eq_default _ _ (by simpa using hi)]
    rw [hentry] at hhi
    omega
  have hsame : lb = ub := by rw [← hpv, ← hqv, hzero p hp, hzero q hq]
  simp only [linalgFactor, hlb, hub, hsame, sub_self]
  decide

/-- **The smallest tile** of three operands takes at most 12 bytes. -/
theorem estimateFootprint_ones {getBound : BoundFn} {root : RootOp} {op : LinalgOp}
    (hv : Verified root op)
    (hoperands : ∀ type ∈ root.operandTypes, isSupportedType type = true)
    (hexact : ExactBounds getBound root) :
    ∃ footprint, estimateFootprint toInt64 getBound root (onesTile root) = .ok footprint
      ∧ footprint ≤ 12 := by
  obtain ⟨init, t, hinit, -, -⟩ := hv.inits
  obtain ⟨lhs, rhs, hinputs⟩ := List.length_eq_two.mp hv.inputs
  have hlen : (onesTile root).length = op.getStaticLoopRanges.length := by
    simp [onesTile, RootOp.getStaticLoopRanges, hv.op_eq]
  have hone : ∀ s ∈ onesTile root, 1 ≤ s := by
    intro s hs
    rw [List.eq_of_mem_replicate hs]
  have hrank : root.getStaticLoopRanges.length = op.iteratorTypes.length := by
    simp [RootOp.getStaticLoopRanges, hv.op_eq, LinalgOp.getStaticLoopRanges]
  have hsmall : FitsInt64 12 := by decide
  -- each operand takes at most 4 bytes
  have hoperand : ∀ operand ∈ op.operands, ∃ a, 0 ≤ a ∧ a ≤ 4 ∧
      estimateLinalgOperandFootprint toInt64 getBound op (onesTile root) operand = .ok a := by
    intro operand hmem
    rw [estimateLinalgOperandFootprint_eq toInt64 getBound hlen hone]
    have hsupported := hoperands operand.type (by
      simp only [RootOp.operandTypes, hv.op_eq]; exact List.mem_map_of_mem hmem)
    cases htype : operand.type with
    | scalar e => exact ⟨0, le_refl 0, by norm_num, rfl⟩
    | tensor type =>
      rw [htype] at hsupported
      simp only [isSupportedType, Bool.and_eq_true] at hsupported
      obtain ⟨bytes, hbytes, hb₁, hb₂⟩ := elementBytes_of_supported hsupported.2
      refine ⟨bytes, by omega, hb₂, ?_⟩
      simp only [operandBytes, hbytes, ok_bind]
      have hfactors : ∀ f ∈ operand.indexingMap.zipIdx.map (fun p =>
          linalgFactor toInt64 getBound (onesTile root) p.1 (type.shape.getD p.2 0)), f = 1 := by
        intro f hf
        obtain ⟨⟨expr, i⟩, hmem', rfl⟩ := List.mem_map.mp hf
        unfold onesTile
        rw [hrank]
        exact linalgFactor_ones (hexact op hv.op_eq operand hmem expr
          (List.fst_mem_of_mem_zipIdx hmem')) _
      have hproduct : ∀ fs : List Int, (∀ f ∈ fs, f = 1) → numElements toInt64 fs = 1 := by
        intro fs
        unfold numElements
        induction fs with
        | nil => intro _; rfl
        | cons f fs ih =>
          intro hfs
          rw [List.foldl_cons, hfs f (by simp)]
          exact ih fun g hg => hfs g (by simp [hg])
      rw [hproduct _ hfactors, one_mul, toInt64_of_fits (by omega) (hsmall.of_le (by omega))]
      rfl
  have hops : op.operands = [lhs, rhs, init] := by
    simp [LinalgOp.operands, hinputs, hinit]
  obtain ⟨a, ha₀, ha, hea⟩ := hoperand lhs (by rw [hops]; simp)
  obtain ⟨b, hb₀, hb, heb⟩ := hoperand rhs (by rw [hops]; simp)
  obtain ⟨c, hc₀, hc, hec⟩ := hoperand init (by rw [hops]; simp)
  refine ⟨a + b + c, ?_, by omega⟩
  simp only [estimateFootprint, operandFootprints, hv.op_eq, hops, List.map_cons, List.map_nil,
    hea, heb, hec, List.foldlM_cons, List.foldlM_nil, ok_bind, pure_eq_ok, zero_add]
  rw [toInt64_of_fits ha₀ (hsmall.of_le (by omega)),
    toInt64_of_fits (x := a + b) (by omega) (hsmall.of_le (by omega)),
    toInt64_of_fits (by omega) (hsmall.of_le (by omega))]

/-! ### The passes -/

/-- **What is offloaded can be tiled.** For an operation the affinity pass accepts, as the
    root operation of a function of the backend, the analysis and the three passes succeed:
    none reports a failure, divides by zero or fails an assertion. -/
theorem tilingPasses_of_shouldExecute {getBound : BoundFn} {threshold : Int} {root : RootOp}
    {op : LinalgOp} (haccept : shouldExecuteOnCoralNPU threshold root = .ok true)
    (hv : Verified root op) (hne : NonEmpty root) (hexact : ExactBounds getBound root)
    {target : Target} (hbackend : target.backend = "coralnpu") {width : Int}
    (hvlen : 32 ≤ vlenBits target (defaultOptions width)) {limit : Int} (hlimit : 1024 ≤ limit)
    (info : Option CompilationInfo) :
    ∃ analysis d₁ d₂ d₃, tilingAnalysis root = .ok analysis
      ∧ registerPass (defaultOptions width)
          { target := some target, rootOp := some root, compilationInfo := info } = .ok d₁
      ∧ dtcmPassWithLimit toInt64 getBound limit d₁ = .ok d₂
      ∧ workgroupPass d₂ = .ok d₃ := by
  obtain ⟨-, hoperands, hresults⟩ := shouldExecuteOnCoralNPU_true haccept
  obtain ⟨analysis, hanalysis, hb₁, hb₂⟩ := tilingAnalysis_of_supported hv hne hresults
  have hranges := one_le_range hv hne
  have hwf := tilingAnalysis_wellFormed hanalysis hranges
  have hadmits : Dispatch.Admits
      { target := some target, rootOp := some root, compilationInfo := info } target root analysis :=
    ⟨rfl, hbackend, rfl, hanalysis, hranges⟩
  obtain ⟨hroot, -, hrangesEq, -⟩ := tilingAnalysis_ok hanalysis
  -- the register pass
  obtain ⟨info₁, hinfo₁⟩ :=
    selectRegisterTiles_isOk_iff.mpr (registerArithmeticDefined hwf hb₁ hb₂ hvlen)
  have hregister : registerPass (defaultOptions width)
      { target := some target, rootOp := some root, compilationInfo := info }
      = .ok { target := some target, rootOp := some root, compilationInfo := some info₁ } := by
    unfold registerPass
    rw [runOnRoot_of_admits hadmits, hinfo₁]
    rfl
  -- the DTCM pass: it could only fail at the all-ones tile, which fits
  obtain ⟨s₀, hinit, hs₀⟩ := initialShrinkState_ok hwf.partitions target info₁.loweringConfig
  obtain ⟨s, hs, -, hcases⟩ := selectCacheTiles_cases hwf toInt64 getBound limit info₁ target hs₀
    hinit (fun _ => True) trivial fun _ _ _ _ _ _ => trivial
  rw [hroot] at hcases
  have hlen : s.dtcmTileSizes.length = root.getStaticLoopRanges.length := by
    rw [hs.length_eq hs₀, hrangesEq]
  obtain ⟨info₂, hselect, hlevel⟩ : ∃ info₂,
      selectCacheTiles toInt64 getBound limit (some info₁) target analysis = .ok info₂
      ∧ info₂.loweringConfig.hasTilingLevel .cacheParallelTiles = true := by
    rcases hcases with ⟨-, hpass⟩ | ⟨e, hover, -⟩ | ⟨hover, hones, -⟩
    · exact ⟨_, hpass, dtcmConfig_hasTilingLevel _ _ _⟩
    · obtain ⟨b, hb⟩ := (isOverBudget_isOk_iff toInt64 getBound limit hlen).mpr fun type hmem =>
        hasBitWidth_of_supported (hoperands type hmem)
      rw [hb] at hover
      cases hover
    · obtain ⟨footprint, hfootprint, hsmall⟩ := estimateFootprint_ones hv hoperands hexact
      rw [eq_onesTile hlen (by rw [← hrangesEq]; exact hones), isOverBudget, hfootprint] at hover
      simp only [ok_bind, pure_eq_ok, exceedsLimit, Except.ok.injEq, decide_eq_true_eq] at hover
      omega
  have hadmits₁ := hadmits.with_info (some info₁)
  have hadmits₂ := hadmits.with_info (some info₂)
  refine ⟨analysis, _, { target := some target, rootOp := some root, compilationInfo := some info₂ },
    { target := some target, rootOp := some root, compilationInfo := some { info₂ with
      loweringConfig := info₂.loweringConfig.updateConfigItem .distributionTiles
        (info₂.loweringConfig.getStaticTilingLevelSizes .cacheParallelTiles) } },
    hanalysis, hregister, ?_, ?_⟩
  · unfold dtcmPassWithLimit
    rw [runOnRoot_of_admits hadmits₁, hselect]
    rfl
  · unfold workgroupPass
    rw [runOnRoot_of_admits hadmits₂]
    simp only [selectWorkgroupTiles, hlevel, Bool.not_true, Bool.false_eq_true, if_false]
    rfl

/-- A 7 x 7 x 7 matmul of `i8` operands into `i32`. -/
def int8Matmul : RootOp :=
  Contraction.matmul.toRootOp (fun _ => 7) (.integer 8) (.integer 8) (.integer 32)

/-- It is offloaded, and tiled in 1 KiB. -/
theorem tilingPasses_of_shouldExecute_matmul :
    ∃ analysis d₁ d₂ d₃, tilingAnalysis int8Matmul = .ok analysis
      ∧ registerPass (defaultOptions 0)
          { target := some plainTarget, rootOp := some int8Matmul, compilationInfo := none } = .ok d₁
      ∧ dtcmPassWithLimit toInt64 dimBound 1024 d₁ = .ok d₂
      ∧ workgroupPass d₂ = .ok d₃ :=
  @tilingPasses_of_shouldExecute dimBound 0 int8Matmul
    (Contraction.matmul.toLinalgOp (fun _ => 7) (.integer 8) (.integer 8) (.integer 32))
    (by decide +kernel) ⟨rfl, rfl, ⟨_, _, rfl, rfl, rfl⟩, by decide⟩ (by unfold NonEmpty; decide)
    (Contraction.exactBounds (by decide) _ _ _ _) plainTarget rfl 0 (by decide) 1024 (by decide) none

end CoralNPU.Affinity
