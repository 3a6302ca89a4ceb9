import CoralNPU.Tiling.RegisterBudget

namespace CoralNPU.Tiling

open Lib

/-!
# Tiling — when the passes are defined

The tiling analysis admits operations for which the register and the DTCM pass divide by zero,
fail an assertion, or ask for the bit width of a type that has none.

* `IsPassFailure` — the failures that a pass reports;
* `estimateFootprint_isOk_iff` — the footprint is defined when every operand type has a width;
* `vectorWidth_isOk_iff`, `resolveAlignments_isOk_iff` — the arithmetic of the register pass;
* `dtcmPass_reports_iff` — the DTCM pass, also for loops that are empty;
* `passesDefined_iff` — the two passes in order.
-/

/-- The pass reports the failure. -/
def IsPassFailure : Failure → Prop
  | .passFailure _ => True
  | _ => False

/-- The pass succeeds, or reports a failure. -/
def Reports {α : Type} (result : Except Failure α) : Prop :=
  ∀ e, result = .error e → IsPassFailure e

/-- A result reports no failure. -/
theorem reports_ok {α : Type} (a : α) : Reports (.ok a : Except Failure α) := by
  intro e h
  cases h

/-- The pass reports no failure: it succeeds, or is undefined. -/
def NeverReports {α : Type} (result : Except Failure α) : Prop :=
  ∀ e, result = .error e → ¬ IsPassFailure e

section NeverReports

variable {α β : Type}

/-- A result is no report. -/
theorem neverReports_ok (a : α) : NeverReports (.ok a : Except Failure α) := by
  intro e h
  cases h

/-- Nor is an undefined operation. -/
theorem neverReports_error {e : Failure} (he : ¬ IsPassFailure e) :
    NeverReports (.error e : Except Failure α) := by
  intro e' h
  obtain rfl := Except.error.inj h
  exact he

/-- Two parts that report nothing, one after the other. -/
theorem NeverReports.bind {x : Except Failure α} {f : α → Except Failure β} (hx : NeverReports x)
    (hf : ∀ a, NeverReports (f a)) : NeverReports (x >>= f) := by
  intro e h
  rcases bind_eq_error.mp h with h | ⟨a, -, h⟩
  · exact hx e h
  · exact hf a e h

/-- A loop whose body reports nothing. -/
theorem neverReports_foldlM {f : β → α → Except Failure β} (hf : ∀ b a, NeverReports (f b a))
    (as : List α) (b : β) : NeverReports (as.foldlM f b) := by
  induction as generalizing b with
  | nil => exact neverReports_ok b
  | cons a as ih =>
    rw [List.foldlM_cons]
    exact (hf b a).bind ih

end NeverReports

/-! ### The footprint -/

/-- The estimate can ask for the width of the elements. -/
def ValueType.hasBitWidth : ValueType → Bool
  | .tensor t => t.elementType.isIntOrFloat
  | .scalar _ => true

/-- The bit width is defined for integers and floats. -/
theorem elementBytes_isOk_iff (type : ElementType) :
    (∃ n, elementBytes type = .ok n) ↔ type.isIntOrFloat = true := by
  cases type with
  | index => exact iff_of_false (by rintro ⟨n, h⟩; cases h) (by decide)
  | _ => exact iff_of_true ⟨_, rfl⟩ rfl

/-- So the bytes of an operand are defined if its type has a bit width. -/
theorem operandBytes_isOk_iff (normalize : Int → Int) (type : ValueType)
    (factors : TensorType → List Int) :
    (∃ n, operandBytes normalize type factors = .ok n) ↔ ValueType.hasBitWidth type = true := by
  cases type with
  | scalar _ => exact iff_of_true ⟨0, rfl⟩ rfl
  | tensor t =>
    show _ ↔ t.elementType.isIntOrFloat = true
    rw [← elementBytes_isOk_iff]
    exact bind_isOk_iff fun _ => ⟨_, rfl⟩

/-- The same for an operand of a linalg operation. -/
theorem estimateLinalgOperandFootprint_isOk_iff (normalize : Int → Int) (getBound : BoundFn)
    {op : LinalgOp} {tileSizes : List Int} (hlen : tileSizes.length = op.getStaticLoopRanges.length)
    (operand : LinalgOperand) :
    (∃ n, estimateLinalgOperandFootprint normalize getBound op tileSizes operand = .ok n) ↔
      ValueType.hasBitWidth operand.type = true := by
  unfold estimateLinalgOperandFootprint
  cases operand.type with
  | scalar _ => exact iff_of_true ⟨0, rfl⟩ rfl
  | tensor t =>
    show _ ↔ t.elementType.isIntOrFloat = true
    rw [← elementBytes_isOk_iff]
    simp only [hlen, ne_eq, not_true_eq_false, if_false]
    exact bind_isOk_iff fun _ => ⟨_, rfl⟩

/-- Every operand's estimate is defined when every operand type has a width. -/
theorem operandFootprints_isOk_iff (normalize : Int → Int) (getBound : BoundFn) {root : RootOp}
    {t : List Int} (hlen : t.length = root.getStaticLoopRanges.length) :
    (∀ x ∈ operandFootprints normalize getBound root t, ∃ n, x = .ok n) ↔
      ∀ type ∈ root.operandTypes, ValueType.hasBitWidth type = true := by
  unfold operandFootprints RootOp.operandTypes
  cases hop : root.op with
  | linalg op =>
    have hlen' : t.length = op.getStaticLoopRanges.length := by
      rw [hlen]
      simp only [RootOp.getStaticLoopRanges, hop]
    simp only [List.forall_mem_map]
    exact forall₂_congr fun operand _ =>
      estimateLinalgOperandFootprint_isOk_iff normalize getBound hlen' operand
  | pack op =>
    simp only [List.forall_mem_append, List.forall_mem_cons, List.forall_mem_map,
      List.not_mem_nil, false_imp_iff, forall_const, and_true, estimatePackSourceFootprint,
      estimatePackDestFootprint, estimateWholeFootprint, operandBytes_isOk_iff, and_assoc]
  | unpack op =>
    simp only [List.forall_mem_append, List.forall_mem_cons, List.forall_mem_map,
      List.not_mem_nil, false_imp_iff, forall_const, and_true, estimateUnpackSourceFootprint,
      estimateUnpackDestFootprint, estimateWholeFootprint, operandBytes_isOk_iff, and_assoc]
  | other op =>
    simp only [List.forall_mem_map, estimateOtherFootprint, operandBytes_isOk_iff]

/-- A sum is defined when its terms are. -/
theorem sum_isOk_iff (normalize : Int → Int) (xs : List (Except Failure Int)) (a : Int) :
    (∃ n, xs.foldlM (fun total footprint => do return normalize (total + (← footprint))) a = .ok n) ↔
      ∀ x ∈ xs, ∃ n, x = .ok n := by
  induction xs generalizing a with
  | nil => exact iff_of_true ⟨a, rfl⟩ (by simp)
  | cons x xs ih =>
    rw [List.foldlM_cons, List.forall_mem_cons]
    cases x with
    | error e => exact iff_of_false (by rintro ⟨n, h⟩; cases h) (by rintro ⟨⟨n, h⟩, -⟩; cases h)
    | ok m =>
      rw [and_iff_right ⟨m, rfl⟩, ← ih (normalize (a + m))]
      rfl

/-- **The budget test is defined** when every operand type has a width. -/
theorem isOverBudget_isOk_iff (normalize : Int → Int) (getBound : BoundFn) {root : RootOp}
    (limit : Int) {t : List Int} (hlen : t.length = root.getStaticLoopRanges.length) :
    (∃ b, isOverBudget normalize getBound root limit t = .ok b) ↔
      ∀ type ∈ root.operandTypes, ValueType.hasBitWidth type = true := by
  rw [← operandFootprints_isOk_iff normalize getBound hlen, ← sum_isOk_iff normalize _ 0]
  show (∃ b, (estimateFootprint normalize getBound root t >>= _) = .ok b) ↔
    ∃ n, estimateFootprint normalize getBound root t = .ok n
  exact bind_isOk_iff fun _ => ⟨_, rfl⟩

/-! ### The register pass -/

/-- The vector width is defined if the divisor is not zero, and positive if a vector holds an
    element. -/
theorem vectorWidth_isOk_iff (vlenBits elemSizeBytes : Int) :
    (∃ vw, vectorWidth vlenBits elemSizeBytes = .ok vw) ↔
      elemSizeBytes ≠ 0 ∧ 0 < (vlenBits.tdiv 8).tdiv elemSizeBytes := by
  unfold vectorWidth divide
  by_cases hzero : elemSizeBytes = 0
  · rw [if_pos hzero]
    exact iff_of_false (by rintro ⟨vw, h⟩; cases h) fun h => h.1 hzero
  · rw [if_neg hzero, pure_eq_ok, ok_bind, and_iff_right hzero]
    by_cases hpos : (vlenBits.tdiv 8).tdiv elemSizeBytes > 0
    · rw [if_neg (not_not.mpr hpos)]
      exact iff_of_true ⟨_, rfl⟩ hpos
    · rw [if_pos hpos]
      exact iff_of_false (by rintro ⟨vw, h⟩; cases h) hpos

/-- The loop over the unroll loops is defined when none of them is empty. -/
theorem maxFullUnroll_isOk_iff {vw : Int} (hvw : 1 ≤ vw) (ranges : List Int) (loops : List Nat) :
    (∃ m, maxFullUnroll vw ranges loops = .ok m) ↔ ∀ i ∈ loops, 0 < ranges.getD i 0 := by
  refine ⟨fun ⟨m, h⟩ => ?_, fun h => ⟨_, maxFullUnroll_ok hvw h⟩⟩
  refine foldlM_prefix (fun done _ => ∀ i ∈ done, 0 < ranges.getD i 0)
    (fun done b b' i _ hdone hstep => ?_) (fun i hi => absurd hi List.not_mem_nil) h
  have hpos : 0 < ranges.getD i 0 := by
    by_contra hpos
    simp only [gt_iff_lt, hpos, not_false_eq_true, if_true, throw_eq_error, error_bind] at hstep
    cases hstep
  exact List.forall_mem_append.mpr ⟨hdone, List.forall_mem_singleton.mpr hpos⟩

/-- The alignments are defined when the division for the unroll factor is, and no unroll loop
    is empty; neither matters where the unroll alignment is given. -/
theorem resolveAlignments_isOk_iff {vw : Int} (hvw : 1 ≤ vw) (numRegisters : Int)
    (loops : LoopClassification) (ranges : List Int) (parallelAlignment : Int)
    (initial : Alignments) :
    (∃ a, resolveAlignments vw numRegisters loops ranges parallelAlignment initial = .ok a) ↔
      (loops.unrollLoops ≠ [] → initial.unrollAlign = 0 →
        1 + initial.vectorAlign ≠ 0 ∧ ∀ i ∈ loops.unrollLoops, 0 < ranges.getD i 0) := by
  unfold resolveAlignments
  by_cases hne : loops.unrollLoops = []
  · simp only [hne, List.isEmpty_nil, if_true]
    refine iff_of_true ?_ fun h => absurd rfl h
    split
    · exact ⟨_, rfl⟩
    · split <;> exact ⟨_, rfl⟩
  · rw [if_neg (by simpa using hne), imp_iff_right hne]
    -- the vector alignment is the option, or a positive default
    obtain ⟨a, ha, hzero, hunroll⟩ : ∃ a : Alignments,
        a = (if initial.vectorAlign = 0 then { initial with vectorAlign := min vw 8 } else initial)
        ∧ (1 + a.vectorAlign = 0 ↔ 1 + initial.vectorAlign = 0)
        ∧ a.unrollAlign = initial.unrollAlign := by
      refine ⟨_, rfl, ?_, ?_⟩
      · split
        · next hv =>
          have halign : 1 ≤ min vw 8 := le_min hvw (by norm_num)
          rw [hv]
          exact iff_of_false (by simp only; omega) (by omega)
        · exact Iff.rfl
      · split <;> rfl
    simp only [← ha]
    by_cases hgiven : initial.unrollAlign = 0
    · rw [if_neg (by rw [hunroll]; exact not_not.mpr hgiven), imp_iff_right hgiven, ne_eq, ← hzero]
      unfold divide
      by_cases hdiv : 1 + a.vectorAlign = 0
      · rw [if_pos hdiv]
        exact iff_of_false (by rintro ⟨r, h⟩; cases h) fun h => h.1 hdiv
      · rw [if_neg hdiv, pure_eq_ok, ok_bind, and_iff_right hdiv]
        constructor
        · rintro ⟨r, h⟩
          obtain ⟨m, hm, -⟩ := bind_eq_ok.mp h
          exact (maxFullUnroll_isOk_iff hvw ranges _).mp ⟨m, hm⟩
        · intro hpos
          have hone := one_le_largestUnroll hvw hne hpos
          rw [maxFullUnroll_ok hvw hpos, ok_bind, if_neg (by omega)]
          exact ⟨_, rfl⟩
    · rw [if_pos (by rw [hunroll]; exact hgiven)]
      exact iff_of_true ⟨a, rfl⟩ fun h => absurd h hgiven

section Passes

variable {target : Target} {options : RegisterOptions} {analysis : TilingAnalysis} {root : RootOp}
  {dispatch : Dispatch}

/-- The arithmetic of the register pass is defined: the vector width is positive, and where the
    unroll factor is computed, its divisor is not zero and no unroll loop is empty. -/
structure RegisterArithmeticDefined (target : Target) (options : RegisterOptions)
    (analysis : TilingAnalysis) : Prop where
  elemSize : analysis.elemSizeBytes ≠ 0
  width : 0 < ((vlenBits target options).tdiv 8).tdiv analysis.elemSizeBytes
  unroll : hasMatrix target analysis.rootTilingOp = false →
    analysis.classification.unrollLoops ≠ [] → options.unrollAlignment = 0 →
      1 + options.vectorAlignment ≠ 0 ∧
        ∀ i ∈ analysis.classification.unrollLoops, 0 < analysis.staticLoopRanges.getD i 0

/-- **The register pass is defined** exactly if its arithmetic is. -/
theorem selectRegisterTiles_isOk_iff :
    (∃ info, selectRegisterTiles options target analysis = .ok info) ↔
      RegisterArithmeticDefined target options analysis := by
  have hwidth := vectorWidth_isOk_iff (vlenBits target options) analysis.elemSizeBytes
  constructor
  · rintro ⟨info, h⟩
    obtain ⟨vw, alignments, hvw, hal, -⟩ := selectRegisterTiles_ok h
    obtain ⟨helem, hpos⟩ := hwidth.mp ⟨vw, hvw⟩
    refine ⟨helem, hpos, fun hmatrix => ?_⟩
    unfold registerAlignments at hal
    simp only [hmatrix, Bool.false_eq_true, if_false] at hal
    exact (resolveAlignments_isOk_iff (vectorWidth_pos hvw) _ _ _ _ _).mp ⟨alignments, hal⟩
  · rintro ⟨helem, hpos, hunroll⟩
    obtain ⟨vw, hvw⟩ := hwidth.mpr ⟨helem, hpos⟩
    obtain ⟨alignments, hal⟩ : ∃ a, registerAlignments target options analysis vw = .ok a := by
      unfold registerAlignments
      by_cases hmatrix : hasMatrix target analysis.rootTilingOp = true
      · rw [if_pos hmatrix]
        exact ⟨_, rfl⟩
      · rw [if_neg hmatrix]
        exact (resolveAlignments_isOk_iff (vectorWidth_pos hvw) _ _ _ _ _).mpr
          (hunroll ((Bool.not_eq_true _).mp hmatrix))
    rw [selectRegisterTiles, hvw, ok_bind, hal, ok_bind]
    exact ⟨_, rfl⟩

/-- A division reports nothing. -/
theorem neverReports_divide (expression : String) (x y : Int) :
    NeverReports (divide expression x y) := by
  unfold divide
  split
  · exact neverReports_error id
  · exact neverReports_ok _

/-- Nor does the loop over the unrolled loops. -/
theorem neverReports_maxFullUnroll (vw : Int) (ranges : List Int) (loops : List Nat) :
    NeverReports (maxFullUnroll vw ranges loops) := by
  refine neverReports_foldlM (fun m i => ?_) _ _
  have hceil : NeverReports (divideCeil (ranges.getD i 0) vw) := by
    unfold divideCeil
    split
    · exact neverReports_error id
    · exact neverReports_ok _
  simp only
  split
  · exact neverReports_error id
  · exact hceil.bind fun _ => neverReports_ok _

/-- Nor does the choice of the alignments. -/
theorem neverReports_resolveAlignments (vw numRegisters : Int) (loops : LoopClassification)
    (ranges : List Int) (parallelAlignment : Int) (initial : Alignments) :
    NeverReports (resolveAlignments vw numRegisters loops ranges parallelAlignment initial) := by
  unfold resolveAlignments
  by_cases hne : loops.unrollLoops = []
  · simp only [hne, List.isEmpty_nil, if_true]
    split
    · exact neverReports_ok _
    · split <;> exact neverReports_ok _
  · rw [if_neg (by simpa using hne)]
    generalize (if initial.vectorAlign = 0 then
      ({ initial with vectorAlign := min vw 8 } : Alignments) else initial) = a
    simp only
    split
    · exact neverReports_ok _
    · refine (neverReports_divide _ _ _).bind fun _ =>
        (neverReports_maxFullUnroll _ _ _).bind fun m => ?_
      split
      · exact neverReports_error id
      · exact neverReports_ok _

/-- The register pass reports no failure of its own. -/
theorem neverReports_selectRegisterTiles (options : RegisterOptions) (target : Target)
    (analysis : TilingAnalysis) : NeverReports (selectRegisterTiles options target analysis) := by
  unfold selectRegisterTiles
  refine NeverReports.bind ?_ fun vw => NeverReports.bind ?_ fun _ => neverReports_ok _
  · unfold vectorWidth
    refine (neverReports_divide _ _ _).bind fun vw => ?_
    split
    · exact neverReports_error id
    · exact neverReports_ok _
  · unfold registerAlignments
    split
    · exact neverReports_ok _
    · exact neverReports_resolveAlignments _ _ _ _ _ _

/-- **The register pass** succeeds or reports a failure exactly when its arithmetic is
    defined. -/
theorem registerPass_reports_iff (h : dispatch.Analyzes target root analysis) :
    Reports (registerPass options dispatch) ↔ RegisterArithmeticDefined target options analysis := by
  unfold registerPass
  rw [runOnRoot_of_analyzes h, ← selectRegisterTiles_isOk_iff]
  cases hselect : selectRegisterTiles options target analysis with
  | ok info => exact iff_of_true (reports_ok _) ⟨info, rfl⟩
  | error e =>
    refine iff_of_false (fun hreports => ?_) (by rintro ⟨info, h⟩; cases h)
    exact neverReports_selectRegisterTiles options target analysis e hselect (hreports e rfl)

/-! ### The DTCM pass -/

/-- The shrink loop gives up only with the failure it reports. -/
theorem shrinkOnce_error_eq {s : ShrinkState} (hs : s.Aligned) {loops : LoopClassification}
    {ranges : List Int} {e : Failure} (h : shrinkOnce loops ranges s = .error e) : e = cannotFit := by
  rw [shrinkOnce_eq hs] at h
  cases hh : halveFirst (s.slots loops) s.dtcmTileSizes with
  | some tiles => rw [hh] at h; cases h
  | none =>
    simp only [hh] at h
    split at h
    · cases h
    · exact (Except.error.inj h).symm

/-- **The DTCM pass** succeeds or reports a failure exactly when every operand type has a bit
    width: its alignments are positive, and its loop ends, whatever the loop ranges. -/
theorem dtcmPass_reports_iff (normalize : Int → Int) (getBound : BoundFn) (limit : Int)
    (h : dispatch.Analyzes target root analysis) {info : CompilationInfo}
    (hinfo : dispatch.compilationInfo = some info) :
    Reports (dtcmPassWithLimit normalize getBound limit dispatch) ↔
      ∀ type ∈ root.operandTypes, ValueType.hasBitWidth type = true := by
  have hpart := tilingAnalysis_partitions h.analysis_eq
  obtain ⟨hroot, -, hranges, -⟩ := tilingAnalysis_ok h.analysis_eq
  obtain ⟨s₀, hinit, hs₀⟩ := initialShrinkState_ok hpart target info.loweringConfig
  set isOver := isOverBudget normalize getBound analysis.rootTilingOp limit with hisOver
  obtain ⟨r, s, hr, hs, -, hexit⟩ := shrinkLoop_exit hs₀ hpart isOver (fun _ => True) trivial
    fun _ _ _ _ _ _ => trivial
  have hdefined : ∀ s, ShrinkPhase analysis.classification analysis.staticLoopRanges s₀ s →
      ((∃ b, isOver s.dtcmTileSizes = .ok b) ↔
        ∀ type ∈ root.operandTypes, ValueType.hasBitWidth type = true) := by
    intro s hs
    rw [hisOver, hroot]
    exact isOverBudget_isOk_iff normalize getBound limit (by rw [hs.length_eq hs₀, hranges])
  have hpass : dtcmPassWithLimit normalize getBound limit dispatch
      = (r >>= fun s => .ok { info with
          loweringConfig := dtcmConfig analysis info.loweringConfig s }) >>= fun info =>
        .ok { dispatch with compilationInfo := some info } := by
    unfold dtcmPassWithLimit
    rw [runOnRoot_of_analyzes h, hinfo]
    simp only [selectCacheTiles, hinit, ok_bind, ← hisOver, hr]
    rfl
  rw [hpass, ← hdefined s hs]
  -- the loop returns the result of the body in the state it stops in
  unfold shrinkBody at hexit
  cases ho : isOver s.dtcmTileSizes with
  | error e =>
    rw [ho] at hexit
    obtain rfl := Sum.inr.inj hexit
    refine iff_of_false (fun hreports => ?_) (by rintro ⟨b, h⟩; cases h)
    obtain ⟨condition, rfl⟩ := isOverBudget_error ho
    exact hreports _ rfl
  | ok b =>
    refine iff_of_true ?_ ⟨b, rfl⟩
    rw [ho] at hexit
    cases b with
    | false =>
      obtain rfl := Sum.inr.inj hexit
      exact reports_ok _
    | true =>
      cases hstep : shrinkOnce analysis.classification analysis.staticLoopRanges s with
      | ok s' => simp only [hstep] at hexit; cases hexit
      | error e =>
        simp only [hstep] at hexit
        obtain rfl := Sum.inr.inj hexit
        obtain rfl := shrinkOnce_error_eq (hs.aligned_state hs₀) hstep
        intro e he
        obtain rfl := Except.error.inj he
        trivial

end Passes

/-! ### Both passes -/

/-- The tiling analysis reports success: the function has no compute operation, or an admitted
    root operation. -/
def Dispatch.AnalysisSucceeds (dispatch : Dispatch) : Prop :=
  ∀ root, dispatch.rootOp = some root → ∃ analysis, tilingAnalysis root = .ok analysis

/-- The register pass, and the DTCM pass on what it leaves, succeed or report a failure: neither
    divides by zero, fails an assertion or asks for the width of a type that has none. -/
def PassesDefined (normalize : Int → Int) (getBound : BoundFn) (options : RegisterOptions)
    (limit : Int) (dispatch : Dispatch) : Prop :=
  Reports (registerPass options dispatch) ∧
    ∀ d₁, registerPass options dispatch = .ok d₁ →
      Reports (dtcmPassWithLimit normalize getBound limit d₁)

/-- Where the backend owns the function and there is a root operation: the arithmetic of the
    register pass is defined, and every operand type has a bit width. -/
def TilingDefined (options : RegisterOptions) (dispatch : Dispatch) : Prop :=
  ∀ target root analysis, dispatch.Analyzes target root analysis →
    RegisterArithmeticDefined target options analysis
      ∧ ∀ type ∈ root.operandTypes, ValueType.hasBitWidth type = true

/-- **What the analysis admits is processed without undefined arithmetic exactly when** the
    arithmetic of the register pass is defined and every operand type has a bit width: the
    analysis checks neither. -/
theorem passesDefined_iff (normalize : Int → Int) (getBound : BoundFn) (options : RegisterOptions)
    (limit : Int) {dispatch : Dispatch} (h : dispatch.AnalysisSucceeds) :
    PassesDefined normalize getBound options limit dispatch ↔ TilingDefined options dispatch := by
  by_cases hruns : ∃ target root analysis, dispatch.Analyzes target root analysis
  · obtain ⟨target, root, analysis, han⟩ := hruns
    -- there is one analysis
    have hone : TilingDefined options dispatch ↔ RegisterArithmeticDefined target options analysis
        ∧ ∀ type ∈ root.operandTypes, ValueType.hasBitWidth type = true := by
      refine ⟨fun hall => hall target root analysis han, fun hthis t r a han' => ?_⟩
      obtain rfl := Option.some.inj (han.target_eq.symm.trans han'.target_eq)
      obtain rfl := Option.some.inj (han.rootOp_eq.symm.trans han'.rootOp_eq)
      obtain rfl := Except.ok.inj (han.analysis_eq.symm.trans han'.analysis_eq)
      exact hthis
    rw [hone, PassesDefined, registerPass_reports_iff han]
    refine and_congr_right fun hdefined => ?_
    obtain ⟨info, hselect⟩ := selectRegisterTiles_isOk_iff.mpr hdefined
    have hpass : registerPass options dispatch
        = .ok { dispatch with compilationInfo := some info } := by
      unfold registerPass
      rw [runOnRoot_of_analyzes han, hselect]
      rfl
    have han' : ({ dispatch with compilationInfo := some info } : Dispatch).Analyzes target root
        analysis := ⟨han.1, han.2, han.3, han.4⟩
    rw [← dtcmPass_reports_iff normalize getBound limit han' rfl, hpass]
    refine ⟨fun hall => hall _ rfl, fun hthis d₁ hd₁ => ?_⟩
    obtain rfl := Except.ok.inj hd₁
    exact hthis
  · -- the passes leave the function alone
    have hskip : ∀ pass, runOnRoot dispatch pass = .ok dispatch := by
      intro pass
      unfold runOnRoot
      split
      · rfl
      · next target htarget =>
        split
        · rfl
        · next hbackend =>
          split
          · rfl
          · next root hroot =>
            obtain ⟨analysis, hanalysis⟩ := h root hroot
            exact absurd ⟨target, root, analysis, htarget, not_not.mp hbackend, hroot, hanalysis⟩ hruns
    refine iff_of_true ⟨?_, fun d₁ hd₁ => ?_⟩ fun target root analysis han =>
      absurd ⟨target, root, analysis, han⟩ hruns
    · unfold registerPass
      rw [hskip]
      exact reports_ok _
    · unfold registerPass at hd₁
      rw [hskip] at hd₁
      obtain rfl := Except.ok.inj hd₁
      unfold dtcmPassWithLimit
      rw [hskip]
      exact reports_ok _

/-- A matmul without columns. -/
def emptyMatmul : RootOp :=
  Contraction.matmul.toRootOp (fun d => if d = 1 then 0 else 4)
    (.integer 32) (.integer 32) (.integer 32)

/-- The analysis of the empty matmul succeeds. -/
theorem emptyMatmul_analysisSucceeds : (dispatchOf none emptyMatmul).AnalysisSucceeds := by
  intro root hroot
  obtain rfl := Option.some.inj hroot
  exact ⟨⟨emptyMatmul, classifyLoops emptyMatmul, [4, 0, 4], 4⟩, by decide⟩

/-- The analysis admits the empty matmul, and the register pass fails an assertion on it. -/
theorem emptyMatmul_undefined :
    (dispatchOf none emptyMatmul).AnalysisSucceeds
      ∧ registerPass {} (dispatchOf none emptyMatmul) = .error (.assertion "unrollLoopSize > 0")
      ∧ ¬ PassesDefined toInt64 dimBound {} 8192 (dispatchOf none emptyMatmul) := by
  have hpass : registerPass {} (dispatchOf none emptyMatmul)
      = .error (.assertion "unrollLoopSize > 0") := by decide +kernel
  exact ⟨emptyMatmul_analysisSucceeds, hpass, fun h => h.1 _ hpass⟩

/-- The criterion at the empty matmul. -/
theorem passesDefined_iff_emptyMatmul :
    PassesDefined toInt64 dimBound {} 8192 (dispatchOf none emptyMatmul) ↔
      TilingDefined {} (dispatchOf none emptyMatmul) :=
  passesDefined_iff toInt64 dimBound {} 8192 emptyMatmul_analysisSucceeds

end CoralNPU.Tiling
