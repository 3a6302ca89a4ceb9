import CoralNPU.Tiling.CacheConfig
import CoralNPU.Tiling.NamedOps

namespace CoralNPU.Tiling

open Lib

/-!
# Tiling — the DTCM pass decides fitting exactly

* `isOverBudget_mono` — a tile above one that is over budget is over budget;
* `dtcmPass_fits_iff` — the pass emits a tile within the budget, or reports failure, and it
  reports failure exactly when the all-ones tile is over budget.

The estimate is taken with unbounded arithmetic (`id`) and exact affine bounds.
-/

/-! ### How an estimate fails -/

theorem elementBytes_error {type : ElementType} {e : Failure} (h : elementBytes type = .error e) :
    ∃ condition, e = .assertion condition := by
  unfold elementBytes at h
  rcases bind_eq_error.mp h with h | ⟨_, _, h⟩
  · cases type <;> cases h
    exact ⟨_, rfl⟩
  · cases h

theorem operandBytes_error {normalize : Int → Int} {type : ValueType}
    {factors : TensorType → List Int} {e : Failure}
    (h : operandBytes normalize type factors = .error e) : ∃ condition, e = .assertion condition := by
  cases type with
  | scalar _ => cases h
  | tensor t =>
    rcases bind_eq_error.mp h with h | ⟨_, _, h⟩
    · exact elementBytes_error h
    · cases h

theorem operandFootprints_error {normalize : Int → Int} {getBound : BoundFn} {root : RootOp}
    {t : List Int} {e : Failure} (h : .error e ∈ operandFootprints normalize getBound root t) :
    ∃ condition, e = .assertion condition := by
  unfold operandFootprints at h
  cases hop : root.op with
  | linalg op =>
    rw [hop] at h
    obtain ⟨operand, -, h⟩ := List.mem_map.mp h
    unfold estimateLinalgOperandFootprint at h
    cases htype : operand.type with
    | scalar _ => rw [htype] at h; cases h
    | tensor type =>
      rw [htype] at h
      rcases bind_eq_error.mp h with h | ⟨_, _, h⟩
      · exact elementBytes_error h
      · split at h
        · cases h; exact ⟨_, rfl⟩
        · cases h
  | pack op =>
    simp only [hop, List.mem_append, List.mem_cons, List.not_mem_nil, or_false, List.mem_map] at h
    rcases h with (h | h) | ⟨type, -, h⟩
    · exact operandBytes_error h.symm
    · exact operandBytes_error h.symm
    · exact operandBytes_error h
  | unpack op =>
    simp only [hop, List.mem_append, List.mem_cons, List.not_mem_nil, or_false, List.mem_map] at h
    rcases h with (h | h) | ⟨type, -, h⟩
    · exact operandBytes_error h.symm
    · exact operandBytes_error h.symm
    · exact operandBytes_error h
  | other op =>
    rw [hop] at h
    obtain ⟨type, -, h⟩ := List.mem_map.mp h
    exact operandBytes_error h

/-- An undefined estimate is a failed assertion, never a reported failure. -/
theorem isOverBudget_error {normalize : Int → Int} {getBound : BoundFn} {root : RootOp}
    {limit : Int} {t : List Int} {e : Failure}
    (h : isOverBudget normalize getBound root limit t = .error e) :
    ∃ condition, e = .assertion condition := by
  have hfold : ∀ (xs : List (Except Failure Int)) (a : Int),
      xs.foldlM (fun total footprint => do return normalize (total + (← footprint))) a = .error e →
      .error e ∈ xs := by
    intro xs
    induction xs with
    | nil => intro a h; cases h
    | cons x xs ih =>
      intro a h
      rw [List.foldlM_cons] at h
      rcases bind_eq_error.mp h with h | ⟨b, _, h⟩
      · rcases bind_eq_error.mp h with h | ⟨_, _, h⟩
        · exact h ▸ List.mem_cons_self
        · cases h
      · exact List.mem_cons_of_mem _ (ih b h)
  unfold isOverBudget at h
  rcases bind_eq_error.mp h with h | ⟨_, _, h⟩
  · exact operandFootprints_error (hfold _ _ h)
  · cases h

/-! ### The budget -/

/-- The test is made on the footprint, with the safety factor. -/
theorem isOverBudget_eq_ok_iff {normalize : Int → Int} {getBound : BoundFn} {root : RootOp}
    {limit : Int} {t : List Int} {b : Bool} :
    isOverBudget normalize getBound root limit t = .ok b ↔
      ∃ footprint, estimateFootprint normalize getBound root t = .ok footprint ∧
        (b = true ↔ ¬ 6 * footprint ≤ 5 * limit) := by
  rw [isOverBudget, bind_eq_ok]
  refine exists_congr fun footprint => and_congr_right fun _ => ?_
  rw [← exceedsLimit_iff, pure_eq_ok, Except.ok.injEq, eq_comm, Bool.eq_iff_iff]

/-- **Monotonicity of the budget test.** A larger tile than one over budget is over budget;
    the test fails for both tiles or for neither. -/
theorem isOverBudget_mono {getBound : BoundFn} {root : RootOp} (hexact : ExactBounds getBound root)
    (hstatic : root.HasStaticShapes) {t t' : List Int} (ht : TileLE t t')
    (hrank : t.length = root.getStaticLoopRanges.length) (limit : Int)
    (h : isOverBudget id getBound root limit t = .ok true) :
    isOverBudget id getBound root limit t' = .ok true := by
  have hle := estimateFootprint_mono hexact hstatic ht hrank
  unfold isOverBudget at h ⊢
  generalize estimateFootprint id getBound root t = x at h hle
  generalize estimateFootprint id getBound root t' = y at hle ⊢
  cases hle with
  | error e => cases h
  | ok hab =>
    simp only [ok_bind, pure_eq_ok, exceedsLimit, Except.ok.injEq, decide_eq_true_eq] at h ⊢
    omega

/-- The all-ones tile of a root operation. -/
def onesTile (root : RootOp) : List Int := List.replicate root.getStaticLoopRanges.length 1

/-- The all-ones tile is below every tile. -/
theorem onesTile_le {root : RootOp} {t : List Int}
    (hlen : t.length = root.getStaticLoopRanges.length)
    (ht : ∀ i, i < t.length → 1 ≤ t.getD i 0) : TileLE (onesTile root) t := by
  have hone : ∀ i, i < root.getStaticLoopRanges.length → (onesTile root).getD i 0 = 1 := by
    intro i hi
    simp [onesTile, List.getD_eq_getElem?_getD, hi]
  refine ⟨by simp [onesTile, hlen], fun i hi => ?_, fun i hi => ?_⟩
  · rw [hone i (by simpa [onesTile] using hi)]
  · have hi' : i < root.getStaticLoopRanges.length := by simpa [onesTile] using hi
    rw [hone i hi']
    exact ht i (by omega)

/-- A tile of ones is the all-ones tile. -/
theorem eq_onesTile {root : RootOp} {t : List Int}
    (hlen : t.length = root.getStaticLoopRanges.length)
    (ht : ∀ i, i < root.getStaticLoopRanges.length → t.getD i 0 = 1) : t = onesTile root := by
  refine List.ext_getElem (by simp [onesTile, hlen]) fun i hi _ => ?_
  have := ht i (by omega)
  rw [List.getD_eq_getElem _ _ hi] at this
  rw [this]
  simp [onesTile]

/-! ### The pass -/

/-- The DTCM pass with a limit in bytes. -/
def dtcmPassWithLimit (normalize : Int → Int) (getBound : BoundFn) (limit : Int)
    (dispatch : Dispatch) : Except Failure Dispatch :=
  runOnRoot dispatch (selectCacheTiles normalize getBound limit dispatch.compilationInfo)

/-- A dispatch function the passes work on: it targets the backend, and its root operation
    is admitted and has no empty loop. -/
structure Dispatch.Admits (dispatch : Dispatch) (target : Target) (root : RootOp)
    (analysis : TilingAnalysis) : Prop where
  target_eq : dispatch.target = some target
  backend_eq : target.backend = "coralnpu"
  rootOp_eq : dispatch.rootOp = some root
  analysis_eq : tilingAnalysis root = .ok analysis
  one_le_range : ∀ r ∈ root.getStaticLoopRanges, 1 ≤ r

/-- A function of the backend with an admitted root operation, whatever its loop ranges. -/
structure Dispatch.Analyzes (dispatch : Dispatch) (target : Target) (root : RootOp)
    (analysis : TilingAnalysis) : Prop where
  target_eq : dispatch.target = some target
  backend_eq : target.backend = "coralnpu"
  rootOp_eq : dispatch.rootOp = some root
  analysis_eq : tilingAnalysis root = .ok analysis

theorem Dispatch.Admits.analyzes {dispatch : Dispatch} {target : Target} {root : RootOp}
    {analysis : TilingAnalysis} (h : dispatch.Admits target root analysis) :
    dispatch.Analyzes target root analysis := ⟨h.1, h.2, h.3, h.4⟩

/-- On such a function a pass runs on the analysis of the root operation. -/
theorem runOnRoot_of_analyzes {dispatch : Dispatch} {target : Target} {root : RootOp}
    {analysis : TilingAnalysis} (h : dispatch.Analyzes target root analysis)
    (pass : Target → TilingAnalysis → Except Failure CompilationInfo) :
    runOnRoot dispatch pass
      = pass target analysis >>= fun info =>
          .ok { dispatch with compilationInfo := some info } := by
  unfold runOnRoot
  simp only [h.target_eq, h.rootOp_eq, h.analysis_eq, h.backend_eq, ne_eq, not_true_eq_false,
    if_false, ok_bind]
  rfl

theorem runOnRoot_of_admits {dispatch : Dispatch} {target : Target} {root : RootOp}
    {analysis : TilingAnalysis} (h : dispatch.Admits target root analysis)
    (pass : Target → TilingAnalysis → Except Failure CompilationInfo) :
    runOnRoot dispatch pass
      = pass target analysis >>= fun info =>
          .ok { dispatch with compilationInfo := some info } :=
  runOnRoot_of_analyzes h.analyzes pass

/-- **Fitting is decided exactly.** Whatever register tiles the function comes with: a tile
    the pass emits is within the budget, and the pass reports failure exactly when even the
    all-ones tile is over budget. -/
theorem dtcmPass_fits_iff {getBound : BoundFn} {dispatch : Dispatch} {target : Target}
    {root : RootOp} {analysis : TilingAnalysis} (h : dispatch.Admits target root analysis)
    (hexact : ExactBounds getBound root) (hstatic : root.HasStaticShapes)
    {info : CompilationInfo} (hinfo : dispatch.compilationInfo = some info) (limit : Int) :
    (∀ dispatch' info', dtcmPassWithLimit id getBound limit dispatch = .ok dispatch' →
      dispatch'.compilationInfo = some info' →
      ∃ footprint, estimateFootprint id getBound root (emittedTile info'.loweringConfig) = .ok footprint
        ∧ 6 * footprint ≤ 5 * limit)
    ∧ ((∃ message, dtcmPassWithLimit id getBound limit dispatch = .error (.passFailure message)) ↔
      ∃ footprint, estimateFootprint id getBound root (onesTile root) = .ok footprint
        ∧ ¬ 6 * footprint ≤ 5 * limit) := by
  have hfits : ∀ t, isOverBudget id getBound root limit t = .ok false ↔
      ∃ footprint, estimateFootprint id getBound root t = .ok footprint ∧ 6 * footprint ≤ 5 * limit :=
    fun t => isOverBudget_eq_ok_iff.trans (by simp)
  have hexceeds : ∀ t, isOverBudget id getBound root limit t = .ok true ↔
      ∃ footprint, estimateFootprint id getBound root t = .ok footprint ∧ ¬ 6 * footprint ≤ 5 * limit :=
    fun t => isOverBudget_eq_ok_iff.trans (by simp)
  rw [← hexceeds]
  have hwf := tilingAnalysis_wellFormed h.analysis_eq h.one_le_range
  obtain ⟨hroot, -, hranges, -⟩ := tilingAnalysis_ok h.analysis_eq
  obtain ⟨s₀, hinit, hs₀⟩ := initialShrinkState_ok hwf.partitions target info.loweringConfig
  obtain ⟨s, hs, -, hcases⟩ := selectCacheTiles_cases hwf id getBound limit info target hs₀ hinit
    (fun _ => True) trivial fun _ _ _ _ _ _ => trivial
  have hlen : s.dtcmTileSizes.length = root.getStaticLoopRanges.length := by
    rw [hs.length_eq hs₀, hranges]
  have hone : ∀ i, i < s.dtcmTileSizes.length → 1 ≤ s.dtcmTileSizes.getD i 0 := fun i hi =>
    (hs.tile_spec hs₀ hwf (hs.length_eq hs₀ ▸ hi)).1
  unfold dtcmPassWithLimit
  rw [runOnRoot_of_admits h, hinfo]
  rw [hroot] at hcases
  rcases hcases with ⟨hover, hpass⟩ | ⟨e, hover, hpass⟩ | ⟨hover, hones, hpass⟩ <;> rw [hpass]
  · -- success: the emitted tile is the last tile of the loop, and the ones tile is below it
    refine ⟨?_, iff_of_false (by simp) ?_⟩
    · intro dispatch' info' hok hinfo'
      obtain rfl := Except.ok.inj hok
      obtain rfl := Option.some.inj hinfo'
      refine (hfits _).mp ?_
      show isOverBudget id getBound root limit
        (emittedTile (dtcmConfig analysis info.loweringConfig s)) = _
      rw [emittedTile_dtcmConfig hwf _ (hs.length_eq hs₀)]
      exact hover
    · intro hbig
      have := isOverBudget_mono hexact hstatic (onesTile_le hlen hone) (by simp [onesTile]) limit hbig
      rw [hover] at this
      cases this
  · -- an undefined estimate is a failed assertion, for the ones tile as for this one
    obtain ⟨condition, rfl⟩ := isOverBudget_error hover
    refine ⟨(fun _ _ hok => by cases hok), iff_of_false (by simp) ?_⟩
    intro hbig
    have := isOverBudget_mono hexact hstatic (onesTile_le hlen hone) (by simp [onesTile]) limit hbig
    rw [hover] at this
    cases this
  · -- failure: the last tile of the loop is the ones tile
    refine ⟨(fun _ _ hok => by cases hok), iff_of_true ⟨_, rfl⟩ ?_⟩
    rw [← eq_onesTile hlen (by rw [← hranges]; exact hones)]
    exact hover

/-- A 4 x 24 x 32 matmul on `i32`. -/
def smallMatmul : RootOp :=
  Contraction.matmul.toRootOp (fun d => if d = 0 then 4 else if d = 1 then 24 else 32)
    (.integer 32) (.integer 32) (.integer 32)

/-- A target of the backend without further features. -/
def plainTarget : Target := { backend := "coralnpu", cpuFeatures := none }

/-- A dispatch function of the backend, with its root operation. -/
def dispatchOf (features : Option (List Char)) (root : RootOp) : Dispatch :=
  { target := some { backend := "coralnpu", cpuFeatures := features }
    rootOp := some root
    compilationInfo := none }

/-- The analysis of `smallMatmul`. -/
def smallMatmulAnalysis : TilingAnalysis :=
  { rootTilingOp := smallMatmul
    classification := classifyLoops smallMatmul
    staticLoopRanges := [4, 24, 32]
    elemSizeBytes := 4 }

/-- The register tiles of `smallMatmul`. -/
def smallMatmulInfo : CompilationInfo :=
  { loweringConfig := [(.vectorCommonParallelTiles, [4, 24, 0]), (.vectorReductionTiles, [0, 0, 1])]
    translationInfo := .cpuDoubleTilingExpert }

/-- The all-ones tile of `smallMatmul` fits in 8 KiB, so the pass does not fail. -/
theorem dtcmPass_fits_iff_smallMatmul :
    estimateFootprint id dimBound smallMatmul (onesTile smallMatmul) = .ok 12 ∧
      ¬ ∃ message, dtcmPassWithLimit id dimBound 8192
        { dispatchOf none smallMatmul with compilationInfo := some smallMatmulInfo }
        = .error (.passFailure message) := by
  have hones : estimateFootprint id dimBound smallMatmul (onesTile smallMatmul) = .ok 12 := by rfl
  refine ⟨hones, fun hfailure => ?_⟩
  obtain ⟨footprint, hfootprint, hover⟩ := (@dtcmPass_fits_iff dimBound
    { dispatchOf none smallMatmul with compilationInfo := some smallMatmulInfo }
    plainTarget smallMatmul smallMatmulAnalysis ⟨rfl, rfl, rfl, by decide, by decide⟩
    (Contraction.exactBounds (by decide) _ _ _ _)
    (Contraction.hasStaticShapes (fun d => by split <;> (try split) <;> omega) _ _ _)
    smallMatmulInfo rfl 8192).2.mp hfailure
  obtain rfl := Except.ok.inj (hones.symm.trans hfootprint)
  omega

end CoralNPU.Tiling
