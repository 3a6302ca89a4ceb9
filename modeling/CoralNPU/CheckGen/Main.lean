import CoralNPU.CheckGen.Generators
import CoralNPU.Lib.Strided

namespace CoralNPU.CheckGen

open Lib

/-!
# CheckGen — the program

The program reads the instances, loads the test and its generators, and for every instance evaluates
the generators and the test and writes a check: the inputs as constants, a call of the test, and the
comparison of its results with those that were evaluated.

* `evaluateGenerators`, `refineShapes`, `evaluateRefinedTest` — the values of an instance.
* `addConstantInputs`, `addAssertions`, `generateCheckTest` — the check.
* `processInstances`, `run`, `main` — the loop over the instances, and the program.
* `main_generates` — the files that a run leaves.
-/

/-! ### The check -/

/-- A constant, and the type it is cast to if that is another one. -/
structure Operand (τ α A : Type) where
  value : A
  castTo : Option (Ty τ α)

/-- The comparison: `check.expect_eq` or `check.expect_almost_eq`. -/
inductive CheckOp (A : Type)
  | expectEq
  | expectAlmostEq (atol : Option A) (rtol : A)

/-- The comparison of a result, which may be cast, with the expected value. -/
structure Assertion (τ α A : Type) where
  castTo : Option (Ty τ α)
  expected : A
  op : CheckOp A

/-- The module of a check, before the test is inlined: the test and the function that calls it. -/
structure CheckTest (τ α A F : Type) where
  testFunc : F
  checkFuncName : List Char
  callArgs : List (Operand τ α A)
  assertions : List (Assertion τ α A)

/-- `castTensorIfNeeded`: no cast, a cast, or null. -/
def castTensorIfNeeded {τ α : Type} [DecidableEq τ] [DecidableEq α] (valType targetType : Ty τ α) :
    Option (Option (Ty τ α)) :=
  if valType = targetType then some none
  else
    match valType, targetType with
    | .ranked shape₁ elementType₁ _, .ranked shape₂ elementType₂ _ =>
      if shape₁.length = shape₂.length ∧ elementType₁ = elementType₂ then some (some targetType) else none
    | _, _ => none

/-- How a value is passed to a generator. -/
inductive ArgAttr
  | i32 (value : Int32)
  | i64 (value : Int64)
  | index (value : Int64)
  deriving DecidableEq

/-- `getVmfbArgAttr` -/
def getVmfbArgAttr (val : Int64) (cc : Char) : ArgAttr :=
  match cc with
  | 'i' => .i32 val.toInt32
  | 'I' => .i64 val
  | _ => .index val

/-- The character of the calling convention for argument `i`; its first character is a version. -/
def argumentChar (callingConvention : List Char) (i : Nat) : Char :=
  match callingConvention[1 + i]? with
  | none => 'I'
  | some c => if c ≠ '_' ∧ c ≠ '\x00' then c else 'I'

/-- Evaluation, the passes of the compiler and the output files.  `A` are attributes. -/
structure Evaluator (τ α M F B A : Type) extends Tools τ α M F B where
  stem : List Char → List Char
  createDirectories : List Char → Bool
  initCompiler : Bool
  argAttr : ArgAttr → A
  typeOf : A → Ty τ α
  /-- An empty list is a failure. -/
  evaluateFunction : B → List Char → List (Ty τ α) → List A → List A
  moduleOf : F → M
  removeDynamism : M → List (Ty τ α) → Option M
  customCallTargets : M → List (List Char)
  lookupMain : M → Option F
  resultTypes : F → List (Ty τ α)
  /-- The elements are floats, or the type itself is a float. -/
  isFloat : Ty τ α → Bool
  floatAttr : F → List Char → Option A
  defaultRtol : A
  inlineAndPrint : CheckTest τ α A F → Option (List Char)
  openOutputFile : List Char → Bool

/-- The arguments of the program. -/
structure CommandLine where
  inputFiles : List (List Char)
  outputDir : List Char
  instancesRaw : List (List Char)
  defaultGen : List Char

/-- The output files. -/
abbrev Files := List Char → Option (List Char)

section Program

variable {τ α M F B A : Type} [DecidableEq τ] [DecidableEq α] (tools : Evaluator τ α M F B A)

/-- The values that are passed to a generator. -/
def genArgs (gen : LoadedGenerator B) (genInstArgs : List Int64) : List A :=
  genInstArgs.zipIdx.map fun (val, i) =>
    tools.argAttr (getVmfbArgAttr val (argumentChar gen.callingConvention i))

/-- The loop of `evaluateGenerators`, which stops with no values when a generator fails. -/
def evaluateLoop : List ((LoadedGenerator B × List Int64) × Ty τ α) → List A → List A
  | [], inputAttrs => inputAttrs
  | ((gen, genInstArgs), expectedType) :: rest, inputAttrs =>
    let genOutputs := tools.evaluateFunction gen.binary gen.funcName [expectedType]
      (genArgs tools gen genInstArgs)
    if genOutputs.isEmpty then [] else evaluateLoop rest (inputAttrs ++ genOutputs)

/-- `evaluateGenerators` -/
def evaluateGenerators (testFunc : F) (generators : List (LoadedGenerator B))
    (inst : List (List Int64)) : List A :=
  evaluateLoop tools ((generators.zip inst).zip (tools.argumentTypes testFunc)) []

/-- `refineShapes`: the refined module, or the test as it is. -/
def refineShapes (testFunc : F) (inputAttrs : List A) : M :=
  let refinedTestModuleOp := tools.moduleOf testFunc
  match tools.removeDynamism refinedTestModuleOp (inputAttrs.map tools.typeOf) with
  | none => refinedTestModuleOp
  | some refinedClone =>
    if "stablehlo.shape_refinement_operand_wrapper".toList ∈ tools.customCallTargets refinedClone then
      refinedTestModuleOp
    else refinedClone

/-- `evaluateRefinedTest` -/
def evaluateRefinedTest (refinedTestModuleOp : M) (checkTestFunc : F) (inputAttrs : List A) : List A :=
  match tools.compileModule refinedTestModuleOp with
  | none => []
  | some testBinaryData =>
    match tools.init testBinaryData with
    | none => []
    | some testBinary =>
      tools.evaluateFunction testBinary "main".toList (tools.resultTypes checkTestFunc) inputAttrs

/-- `addConstantInputs` -/
def addConstantInputs (inputAttrs : List A) (refinedArgTypes : List (Ty τ α)) :
    Option (List (Operand τ α A)) :=
  inputAttrs.zipIdx.mapM fun (attr, i) => do
    let refinedArgType ← refinedArgTypes[i]?
    let castTo ← castTensorIfNeeded (tools.typeOf attr) refinedArgType
    pure ⟨attr, castTo⟩

/-- `addAssertions` -/
def addAssertions (resultTypes : List (Ty τ α)) (outputAttrs : List A) (atolAttr rtolAttr : Option A) :
    Option (List (Assertion τ α A)) :=
  outputAttrs.zipIdx.mapM fun (expectedAttr, i) => do
    let resType ← resultTypes[i]?
    let castTo ← castTensorIfNeeded resType (tools.typeOf expectedAttr)
    pure ⟨castTo, expectedAttr,
      if tools.isFloat (castTo.getD resType) then
        .expectAlmostEq atolAttr (rtolAttr.getD tools.defaultRtol)
      else .expectEq⟩

/-- `generateCheckTest`, up to the file. -/
def generateCheckTest (cmd : CommandLine) (refinedTestFunc : F) (inputAttrs outputAttrs : List A)
    (inst : List (List Int64)) : Option (List Char) := do
  let callArgs ← addConstantInputs tools inputAttrs (tools.argumentTypes refinedTestFunc)
  let assertions ← addAssertions tools (tools.resultTypes refinedTestFunc) outputAttrs
    (tools.floatAttr refinedTestFunc "check.atol".toList)
    (tools.floatAttr refinedTestFunc "check.rtol".toList)
  tools.inlineAndPrint {
    testFunc := refinedTestFunc
    checkFuncName := checkFuncName (tools.stem (cmd.inputFiles.headD [])) inst
    callArgs
    assertions }

/-- The text of the check of an instance: `processInstance`, up to the file. -/
def checkText (cmd : CommandLine) (testFunc : F) (generators : List (LoadedGenerator B))
    (inst : List (List Int64)) : Option (List Char) :=
  let inputAttrs := evaluateGenerators tools testFunc generators inst
  if inputAttrs.isEmpty then none
  else
    let refinedTestModuleOp := refineShapes tools testFunc inputAttrs
    match tools.lookupMain refinedTestModuleOp with
    | none => none
    | some checkTestFunc =>
      let outputAttrs := evaluateRefinedTest tools refinedTestModuleOp checkTestFunc inputAttrs
      if outputAttrs.isEmpty then none
      else generateCheckTest tools cmd checkTestFunc inputAttrs outputAttrs inst

/-- The file of an instance. -/
def checkPath (cmd : CommandLine) (inst : List (List Int64)) : List Char :=
  outPath cmd.outputDir (tools.stem (cmd.inputFiles.headD [])) inst

/-- `processInstance`, with the output files. -/
def processInstance (cmd : CommandLine) (testFunc : F) (generators : List (LoadedGenerator B))
    (inst : List (List Int64)) (files : Files) : Files × Bool :=
  match checkText tools cmd testFunc generators inst with
  | none => (files, false)
  | some text =>
    if tools.openOutputFile (checkPath tools cmd inst) then
      (Function.update files (checkPath tools cmd inst) (some text), true)
    else (files, false)

/-- The loop of `run`. -/
def processInstances (cmd : CommandLine) (testFunc : F) (generators : List (LoadedGenerator B)) :
    List (List (List Int64)) → Files → Files × Bool
  | [], files => (files, true)
  | inst :: rest, files =>
    match processInstance tools cmd testFunc generators inst files with
    | (files, true) => processInstances cmd testFunc generators rest files
    | (files, false) => (files, false)

/-- What the program leaves: its exit code, the output files and the generator files it has loaded. -/
structure Outcome where
  exitCode : Nat
  files : Files
  loaded : List (List Char)

/-- `run` -/
def run (cmd : CommandLine) (instances : List (List (List Int64))) (files : Files) :
    Files × List (List Char) × Bool :=
  match parseAndMerge tools.toTools cmd.inputFiles cmd.defaultGen instances Memo.empty with
  | (.error _, memo) => (files, memo.computed, false)
  | (.ok (testFunc, generators), memo) =>
    let (files, success) := processInstances tools cmd testFunc generators instances files
    (files, memo.computed, success)

/-- `main` -/
def main (cmd : CommandLine) (files : Files) : Outcome :=
  if !tools.createDirectories cmd.outputDir then ⟨1, files, []⟩
  else
    let instances := parseAllInstances cmd.instancesRaw
    if instances.isEmpty then ⟨2, files, []⟩
    else if cmd.inputFiles.isEmpty then ⟨2, files, []⟩
    else if !tools.initCompiler then ⟨1, files, []⟩
    else
      let (files, loaded, success) := run tools cmd instances files
      ⟨if success then 0 else 1, files, loaded⟩

/-! ### The files of the instances -/

omit [DecidableEq τ] [DecidableEq α] in
/-- Instances that the generators accept have one shape. -/
theorem sameShape_of_valid {generators : List GeneratorInfo} {instances : List (List (List Int64))}
    (hvalid : validateInputs generators instances = .ok ()) {inst inst' : List (List Int64)}
    (hmem : inst ∈ instances) (hmem' : inst' ∈ instances) : SameShape inst inst' := by
  have hlengths : ∀ inst ∈ instances,
      inst.map List.length = generators.map GeneratorInfo.numArguments := by
    intro inst hmem
    obtain ⟨i, hi, rfl⟩ := List.getElem_of_mem hmem
    rw [validateInputs, forM_eq_ok] at hvalid
    exact lengths_of_validateInstance (hvalid (instances[i], i)
      (List.mem_zipIdx_iff_getElem?.mpr (List.getElem?_eq_getElem hi)))
  have heq := (hlengths inst hmem).trans (hlengths inst' hmem').symm
  rwa [← List.forall₂_eq_eq_eq, List.forall₂_map_left_iff, List.forall₂_map_right_iff] at heq

omit [DecidableEq τ] [DecidableEq α] in
/-- The file of an instance is that of no other instance of its shape. -/
theorem checkPath_inj {cmd : CommandLine} {inst inst' : List (List Int64)} (hshape : SameShape inst inst')
    (h : checkPath tools cmd inst = checkPath tools cmd inst') : inst = inst' := by
  unfold checkPath outPath checkFuncName at h
  exact instSuffix_inj hshape (List.append_cancel_left (List.append_cancel_left
    (List.append_cancel_right h)))

/-- A check is made of the instance, and its file can be written. -/
def Writes (cmd : CommandLine) (testFunc : F) (generators : List (LoadedGenerator B))
    (inst : List (List Int64)) : Prop :=
  (checkText tools cmd testFunc generators inst).isSome ∧
    tools.openOutputFile (checkPath tools cmd inst) = true

instance (cmd : CommandLine) (testFunc : F) (generators : List (LoadedGenerator B))
    (inst : List (List Int64)) : Decidable (Writes tools cmd testFunc generators inst) :=
  inferInstanceAs (Decidable (_ ∧ _))

/-- **The loop** writes the files of the instances up to the first one that fails. -/
theorem processInstances_eq (cmd : CommandLine) (testFunc : F) (generators : List (LoadedGenerator B))
    (instances : List (List (List Int64))) : ∀ files : Files,
    processInstances tools cmd testFunc generators instances files
      = (assignEach (checkPath tools cmd) (checkText tools cmd testFunc generators) files
          (instances.takeWhile (Writes tools cmd testFunc generators ·)),
        instances.all (Writes tools cmd testFunc generators ·)) := by
  induction instances with
  | nil => exact fun files => rfl
  | cons inst rest ih =>
    intro files
    rw [processInstances, processInstance, List.takeWhile_cons, List.all_cons]
    cases htext : checkText tools cmd testFunc generators inst with
    | none =>
      have hnot : ¬ Writes tools cmd testFunc generators inst := fun h => by
        rw [Writes, htext] at h
        exact absurd h.1 (by decide)
      simp only [hnot, decide_false, Bool.false_and]
      rfl
    | some text =>
      by_cases hopen : tools.openOutputFile (checkPath tools cmd inst) = true
      · have hwrites : Writes tools cmd testFunc generators inst := ⟨by rw [htext]; rfl, hopen⟩
        simp only [hopen, if_true, hwrites, decide_true, Bool.true_and]
        rw [ih, ← htext]
        rfl
      · have hnot : ¬ Writes tools cmd testFunc generators inst := fun h => hopen h.2
        simp only [hopen, hnot, decide_false, Bool.false_and]
        rfl

/-! ### A whole run -/

/-- The test and the generators are accepted, for the instances of the command line. -/
abbrev CommandLine.Loads (cmd : CommandLine) (testFunc : F) (generators : List (LoadedGenerator B)) :
    Prop :=
  Accepts tools.toTools cmd.inputFiles cmd.defaultGen (parseAllInstances cmd.instancesRaw) testFunc
    generators

/-- **What the program does** with the output files. -/
structure Generates (cmd : CommandLine) (files : Files) (outcome : Outcome) : Prop where
  zero_iff : outcome.exitCode = 0 ↔
    tools.createDirectories cmd.outputDir = true ∧ parseAllInstances cmd.instancesRaw ≠ [] ∧
      cmd.inputFiles ≠ [] ∧ tools.initCompiler = true ∧
      ∃ testFunc generators, cmd.Loads tools testFunc generators ∧
        ∀ inst ∈ parseAllInstances cmd.instancesRaw, Writes tools cmd testFunc generators inst
  /-- After success the file of every instance has the check of this instance. -/
  written : outcome.exitCode = 0 → ∀ testFunc generators, cmd.Loads tools testFunc generators →
    ∀ inst ∈ parseAllInstances cmd.instancesRaw, ∃ text,
      checkText tools cmd testFunc generators inst = some text ∧
        outcome.files (checkPath tools cmd inst) = some text
  /-- A file is left alone, or is that of an instance and has its check. -/
  others : ∀ path, outcome.files path = files path ∨
    ∃ testFunc generators, cmd.Loads tools testFunc generators ∧
      ∃ inst ∈ parseAllInstances cmd.instancesRaw, path = checkPath tools cmd inst ∧ ∃ text,
        checkText tools cmd testFunc generators inst = some text ∧ outcome.files path = some text
  once : outcome.loaded.Nodup

/-- The instances before the first one that fails. -/
def succeeding (cmd : CommandLine) (testFunc : F) (generators : List (LoadedGenerator B))
    (instances : List (List (List Int64))) : List (List (List Int64)) :=
  instances.takeWhile (Writes tools cmd testFunc generators ·)

/-- The files after the loop over the instances. -/
def filesAfter (cmd : CommandLine) (testFunc : F) (generators : List (LoadedGenerator B))
    (instances : List (List (List Int64))) (files : Files) : Files :=
  assignEach (checkPath tools cmd) (checkText tools cmd testFunc generators) files
    (succeeding tools cmd testFunc generators instances)

/-- The file of an instance has its check: no other instance has this file. -/
theorem filesAfter_checkPath {cmd : CommandLine} {testFunc : F} {generators : List (LoadedGenerator B)}
    {instances : List (List (List Int64))}
    (hvalid : validateInputs (generators.map LoadedGenerator.toGeneratorInfo) instances = .ok ())
    {inst : List (List Int64)} (hinst : inst ∈ succeeding tools cmd testFunc generators instances)
    (files : Files) : ∃ text, checkText tools cmd testFunc generators inst = some text ∧
      filesAfter tools cmd testFunc generators instances files (checkPath tools cmd inst) = some text := by
  have hwrites : Writes tools cmd testFunc generators inst := by
    simpa using List.mem_takeWhile_imp hinst
  have hsub : ∀ i ∈ succeeding tools cmd testFunc generators instances, i ∈ instances :=
    fun i h => (List.takeWhile_subset _) h
  obtain ⟨text, htext⟩ := Option.isSome_iff_exists.mp hwrites.1
  refine ⟨text, htext, ?_⟩
  rw [filesAfter, assignEach_of_agree (fun i hi j hj h => ?_) hinst, htext]
  rw [checkPath_inj tools (sameShape_of_valid hvalid (hsub i hi) (hsub j hj)) h]

/-- What loading the test and the generators leaves: every file is loaded once. -/
theorem parseAndMerge_nodup (cmd : CommandLine) (instances : List (List (List Int64))) :
    ∃ memo, parseAndMerge tools.toTools cmd.inputFiles cmd.defaultGen instances Memo.empty
        = (merged tools.toTools cmd.inputFiles cmd.defaultGen instances, memo) ∧ memo.computed.Nodup := by
  obtain ⟨memo, hload, hcomputed, -⟩ :=
    parseAndMerge_run tools.toTools cmd.inputFiles cmd.defaultGen instances
  exact ⟨memo, hload, hcomputed ▸ nodup_keysOf id _⟩

/-- What `run` does when the test or a generator is not accepted. -/
theorem run_of_error {cmd : CommandLine} {instances : List (List (List Int64))} {e : LoadError}
    (h : merged tools.toTools cmd.inputFiles cmd.defaultGen instances = .error e) (files : Files) :
    ∃ loaded, loaded.Nodup ∧ run tools cmd instances files = (files, loaded, false) := by
  obtain ⟨memo, hload, hnodup⟩ := parseAndMerge_nodup tools cmd instances
  exact ⟨memo.computed, hnodup, by rw [run, hload, h]⟩

/-- What `run` does with a test and generators that are accepted. -/
theorem run_of_ok {cmd : CommandLine} {instances : List (List (List Int64))} {testFunc : F}
    {generators : List (LoadedGenerator B)}
    (h : merged tools.toTools cmd.inputFiles cmd.defaultGen instances = .ok (testFunc, generators))
    (files : Files) :
    ∃ loaded, loaded.Nodup ∧ run tools cmd instances files
      = (filesAfter tools cmd testFunc generators instances files, loaded,
          instances.all (Writes tools cmd testFunc generators ·)) := by
  obtain ⟨memo, hload, hnodup⟩ := parseAndMerge_nodup tools cmd instances
  refine ⟨memo.computed, hnodup, ?_⟩
  rw [run, hload, h]
  simp only [processInstances_eq]
  rfl

/-- The run behind the checks of the command line. -/
theorem run_generates (cmd : CommandLine) (files : Files)
    (hdirectories : tools.createDirectories cmd.outputDir = true)
    (hinstances : parseAllInstances cmd.instancesRaw ≠ []) (hinput : cmd.inputFiles ≠ [])
    (hcompiler : tools.initCompiler = true) {files' : Files} {loaded : List (List Char)}
    {success : Bool}
    (hrun : run tools cmd (parseAllInstances cmd.instancesRaw) files = (files', loaded, success)) :
    Generates tools cmd files ⟨if success then 0 else 1, files', loaded⟩ := by
  cases hmerged : merged tools.toTools cmd.inputFiles cmd.defaultGen
      (parseAllInstances cmd.instancesRaw) with
  | error e =>
    obtain ⟨loaded', hnodup, heq⟩ := run_of_error tools hmerged files
    obtain ⟨rfl, rfl, rfl⟩ : files' = files ∧ loaded' = loaded ∧ false = success := by
      rw [heq] at hrun
      simpa [eq_comm] using hrun
    have hnone : ∀ testFunc generators, ¬ cmd.Loads tools testFunc generators := by
      intro testFunc generators h
      rw [CommandLine.Loads, ← merged_eq_ok_iff, hmerged] at h
      cases h
    refine ⟨⟨fun h => absurd h Nat.one_ne_zero, ?_⟩, fun h => absurd h Nat.one_ne_zero,
      fun path => .inl rfl, hnodup⟩
    rintro ⟨-, -, -, -, testFunc, generators, hloads, -⟩
    exact absurd hloads (hnone testFunc generators)
  | ok accepted =>
    obtain ⟨testFunc, generators⟩ := accepted
    obtain ⟨loaded', hnodup, heq⟩ := run_of_ok tools hmerged files
    rw [hrun] at heq
    obtain ⟨rfl, hrest⟩ := Prod.mk.inj heq
    obtain ⟨rfl, rfl⟩ := Prod.mk.inj hrest
    have hloads : cmd.Loads tools testFunc generators := merged_eq_ok_iff.mp hmerged
    have honly : ∀ {testFunc' generators'}, cmd.Loads tools testFunc' generators' →
        testFunc' = testFunc ∧ generators' = generators := by
      intro testFunc' generators' h
      have heq := (merged_eq_ok_iff.mpr h).symm.trans hmerged
      exact Prod.mk.inj (Except.ok.inj heq)
    have hall : (parseAllInstances cmd.instancesRaw).all (Writes tools cmd testFunc generators ·)
          = true ↔
        ∀ inst ∈ parseAllInstances cmd.instancesRaw, Writes tools cmd testFunc generators inst := by
      rw [List.all_eq_true]
      simp only [decide_eq_true_eq]
    have hzero : (if (parseAllInstances cmd.instancesRaw).all (Writes tools cmd testFunc generators ·)
          then 0 else 1) = 0 ↔
        ∀ inst ∈ parseAllInstances cmd.instancesRaw, Writes tools cmd testFunc generators inst := by
      rw [← hall]
      split <;> simp_all
    refine ⟨?_, ?_, ?_, hnodup⟩
    · refine hzero.trans ⟨fun h => ?_, ?_⟩
      · exact ⟨hdirectories, hinstances, hinput, hcompiler, testFunc, generators, hloads, h⟩
      · rintro ⟨-, -, -, -, testFunc', generators', h, hwrites⟩
        obtain ⟨rfl, rfl⟩ := honly h
        exact hwrites
    · intro hexit testFunc' generators' h inst hinst
      obtain ⟨rfl, rfl⟩ := honly h
      refine filesAfter_checkPath tools hloads.shapes ?_ files
      -- after success no instance has failed
      rw [succeeding, List.takeWhile_eq_self_iff.mpr (List.all_eq_true.mp (hall.mpr (hzero.mp hexit)))]
      exact hinst
    · intro path
      by_cases hpath : ∃ inst ∈ succeeding tools cmd testFunc generators
          (parseAllInstances cmd.instancesRaw), checkPath tools cmd inst = path
      · obtain ⟨inst, hinst, rfl⟩ := hpath
        exact .inr ⟨testFunc, generators, hloads, inst, (List.takeWhile_subset _) hinst, rfl,
          filesAfter_checkPath tools hloads.shapes hinst files⟩
      · exact .inl (assignEach_of_notMem fun inst hinst h => hpath ⟨inst, hinst, h⟩)

/-- **The program**, for every command line and whatever the files, the compiler and the VM do. -/
theorem main_generates (cmd : CommandLine) (files : Files) :
    Generates tools cmd files (main tools cmd files) := by
  have hfail : ∀ code, code ≠ 0 → (tools.createDirectories cmd.outputDir = true →
      parseAllInstances cmd.instancesRaw ≠ [] → cmd.inputFiles ≠ [] → tools.initCompiler = true →
      False) → Generates tools cmd files ⟨code, files, []⟩ := by
    intro code hcode hno
    refine ⟨⟨fun h => absurd h hcode, ?_⟩, fun h => absurd h hcode, fun path => .inl rfl,
      List.nodup_nil⟩
    rintro ⟨hdirectories, hinstances, hinput, hcompiler, -⟩
    exact (hno hdirectories hinstances hinput hcompiler).elim
  unfold main
  by_cases hdirectories : tools.createDirectories cmd.outputDir = true
  swap
  · rw [if_pos (by simpa using hdirectories)]
    exact hfail 1 (by decide) fun h => absurd h hdirectories
  rw [if_neg (by simpa using hdirectories)]
  by_cases hinstances : parseAllInstances cmd.instancesRaw = []
  · rw [if_pos (by simpa using hinstances)]
    exact hfail 2 (by decide) fun _ h => absurd hinstances h
  rw [if_neg (by simpa using hinstances)]
  by_cases hinput : cmd.inputFiles = []
  · rw [if_pos (by simpa using hinput)]
    exact hfail 2 (by decide) fun _ _ h => absurd hinput h
  rw [if_neg (by simpa using hinput)]
  by_cases hcompiler : tools.initCompiler = true
  swap
  · rw [if_pos (by simpa using hcompiler)]
    exact hfail 1 (by decide) fun _ _ _ h => absurd h hcompiler
  rw [if_neg (by simpa using hcompiler)]
  exact run_generates tools cmd files hdirectories hinstances hinput hcompiler rfl

end Program

end CoralNPU.CheckGen
