import CoralNPU.CheckGen.CheckTestGenerator
import CoralNPU.Lib.Memo
import CoralNPU.Mlir.Types

namespace CoralNPU.CheckGen

open Lib

/-!
# CheckGen — the generators of the arguments

Every argument of the test function gets its values from a function of a generator file.  A file that
several arguments name is loaded once.

* `areTypesCompatible` — a generator may leave open the extents that the argument fixes.
* `parseTypeFromDecl` — the result type in the declaration of a function; `parseTypeFromDecl_eq`.
* `selectGenerator` — the first exported function with a result of the right type.
* `load`, `getOrLoadBinary` — a generator file, and the cache of the files.
* `parseAndMerge` — the test function and the generators of its arguments.
* `Selects` — what is asked of a selected function; `selectGenerator_eq_ok_iff`.
* `loadGenerators` — the generators without a cache; `parseAndMerge_computes`.
-/

/-! ### Types -/

/-- A type.  Element types and types other than ranked tensors stay abstract, and so do encodings,
    where `none` is the null attribute. -/
inductive Ty (τ α : Type)
  | ranked (shape : List Int) (elementType : τ) (encoding : Option α)
  | other (type : τ)
  deriving DecidableEq

/-- `areTypesCompatible` -/
def areTypesCompatible {τ α : Type} [DecidableEq τ] [DecidableEq α] (genType expType : Ty τ α) :
    Bool :=
  if genType = expType then true
  else
    match genType, expType with
    | .ranked genShape genElementType genEncoding, .ranked expShape expElementType expEncoding =>
      if genElementType ≠ expElementType then false
      else if genEncoding ≠ expEncoding then false
      else if genShape.length ≠ expShape.length then false
      else (genShape.zip expShape).all fun (genDim, expDim) => genDim = expDim || genDim = kDynamic
    | _, _ => false

/-- The text from the first arrow on. -/
def fromArrow : List Char → Option (List Char)
  | [] => none
  | '-' :: '>' :: rest => some ('-' :: '>' :: rest)
  | _ :: rest => fromArrow rest

/-- The text behind the first `c`. -/
def behind (c : Char) (text : List Char) : Option (List Char) :=
  match text.dropWhile (· ≠ c) with
  | [] => none
  | _ :: rest => some rest

/-- `parseTypeFromDecl`, with the parser of types. -/
def parseTypeFromDecl {σ : Type} (parseType : List Char → Option σ) (decl : List Char) : Option σ := do
  let arrow ← fromArrow decl
  let openParen ← behind '(' arrow
  let colon ← behind ':' openParen
  if ')' ∈ colon then
    parseType (trim isBlank ((colon.takeWhile (· ≠ ')')).takeWhile (· ≠ '{')))
  else none

theorem behind_append {c : Char} {before : List Char} (h : c ∉ before) (rest : List Char) :
    behind c (before ++ c :: rest) = some rest := by
  have hall : ∀ x ∈ before, decide (x ≠ c) = true := fun x hx =>
    decide_eq_true fun heq => h (heq ▸ hx)
  rw [behind, List.dropWhile_append_of_pos hall, List.dropWhile_cons_of_neg (by simp)]

theorem fromArrow_append {before : List Char} (rest : List Char) (h : fromArrow before = none) :
    fromArrow (before ++ '-' :: '>' :: rest) = some ('-' :: '>' :: rest) := by
  induction before using fromArrow.induct with
  | case1 => rfl
  | case2 => cases h
  | case3 c before hno ih =>
    rw [fromArrow] at h
    · rw [List.cons_append, fromArrow]
      · exact ih h
      · rintro after rfl heq
        cases before with
        | nil => cases heq
        | cons d before =>
          obtain ⟨rfl, -⟩ := List.cons.inj heq
          exact hno before rfl rfl
    · exact hno

/-- **The result type of a declaration** is the text between the first colon behind the arrow and its
    parenthesis, without the attributes. -/
theorem parseTypeFromDecl_eq {σ : Type} (parseType : List Char → Option σ)
    {arguments name type attributes rest : List Char} (harguments : fromArrow arguments = none)
    (hname : ':' ∉ name) (htype : ')' ∉ type ∧ '{' ∉ type)
    (hattributes : attributes = [] ∨ attributes.head? = some '{' ∧ ')' ∉ attributes) :
    parseTypeFromDecl parseType
        (arguments ++ "-> (".toList ++ name ++ ':' :: (type ++ attributes ++ ')' :: rest))
      = parseType (trim isBlank type) := by
  have harrow : fromArrow (arguments ++ "-> (".toList ++ name ++ ':' :: (type ++ attributes ++ ')' :: rest))
      = some ("-> (".toList ++ name ++ ':' :: (type ++ attributes ++ ')' :: rest)) := by
    have h := fromArrow_append (" (".toList ++ name ++ ':' :: (type ++ attributes ++ ')' :: rest)) harguments
    simpa using h
  have hopen : behind '(' ("-> (".toList ++ name ++ ':' :: (type ++ attributes ++ ')' :: rest))
      = some (name ++ ':' :: (type ++ attributes ++ ')' :: rest)) := by
    have h := behind_append (show '(' ∉ "-> ".toList by decide)
      (name ++ ':' :: (type ++ attributes ++ ')' :: rest))
    simpa using h
  have hparen : ∀ c ∈ type ++ attributes, decide (c ≠ ')') = true := by
    intro c hc
    refine decide_eq_true fun heq => ?_
    subst heq
    rcases List.mem_append.mp hc with hc | hc
    · exact htype.1 hc
    · rcases hattributes with rfl | ⟨-, hattributes⟩
      · cases hc
      · exact hattributes hc
  have hbrace : (type ++ attributes).takeWhile (· ≠ '{') = type := by
    have hall : ∀ c ∈ type, decide (c ≠ '{') = true := fun c hc =>
      decide_eq_true fun heq => htype.2 (heq ▸ hc)
    rw [List.takeWhile_append_of_pos hall]
    rcases hattributes with rfl | ⟨hhead, -⟩
    · exact List.append_nil _
    · cases attributes with
      | nil => cases hhead
      | cons c attributes =>
        obtain rfl := Option.some.inj hhead
        exact List.append_nil _
  have hclose : (type ++ attributes ++ ')' :: rest).takeWhile (· ≠ ')') = type ++ attributes := by
    rw [List.takeWhile_append_of_pos hparen, List.takeWhile_cons_of_neg (by simp), List.append_nil]
  have hmem : ')' ∈ type ++ attributes ++ ')' :: rest := by simp
  rw [parseTypeFromDecl, harrow]
  simp only [Option.bind_eq_bind, Option.bind_some, hopen, behind_append hname]
  rw [if_pos hmem, hclose, hbrace]

example : parseTypeFromDecl some
    "sync func @fill(%input0: i32, %input1: index) -> (%output0: tensor<?xi32> {a = 1})".toList
      = some "tensor<?xi32>".toList := by decide +kernel

/-! ### What is outside -/

/-- A function that a binary exports.  `counts` are the numbers of its arguments and results, which
    the VM reads from the calling convention or rejects. -/
structure ExportedFunction where
  found : Bool
  name : List Char
  declaration : List Char
  callingConvention : List Char
  counts : Option (Nat × Nat)

/-- Files, the parser, the compiler and the VM.  `M` are modules, `F` functions in a module and `B`
    binaries that are ready to be called. -/
structure Tools (τ α M F B : Type) where
  extension : List Char → List Char
  /-- A file, which may not open, and its bytes, which may not be read. -/
  ifstream : List Char → Option (Option (List UInt8))
  openInputFile : List Char → Except (List Char) (List Char)
  parseSourceFile : List Char → Option M
  funcOps : M → List F
  argumentTypes : F → List (Ty τ α)
  compileModule : M → Option (List UInt8)
  init : List UInt8 → Option B
  exports : B → List ExportedFunction
  parseType : List Char → Option (Ty τ α)
  printType : Ty τ α → List Char

/-- What is reported when the test or a generator is not accepted. -/
inductive LoadError
  | openVmfb (path : List Char)
  | readVmfb (path : List Char)
  | initVmfb (path : List Char)
  | openInput (message : List Char)
  | parseGenerator (path : List Char)
  | compileGenerator (path : List Char)
  | initCompiled (path : List Char)
  | unsupportedExtension (ext path : List Char)
  | noDefault (type : List Char)
  | countArguments (filename : List Char)
  | resultCount (filename : List Char) (count : Nat)
  | noMatch (path : List Char)
  | parseTest (filename : List Char)
  | noFunction (filename : List Char)
  | multipleFunctions (filename : List Char)
  | tooManyGenerators
  | inputs (error : InputError)
  deriving DecidableEq

/-- `GeneratorInfo`, with its binary. -/
structure LoadedGenerator (B : Type) extends GeneratorInfo where
  funcName : List Char
  binary : B
  callingConvention : List Char

section Loading

variable {τ α M F B : Type} [DecidableEq τ] [DecidableEq α] (tools : Tools τ α M F B)

/-! ### Generator files -/

/-- The part of `getOrLoadBinary` behind the look into the cache. -/
def load (path : List Char) : Except LoadError B :=
  let ext := tools.extension path
  if ext = ".vmfb".toList then
    match tools.ifstream path with
    | none => throw (.openVmfb path)
    | some none => throw (.readVmfb path)
    | some (some buffer) =>
      match tools.init buffer with
      | none => throw (.initVmfb path)
      | some binary => pure binary
  else if ext = ".mlir".toList then
    match tools.openInputFile path with
    | .error message => throw (.openInput message)
    | .ok input =>
      match tools.parseSourceFile input with
      | none => throw (.parseGenerator path)
      | some moduleOp =>
        match tools.compileModule moduleOp with
        | none => throw (.compileGenerator path)
        | some binaryData =>
          match tools.init binaryData with
          | none => throw (.initCompiled path)
          | some binary => pure binary
  else throw (.unsupportedExtension ext path)

/-- `getOrLoadBinary`; the table is `binaryCache`, which keeps only what was loaded. -/
def getOrLoadBinary (path : List Char) : Scratch (Memo (List Char) B) LoadError B :=
  memoized (load tools) path

/-- The loop of `loadGenerator` over the exported functions. -/
def selectGenerator (path : List Char) (expectedType : Ty τ α) (binary : B) :
    List ExportedFunction → Except LoadError (LoadedGenerator B)
  | [] => throw (.noMatch path)
  | func :: rest =>
    if !func.found then selectGenerator path expectedType binary rest
    else if "__".toList.isPrefixOf func.name then selectGenerator path expectedType binary rest
    else if func.declaration = [] then selectGenerator path expectedType binary rest
    else
      match parseTypeFromDecl tools.parseType func.declaration with
      | none => selectGenerator path expectedType binary rest
      | some resType =>
        if areTypesCompatible resType expectedType then
          match func.counts with
          | none => throw (.countArguments path)
          | some (argCount, resultCount) =>
            if resultCount ≠ 1 then throw (.resultCount path resultCount)
            else pure {
              filename := String.ofList path
              numArguments := argCount
              funcName := func.name
              binary
              callingConvention := func.callingConvention }
        else selectGenerator path expectedType binary rest

/-- `loadGenerator` -/
def loadGenerator (path : List Char) (expectedType : Ty τ α) :
    Scratch (Memo (List Char) B) LoadError (LoadedGenerator B) := do
  let binary ← getOrLoadBinary tools path
  Scratch.lift (selectGenerator tools path expectedType binary (tools.exports binary))

/-- `loadDefaultGenerator` -/
def loadDefaultGenerator (defaultGenPath : List Char) (expectedType : Ty τ α) :
    Scratch (Memo (List Char) B) LoadError (LoadedGenerator B) :=
  if defaultGenPath = [] then throw (.noDefault (tools.printType expectedType))
  else loadGenerator tools defaultGenPath expectedType

/-! ### The test and its generators -/

/-- The argument has no file of its own. -/
def UsesDefault (inputFiles : List (List Char)) (argIdx : Nat) : Prop :=
  argIdx + 1 ≥ inputFiles.length ∨ inputFiles.getD (argIdx + 1) [] = "default".toList

instance (inputFiles : List (List Char)) (argIdx : Nat) : Decidable (UsesDefault inputFiles argIdx) :=
  inferInstanceAs (Decidable (_ ∨ _))

/-- `parseAndMergeFunc` -/
def parseAndMergeFunc (filename : List Char) : Except LoadError F :=
  match tools.openInputFile filename with
  | .error message => throw (.openInput message)
  | .ok input =>
    match tools.parseSourceFile input with
    | none => throw (.parseTest filename)
    | some moduleOp =>
      match tools.funcOps moduleOp with
      | [] => throw (.noFunction filename)
      | [func] => pure func
      | _ => throw (.multipleFunctions filename)

/-- The generator of an argument. -/
def loadArgument (inputFiles : List (List Char)) (defaultGenPath : List Char)
    (arg : Ty τ α × Nat) : Scratch (Memo (List Char) B) LoadError (LoadedGenerator B) :=
  if UsesDefault inputFiles arg.2 then loadDefaultGenerator tools defaultGenPath arg.1
  else loadGenerator tools (inputFiles.getD (arg.2 + 1) []) arg.1

/-- `validateInputs`, with the error as that of loading. -/
def checkInputs (generators : List (LoadedGenerator B)) (instances : List (List (List Int64))) :
    Except LoadError Unit :=
  (validateInputs (generators.map LoadedGenerator.toGeneratorInfo) instances).mapError .inputs

/-- `parseAndMerge` -/
def parseAndMerge (inputFiles : List (List Char)) (defaultGenPath : List Char)
    (instances : List (List (List Int64))) :
    Scratch (Memo (List Char) B) LoadError (F × List (LoadedGenerator B)) := do
  let testFunc ← Scratch.lift (parseAndMergeFunc tools (inputFiles.headD []))
  if inputFiles.length - 1 > (tools.argumentTypes testFunc).length then
    throw .tooManyGenerators
  let generators ← (tools.argumentTypes testFunc).zipIdx.mapM
    (loadArgument tools inputFiles defaultGenPath)
  Scratch.lift (checkInputs generators instances)
  pure (testFunc, generators)

/-! ### What is asked of them -/

/-- `expType` is `genType`, or fixes extents that it leaves open. -/
inductive Fixes : Ty τ α → Ty τ α → Prop
  | same (type : Ty τ α) : Fixes type type
  | extents {genShape expShape : List Int} (elementType : τ) (encoding : Option α)
      (dims : List.Forall₂ (fun genDim expDim => genDim = expDim ∨ genDim = kDynamic) genShape expShape) :
      Fixes (.ranked genShape elementType encoding) (.ranked expShape elementType encoding)

/-- A function that can be called from outside and gives values of the type. -/
structure Offers (expectedType : Ty τ α) (func : ExportedFunction) : Prop where
  found : func.found = true
  isPublic : ¬ "__".toList <+: func.name
  declared : func.declaration ≠ []
  result : ∃ resType, parseTypeFromDecl tools.parseType func.declaration = some resType ∧
    Fixes resType expectedType

/-- The generator is the first function of the binary that offers the type. -/
def Selects (path : List Char) (expectedType : Ty τ α) (binary : B) (gen : LoadedGenerator B) : Prop :=
  ∃ before func after, tools.exports binary = before ++ func :: after ∧
    (∀ f ∈ before, ¬ Offers tools expectedType f) ∧ Offers tools expectedType func ∧
    func.counts = some (gen.numArguments, 1) ∧
    gen = ⟨⟨String.ofList path, gen.numArguments⟩, func.name, binary, func.callingConvention⟩

/-- The file that an argument is given or, without one, the file of the default generators. -/
def generatorPath (inputFiles : List (List Char)) (defaultGenPath : List Char) (arg : Ty τ α × Nat) :
    Except LoadError (List Char) :=
  if UsesDefault inputFiles arg.2 then
    if defaultGenPath = [] then throw (.noDefault (tools.printType arg.1)) else pure defaultGenPath
  else pure (inputFiles.getD (arg.2 + 1) [])

/-- The generator of an argument, from its file. -/
def generatorOf (inputFiles : List (List Char)) (defaultGenPath : List Char) (arg : Ty τ α × Nat) :
    Except LoadError (LoadedGenerator B) := do
  let path ← generatorPath tools inputFiles defaultGenPath arg
  let binary ← load tools path
  selectGenerator tools path arg.1 binary (tools.exports binary)

/-- The files of the arguments, in order. -/
def generatorFiles (inputFiles : List (List Char)) (defaultGenPath : List Char) : List (List Char) :=
  match parseAndMergeFunc tools (inputFiles.headD []) with
  | .error _ => []
  | .ok testFunc =>
    keysOfEach (generatorPath tools inputFiles defaultGenPath) (tools.argumentTypes testFunc).zipIdx

/-- The files of the arguments up to the first one that gets no generator, and of this one; none if the
    test is not accepted, or there are too many files. -/
def filesUpToFailure (inputFiles : List (List Char)) (defaultGenPath : List Char) : List (List Char) :=
  match parseAndMergeFunc tools (inputFiles.headD []) with
  | .error _ => []
  | .ok testFunc =>
    if inputFiles.length - 1 > (tools.argumentTypes testFunc).length then []
    else
      keysOfEach (generatorPath tools inputFiles defaultGenPath)
        (throughFirst (fun arg => !(generatorOf tools inputFiles defaultGenPath arg).isOk)
          (tools.argumentTypes testFunc).zipIdx)

/-- **What is accepted**: a file with one function and at most one file for each of its arguments, where
    every argument has a generator, and instances of the shape of the generators. -/
structure Accepts (inputFiles : List (List Char)) (defaultGenPath : List Char)
    (instances : List (List (List Int64))) (testFunc : F) (generators : List (LoadedGenerator B)) :
    Prop where
  test : parseAndMergeFunc tools (inputFiles.headD []) = .ok testFunc
  enough : inputFiles.length - 1 ≤ (tools.argumentTypes testFunc).length
  arguments : List.Forall₂ (fun arg gen => ∃ path binary,
    generatorPath tools inputFiles defaultGenPath arg = .ok path ∧ load tools path = .ok binary ∧
      Selects tools path arg.1 binary gen) (tools.argumentTypes testFunc).zipIdx generators
  shapes : validateInputs (generators.map LoadedGenerator.toGeneratorInfo) instances = .ok ()

/-! ### Selecting a function -/

/-- **Compatible types.** -/
theorem areTypesCompatible_iff {genType expType : Ty τ α} :
    areTypesCompatible genType expType = true ↔ Fixes genType expType := by
  unfold areTypesCompatible
  by_cases heq : genType = expType
  · rw [if_pos heq, heq]
    exact ⟨fun _ => .same _, fun _ => rfl⟩
  rw [if_neg heq]
  constructor
  · intro h
    split at h
    next genShape genElementType genEncoding expShape expElementType expEncoding =>
      split at h
      next => cases h
      next helement =>
        split at h
        next => cases h
        next hencoding =>
          split at h
          next => cases h
          next hlength =>
            rw [not_not] at helement hencoding hlength
            subst helement hencoding
            refine .extents _ _ (List.forall₂_iff_zip.mpr ⟨hlength, fun hmem => ?_⟩)
            simpa using List.all_eq_true.mp h _ hmem
    next => cases h
  · rintro (type | ⟨elementType, encoding, hdims⟩)
    · exact absurd rfl heq
    · have hlength := hdims.length_eq
      simp only [ne_eq, not_true_eq_false, if_false, hlength]
      refine List.all_eq_true.mpr ?_
      rintro ⟨genDim, expDim⟩ hmem
      simpa using (List.forall₂_iff_zip.mp hdims).2 hmem

/-- The loop goes on behind a function that does not offer the type, and stops at one that does. -/
theorem selectGenerator_cons (path : List Char) (expectedType : Ty τ α) (binary : B)
    (func : ExportedFunction) (rest : List ExportedFunction) :
    (¬ Offers tools expectedType func →
      selectGenerator tools path expectedType binary (func :: rest)
        = selectGenerator tools path expectedType binary rest) ∧
    (Offers tools expectedType func →
      selectGenerator tools path expectedType binary (func :: rest) = match func.counts with
        | none => .error (.countArguments path)
        | some (argCount, resultCount) =>
          if resultCount ≠ 1 then .error (.resultCount path resultCount)
          else .ok ⟨⟨String.ofList path, argCount⟩, func.name, binary, func.callingConvention⟩) := by
  rw [selectGenerator]
  by_cases hfound : func.found = true
  swap
  · rw [if_pos (by simpa using hfound)]
    exact ⟨fun _ => rfl, fun h => absurd h.found hfound⟩
  rw [if_neg (by simpa using hfound)]
  by_cases hpublic : "__".toList.isPrefixOf func.name = true
  · rw [if_pos hpublic]
    exact ⟨fun _ => rfl, fun h => absurd (List.isPrefixOf_iff_prefix.mp hpublic) h.isPublic⟩
  rw [if_neg hpublic]
  by_cases hdeclared : func.declaration = []
  · rw [if_pos hdeclared]
    exact ⟨fun _ => rfl, fun h => absurd hdeclared h.declared⟩
  rw [if_neg hdeclared]
  cases htype : parseTypeFromDecl tools.parseType func.declaration with
  | none =>
    refine ⟨fun _ => rfl, fun h => ?_⟩
    obtain ⟨resType, hparse, -⟩ := h.result
    rw [htype] at hparse
    cases hparse
  | some resType =>
    by_cases hcompatible : areTypesCompatible resType expectedType = true
    · refine ⟨fun h => absurd ⟨hfound, ?_, hdeclared, resType, htype, ?_⟩ h, fun _ => if_pos hcompatible⟩
      · exact fun h => hpublic (List.isPrefixOf_iff_prefix.mpr h)
      · exact areTypesCompatible_iff.mp hcompatible
    · refine ⟨fun _ => if_neg hcompatible, fun h => ?_⟩
      obtain ⟨resType', hparse, hfixes⟩ := h.result
      rw [htype] at hparse
      obtain rfl := Option.some.inj hparse
      exact absurd (areTypesCompatible_iff.mpr hfixes) hcompatible

variable {tools}

/-- **The loop** over the functions. -/
theorem selectGenerator_eq_ok_iff {path : List Char} {expectedType : Ty τ α} {binary : B}
    {funcs : List ExportedFunction} {gen : LoadedGenerator B} :
    selectGenerator tools path expectedType binary funcs = .ok gen ↔
      ∃ before func after, funcs = before ++ func :: after ∧
        (∀ f ∈ before, ¬ Offers tools expectedType f) ∧ Offers tools expectedType func ∧
        func.counts = some (gen.numArguments, 1) ∧
        gen = ⟨⟨String.ofList path, gen.numArguments⟩, func.name, binary, func.callingConvention⟩ := by
  induction funcs with
  | nil =>
    rw [selectGenerator]
    refine ⟨fun h => (by cases h), ?_⟩
    rintro ⟨before, func, after, hfuncs, -⟩
    exact absurd hfuncs.symm (List.append_ne_nil_of_right_ne_nil _ (List.cons_ne_nil _ _))
  | cons func rest ih =>
    obtain ⟨hskip, hstop⟩ := selectGenerator_cons tools path expectedType binary func rest
    by_cases hoffers : Offers tools expectedType func
    · rw [hstop hoffers]
      constructor
      · intro h
        refine ⟨[], func, rest, rfl, fun f hf => (by cases hf), hoffers, ?_⟩
        cases hcounts : func.counts with
        | none =>
          rw [hcounts] at h
          cases h
        | some counts =>
          obtain ⟨argCount, resultCount⟩ := counts
          rw [hcounts] at h
          by_cases hone : resultCount = 1
          · subst hone
            obtain rfl := Except.ok.inj h
            exact ⟨rfl, rfl⟩
          · simp only [ne_eq, hone, not_false_eq_true, if_true] at h
            cases h
      · rintro ⟨before, func', after, hfuncs, hbefore, hoffers', hcounts, hgen⟩
        -- no function before the selected one offers the type
        cases before with
        | cons f before =>
          obtain ⟨rfl, -⟩ := List.cons.inj hfuncs
          exact absurd hoffers (hbefore func List.mem_cons_self)
        | nil =>
          obtain ⟨rfl, -⟩ := List.cons.inj hfuncs
          rw [hcounts]
          exact congrArg Except.ok hgen.symm
    · rw [hskip hoffers, ih]
      constructor
      · rintro ⟨before, func', after, rfl, hbefore, hrest⟩
        refine ⟨func :: before, func', after, rfl, ?_, hrest⟩
        exact List.forall_mem_cons.mpr ⟨hoffers, hbefore⟩
      · rintro ⟨before, func', after, hfuncs, hbefore, hoffers', hrest⟩
        cases before with
        | nil =>
          obtain ⟨rfl, -⟩ := List.cons.inj hfuncs
          exact absurd hoffers' hoffers
        | cons f before =>
          obtain ⟨rfl, rfl⟩ := List.cons.inj hfuncs
          exact ⟨before, func', after, rfl, fun g hg => hbefore g (List.mem_cons_of_mem _ hg),
            hoffers', hrest⟩

/-! ### The generators without a cache -/

variable (tools)

/-- `parseAndMerge` without its cache. -/
def merged (inputFiles : List (List Char)) (defaultGenPath : List Char)
    (instances : List (List (List Int64))) : Except LoadError (F × List (LoadedGenerator B)) := do
  let testFunc ← parseAndMergeFunc tools (inputFiles.headD [])
  if inputFiles.length - 1 > (tools.argumentTypes testFunc).length then
    throw .tooManyGenerators
  let generators ← (tools.argumentTypes testFunc).zipIdx.mapM
    (generatorOf tools inputFiles defaultGenPath)
  checkInputs generators instances
  pure (testFunc, generators)

variable {tools} {inputFiles : List (List Char)} {defaultGenPath : List Char}

/-- The two ways to the file of an argument as one. -/
theorem loadArgument_eq (arg : Ty τ α × Nat) :
    loadArgument tools inputFiles defaultGenPath arg = (do
      let path ← Scratch.lift (generatorPath tools inputFiles defaultGenPath arg)
      let binary ← memoized (load tools) path
      Scratch.lift (selectGenerator tools path arg.1 binary (tools.exports binary))) := by
  unfold loadArgument generatorPath
  by_cases hdefault : UsesDefault inputFiles arg.2
  · rw [if_pos hdefault, if_pos hdefault, loadDefaultGenerator]
    by_cases hempty : defaultGenPath = []
    · rw [if_pos hempty, if_pos hempty]
      rfl
    · rw [if_neg hempty, if_neg hempty]
      rfl
  · rw [if_neg hdefault, if_neg hdefault]
    rfl

/-- When all arguments have generators, there is no first one without. -/
theorem throughFirst_of_mapM_eq_ok {args : List (Ty τ α × Nat)} {gens : List (LoadedGenerator B)}
    (h : args.mapM (generatorOf tools inputFiles defaultGenPath) = .ok gens) :
    throughFirst (fun arg => !(generatorOf tools inputFiles defaultGenPath arg).isOk) args = args := by
  refine throughFirst_eq_self fun arg harg => ?_
  obtain ⟨gen, hgen⟩ := exists_ok_of_mapM h arg harg
  rw [hgen]
  rfl

/-- **With the cache** the generators are those without it, and every file is loaded once, up to the
    argument without a generator. -/
theorem parseAndMerge_computes (tools : Tools τ α M F B) (inputFiles : List (List Char))
    (defaultGenPath : List Char) (instances : List (List (List Int64))) :
    Computes (Memo.After (load tools) []) (parseAndMerge tools inputFiles defaultGenPath instances)
      (merged tools inputFiles defaultGenPath instances)
      (fun memo => memo.computed = keysOf id (filesUpToFailure tools inputFiles defaultGenPath))
      (fun r r' memo => r' = r ∧
        filesUpToFailure tools inputFiles defaultGenPath
          = generatorFiles tools inputFiles defaultGenPath ∧
        memo.computed = keysOf id (generatorFiles tools inputFiles defaultGenPath)) := by
  have hload : loadArgument tools inputFiles defaultGenPath = _ := funext loadArgument_eq
  unfold parseAndMerge merged generatorFiles filesUpToFailure
  cases htest : parseAndMergeFunc tools (inputFiles.headD []) with
  | error e => exact fun memo hmemo => ⟨memo, rfl, hmemo.computed⟩
  | ok testFunc =>
    have hloop := computes_memoizedEach (load tools) (generatorPath tools inputFiles defaultGenPath)
      (fun arg path binary => selectGenerator tools path arg.1 binary (tools.exports binary))
      (tools.argumentTypes testFunc).zipIdx []
    have hturn : turn (load tools) (generatorPath tools inputFiles defaultGenPath)
        (fun arg path binary => selectGenerator tools path arg.1 binary (tools.exports binary))
        = generatorOf tools inputFiles defaultGenPath := rfl
    rw [hturn, List.nil_append, List.nil_append] at hloop
    refine computes_guard (fun hcount memo hmemo => ?_) fun hcount => ?_
    · simp only [if_pos hcount]
      exact hmemo.computed
    rw [hload]
    simp only [if_neg hcount]
    cases hgens : (tools.argumentTypes testFunc).zipIdx.mapM
        (generatorOf tools inputFiles defaultGenPath) with
    | error e =>
      rw [hgens] at hloop
      exact computes_bind_error hloop
    | ok gens =>
      rw [hgens, throughFirst_of_mapM_eq_ok hgens] at hloop
      rw [throughFirst_of_mapM_eq_ok hgens]
      refine computes_bind hloop fun generators generators' => ?_
      refine computes_assuming ?_
      rintro rfl
      refine computes_bind (computes_lift fun memo hmemo => hmemo.computed) fun _ _ => ?_
      exact computes_pure fun memo hmemo => ⟨rfl, rfl, hmemo.2.computed⟩

/-- The generator of one argument. -/
theorem generatorOf_eq_ok_iff {arg : Ty τ α × Nat} {gen : LoadedGenerator B} :
    generatorOf tools inputFiles defaultGenPath arg = .ok gen ↔ ∃ path binary,
      generatorPath tools inputFiles defaultGenPath arg = .ok path ∧ load tools path = .ok binary ∧
        Selects tools path arg.1 binary gen := by
  unfold generatorOf
  rw [bind_eq_ok]
  constructor
  · rintro ⟨path, hpath, h⟩
    obtain ⟨binary, hbinary, h⟩ := bind_eq_ok.mp h
    exact ⟨path, binary, hpath, hbinary, selectGenerator_eq_ok_iff.mp h⟩
  · rintro ⟨path, binary, hpath, hbinary, h⟩
    exact ⟨path, hpath, bind_eq_ok.mpr ⟨binary, hbinary, selectGenerator_eq_ok_iff.mpr h⟩⟩

theorem checkInputs_eq_ok_iff {generators : List (LoadedGenerator B)}
    {instances : List (List (List Int64))} :
    checkInputs generators instances = .ok () ↔
      validateInputs (generators.map LoadedGenerator.toGeneratorInfo) instances = .ok () := by
  unfold checkInputs
  cases validateInputs (generators.map LoadedGenerator.toGeneratorInfo) instances with
  | error e => exact ⟨fun h => (by cases h), fun h => (by cases h)⟩
  | ok u => exact iff_of_true rfl rfl

/-- **What is accepted** without the cache. -/
theorem merged_eq_ok_iff {instances : List (List (List Int64))} {testFunc : F}
    {generators : List (LoadedGenerator B)} :
    merged tools inputFiles defaultGenPath instances = .ok (testFunc, generators) ↔
      Accepts tools inputFiles defaultGenPath instances testFunc generators := by
  have hall : ∀ {args : List (Ty τ α × Nat)} {gens : List (LoadedGenerator B)},
      args.mapM (generatorOf tools inputFiles defaultGenPath) = .ok gens ↔
        List.Forall₂ (fun arg gen => ∃ path binary,
          generatorPath tools inputFiles defaultGenPath arg = .ok path ∧
            load tools path = .ok binary ∧ Selects tools path arg.1 binary gen) args gens := by
    intro args gens
    rw [mapM_eq_ok_iff]
    simp only [generatorOf_eq_ok_iff]
  unfold merged
  constructor
  · intro h
    obtain ⟨test, htest, h⟩ := bind_eq_ok.mp h
    split at h
    next => cases h
    next hcount =>
      obtain ⟨gens, hgens, h⟩ := bind_eq_ok.mp h
      obtain ⟨u, hshapes, h⟩ := bind_eq_ok.mp h
      obtain ⟨rfl, rfl⟩ := Prod.mk.inj (Except.ok.inj h)
      exact ⟨htest, Nat.le_of_not_lt hcount, hall.mp hgens, checkInputs_eq_ok_iff.mp hshapes⟩
  · rintro ⟨htest, hcount, hgens, hshapes⟩
    refine bind_eq_ok.mpr ⟨testFunc, htest, ?_⟩
    rw [if_neg (Nat.not_lt.mpr hcount)]
    refine bind_eq_ok.mpr ⟨generators, hall.mpr hgens, ?_⟩
    exact bind_eq_ok.mpr ⟨(), checkInputs_eq_ok_iff.mpr hshapes, rfl⟩

/-- The run of `parseAndMerge` from an empty cache. -/
theorem parseAndMerge_run (tools : Tools τ α M F B) (inputFiles : List (List Char))
    (defaultGenPath : List Char) (instances : List (List (List Int64))) :
    ∃ memo, parseAndMerge tools inputFiles defaultGenPath instances Memo.empty
        = (merged tools inputFiles defaultGenPath instances, memo) ∧
      memo.computed = keysOf id (filesUpToFailure tools inputFiles defaultGenPath) ∧
        ((merged tools inputFiles defaultGenPath instances).isOk →
          filesUpToFailure tools inputFiles defaultGenPath
            = generatorFiles tools inputFiles defaultGenPath) := by
  have hrun := parseAndMerge_computes tools inputFiles defaultGenPath instances Memo.empty
    (memo_after_empty _)
  cases hmerged : merged tools inputFiles defaultGenPath instances with
  | error e =>
    rw [hmerged] at hrun
    obtain ⟨memo, hresult, hcomputed⟩ := hrun
    exact ⟨memo, hresult, hcomputed, fun h => (by cases h)⟩
  | ok r =>
    rw [hmerged] at hrun
    obtain ⟨r', memo, hresult, rfl, hfiles, hcomputed⟩ := hrun
    exact ⟨memo, hresult, by rw [hfiles, hcomputed], fun _ => hfiles⟩

/-- **Loading the test and its generators**: what is accepted, and that the files are loaded in the
    order of the arguments, each one once, through the first argument that gets no generator; after
    success these are the files of all arguments. -/
theorem parseAndMerge_loads (tools : Tools τ α M F B) (inputFiles : List (List Char))
    (defaultGenPath : List Char) (instances : List (List (List Int64))) :
    let run := parseAndMerge tools inputFiles defaultGenPath instances Memo.empty
    (∀ testFunc generators, run.1 = .ok (testFunc, generators) ↔
        Accepts tools inputFiles defaultGenPath instances testFunc generators) ∧
      run.2.computed = keysOf id (filesUpToFailure tools inputFiles defaultGenPath) ∧
        (run.1.isOk → run.2.computed = keysOf id (generatorFiles tools inputFiles defaultGenPath)) := by
  intro run
  obtain ⟨memo, hrun, hcomputed, hfiles⟩ :=
    parseAndMerge_run tools inputFiles defaultGenPath instances
  have hrun' : run = (merged tools inputFiles defaultGenPath instances, memo) := hrun
  rw [hrun']
  exact ⟨fun testFunc generators => merged_eq_ok_iff, hcomputed, fun hok => by rw [← hfiles hok, hcomputed]⟩

end Loading

end CoralNPU.CheckGen
