import CoralNPU.Lib.Loop
import CoralNPU.Target.Serialize

namespace CoralNPU.Driver

open Lib

/-!
# Preparing executables

The executable cache makes an executable from a binary: in the simulator where the format is its own, and
with one of the loaders otherwise.

* `ExecutableLoader` — a loader, by what it supports and what it loads.
* `prepareExecutable`, `canPrepareFormat` — the cache, with the loaders that it asks to load.
* `supporting`, `decides` — the loaders that are asked, and where this ends.
* `prepareExecutable_asks` — what is prepared and by whom, and what a query that denies means.
* `serialized_prepares` — the binaries of the compiler, from the linker to the simulator.
-/

variable {ε χ : Type}

/-! ### The cache -/

/-- `iree_hal_executable_params_t` -/
structure ExecutableParams where
  cachingMode : UInt32
  executableFormat : String
  executableData : List UInt8

/-- A status of `try_load` that is not OK. -/
inductive LoadError (ε : Type)
  | cancelled
  | notFound
  | other (error : ε)

/-- `iree_hal_executable_loader_t` -/
structure ExecutableLoader (ε χ : Type) where
  querySupport : UInt32 → String → Bool
  tryLoad : ExecutableParams → Nat → Except (LoadError ε) χ

/-- An executable of the simulator, with its own copy of the image, or one of a loader. -/
inductive Executable (χ : Type)
  | simulator (dispatchImage : List UInt8) (exportCount : Nat)
  | loaded (executable : χ)

/-- Why there is no executable. -/
inductive PrepareError (ε : Type)
  | invalidArgument (message : String)
  | outOfMemory
  | loader (error : ε)
  | notFound (message : String)

/-- `iree_hal_coralnpu_is_simulator_format` -/
def isSimulatorFormat (executableFormat : String) : Bool := executableFormat == "embedded-elf-riscv_32"

/-- `iree_hal_simulator_executable_create` -/
def simulatorExecutableCreate (params : ExecutableParams) (mallocOk : Bool) :
    Except (PrepareError ε) (Executable χ) :=
  if params.executableData.isEmpty then throw (.invalidArgument "empty executable_data")
  else if !mallocOk then throw .outOfMemory
  else return .simulator params.executableData 1

/-- The result so far, and the loaders that were asked to load. -/
structure PrepareRun (ε χ : Type) where
  result : Except (PrepareError ε) (Executable χ)
  tried : List (ExecutableLoader ε χ)

/-- A pass of the loop over the loaders. -/
def prepareStep (params : ExecutableParams) (workerCapacity : Nat) (loader : ExecutableLoader ε χ)
    (run : PrepareRun ε χ) : Flow (PrepareRun ε χ) :=
  if !loader.querySupport params.cachingMode params.executableFormat then .next run
  else
    let tried := run.tried ++ [loader]
    match loader.tryLoad params workerCapacity with
    | .ok executable => .leave ⟨.ok (.loaded executable), tried⟩
    | .error (.other error) => .leave ⟨.error (.loader error), tried⟩
    -- cancelled or not found: the next loader may provide the executable
    | .error _ => .next { run with tried }

/-- `no executable loader registered for the given executable format` -/
def noLoader (executableFormat : String) : PrepareError ε :=
  .notFound ("no executable loader registered for the given executable format '" ++ executableFormat
    ++ "'")

/-- `iree_hal_coralnpu_executable_cache_prepare_executable` -/
def prepareExecutable (loaders : List (ExecutableLoader ε χ)) (workerCapacity : Nat)
    (params : ExecutableParams) (mallocOk : Bool) : PrepareRun ε χ :=
  if isSimulatorFormat params.executableFormat then ⟨simulatorExecutableCreate params mallocOk, []⟩
  else
    loop (prepareStep params workerCapacity) loaders ⟨.error (noLoader params.executableFormat), []⟩

/-- `iree_hal_coralnpu_executable_cache_can_prepare_format`; the query `hal.executable.format` of the
    device is the one for `cachingMode = 0`. -/
def canPrepareFormat (loaders : List (ExecutableLoader ε χ)) (cachingMode : UInt32)
    (executableFormat : String) : Bool :=
  isSimulatorFormat executableFormat ||
    loaders.any fun loader => loader.querySupport cachingMode executableFormat

/-! ### Which loaders are asked -/

section Loaders

variable (params : ExecutableParams) (workerCapacity : Nat)

/-- The loaders that support the format. -/
def supporting (loaders : List (ExecutableLoader ε χ)) : List (ExecutableLoader ε χ) :=
  loaders.filter fun loader => loader.querySupport params.cachingMode params.executableFormat

/-- The loader provides the executable, or fails for a reason of its own. -/
def decides (loader : ExecutableLoader ε χ) : Bool :=
  match loader.tryLoad params workerCapacity with
  | .ok _ => true
  | .error (.other _) => true
  | .error _ => false

/-- What a loader that decides makes of it. -/
def loadResult (loader : ExecutableLoader ε χ) : Except (PrepareError ε) (Executable χ) :=
  match loader.tryLoad params workerCapacity with
  | .ok executable => .ok (.loaded executable)
  | .error (.other error) => .error (.loader error)
  | .error _ => .error (noLoader params.executableFormat)

/-- A pass for a loader that supports the format. -/
theorem prepareStep_eq {loader : ExecutableLoader ε χ}
    (h : loader.querySupport params.cachingMode params.executableFormat = true) (run : PrepareRun ε χ) :
    prepareStep params workerCapacity loader run
      = if decides params workerCapacity loader then
          .leave ⟨loadResult params workerCapacity loader, run.tried ++ [loader]⟩
        else .next ⟨run.result, run.tried ++ [loader]⟩ := by
  unfold prepareStep decides loadResult
  rw [h]
  cases loader.tryLoad params workerCapacity with
  | ok executable => rfl
  | error error => cases error <;> rfl

/-- **The loop** asks the loaders that support the format, through the first that decides. -/
theorem loop_prepareStep (loaders : List (ExecutableLoader ε χ)) (run : PrepareRun ε χ) :
    loop (prepareStep params workerCapacity) loaders run
      = ⟨(((supporting params loaders).find? (decides params workerCapacity)).map
            (loadResult params workerCapacity)).getD run.result,
          run.tried ++ throughFirst (decides params workerCapacity) (supporting params loaders)⟩ := by
  induction loaders generalizing run with
  | nil => simp [loop, supporting, throughFirst]
  | cons loader loaders ih =>
    rw [loop]
    by_cases hsupport : loader.querySupport params.cachingMode params.executableFormat = true
    · have hcons : supporting params (loader :: loaders) = loader :: supporting params loaders :=
        List.filter_cons_of_pos hsupport
      rw [prepareStep_eq params workerCapacity hsupport, hcons]
      by_cases hdecides : decides params workerCapacity loader = true
      · simp [hdecides, throughFirst]
      · simp [hdecides, throughFirst, ih]
    · have hcons : supporting params (loader :: loaders) = supporting params loaders :=
        List.filter_cons_of_neg hsupport
      rw [prepareStep, if_pos (by simpa using hsupport), hcons]
      exact ih run

/-- **How an executable is prepared**: in the simulator, by the first loader that decides, or not at all
    because every loader that supports the format passes. -/
inductive Prepares (loaders : List (ExecutableLoader ε χ)) (mallocOk : Bool) : PrepareRun ε χ → Prop
  | simulator (format : isSimulatorFormat params.executableFormat = true) :
      Prepares loaders mallocOk ⟨simulatorExecutableCreate params mallocOk, []⟩
  | decided {before after : List (ExecutableLoader ε χ)} {loader : ExecutableLoader ε χ}
      (format : isSimulatorFormat params.executableFormat = false)
      (split : supporting params loaders = before ++ loader :: after)
      (passed : ∀ l ∈ before, decides params workerCapacity l = false)
      (decided : decides params workerCapacity loader = true) :
      Prepares loaders mallocOk ⟨loadResult params workerCapacity loader, before ++ [loader]⟩
  | nobody (format : isSimulatorFormat params.executableFormat = false)
      (passed : ∀ l ∈ supporting params loaders, decides params workerCapacity l = false) :
      Prepares loaders mallocOk
        ⟨.error (noLoader params.executableFormat), supporting params loaders⟩

theorem prepares_prepareExecutable (loaders : List (ExecutableLoader ε χ)) (mallocOk : Bool) :
    Prepares params workerCapacity loaders mallocOk
      (prepareExecutable loaders workerCapacity params mallocOk) := by
  rw [prepareExecutable]
  cases hformat : isSimulatorFormat params.executableFormat with
  | true => exact .simulator hformat
  | false =>
    rw [if_neg Bool.false_ne_true, loop_prepareStep, List.nil_append]
    cases hfind : (supporting params loaders).find? (decides params workerCapacity) with
    | none =>
      have hpassed : ∀ l ∈ supporting params loaders, decides params workerCapacity l = false :=
        fun l hl => by simpa using List.find?_eq_none.mp hfind l hl
      rw [throughFirst_eq_self hpassed]
      exact .nobody hformat hpassed
    | some loader =>
      obtain ⟨hdecides, before, after, hsplit, hpassed⟩ := List.find?_eq_some_iff_append.mp hfind
      have hpassed' : ∀ l ∈ before, decides params workerCapacity l = false :=
        fun l hl => by simpa using hpassed l hl
      have htried : throughFirst (decides params workerCapacity) (supporting params loaders)
          = before ++ [loader] := by
        rw [hsplit, throughFirst_append _ hpassed', throughFirst, if_pos hdecides]
      rw [htried]
      exact .decided hformat hsplit hpassed' hdecides

/-- Nothing supports a format that the query denies. -/
theorem supporting_eq_nil {loaders : List (ExecutableLoader ε χ)}
    (h : canPrepareFormat loaders params.cachingMode params.executableFormat = false) :
    isSimulatorFormat params.executableFormat = false ∧ supporting params loaders = [] := by
  obtain ⟨hformat, hany⟩ := Bool.or_eq_false_iff.mp h
  refine ⟨hformat, List.filter_eq_nil_iff.mpr fun loader hloader => ?_⟩
  exact List.any_eq_false.mp hany loader hloader

end Loaders

/-- **Preparing an executable** asks the loaders that support its format in order, through the first that
    does not pass, and none if the format is that of the simulator.  A format that the query denies is
    prepared by nobody, and no loader is asked. -/
theorem prepareExecutable_asks (loaders : List (ExecutableLoader ε χ)) (workerCapacity : Nat)
    (params : ExecutableParams) (mallocOk : Bool) :
    Prepares params workerCapacity loaders mallocOk
        (prepareExecutable loaders workerCapacity params mallocOk) ∧
      (canPrepareFormat loaders params.cachingMode params.executableFormat = false →
        prepareExecutable loaders workerCapacity params mallocOk
          = ⟨.error (noLoader params.executableFormat), []⟩) := by
  refine ⟨prepares_prepareExecutable params workerCapacity loaders mallocOk, fun hdenied => ?_⟩
  obtain ⟨hformat, hnil⟩ := supporting_eq_nil params hdenied
  rw [prepareExecutable, hformat, if_neg Bool.false_ne_true, loop_prepareStep, hnil]
  rfl

/-! ### The binaries of the compiler -/

theorem simulatorExecutableCreate_eq_ok (params : ExecutableParams) (mallocOk : Bool)
    (executable : Executable χ) :
    (simulatorExecutableCreate params mallocOk : Except (PrepareError ε) _) = .ok executable ↔
      params.executableData ≠ [] ∧ mallocOk = true ∧ executable = .simulator params.executableData 1 := by
  unfold simulatorExecutableCreate
  cases hdata : params.executableData with
  | nil => simp
  | cons byte data =>
    cases mallocOk with
    | false => simp
    | true => simp [pure, Except.pure, eq_comm]

open Target

/-- The simulator takes what is linked for embedding on `riscv_32`. -/
theorem isSimulatorFormat_executableFormat (target : LLVMTarget) :
    isSimulatorFormat (executableFormat target) = true ↔
      target.linkStatic = false ∧ target.linkEmbedded = true ∧ target.archName = "riscv_32" := by
  rw [isSimulatorFormat, beq_iff_eq, executableFormat]
  cases target.linkStatic with
  | true => simp
  | false =>
    cases target.linkEmbedded with
    | true =>
      have hformat : "embedded-elf-" ++ "riscv_32" = "embedded-elf-riscv_32" := by decide
      have harch : "embedded-elf-" ++ target.archName = "embedded-elf-" ++ "riscv_32" ↔
          target.archName = "riscv_32" := String.append_right_inj _
      rw [hformat] at harch
      simpa using harch
    | false =>
      simp only [Bool.false_eq_true, if_false, false_and, and_false, iff_false]
      intro h
      have hhead := congrArg (·.toList.head?) h
      simp [String.toList_append] at hhead

/-- A static library is not for the simulator, whatever its variant names. -/
theorem isSimulatorFormat_static : isSimulatorFormat "static" = false := by decide

/-- A binary in the format of the simulator is a linked library, which it starts with. -/
theorem library_of_serialized {variant : ExecutableTarget} {compiled : Compiled}
    {binary : ExecutableBinary} (h : Serialized variant compiled binary)
    (hsim : isSimulatorFormat binary.format = true) :
    ∃ linkArtifacts file, compiled.linkArtifacts = some linkArtifacts ∧
      linkArtifacts.libraryFile = some file ∧ file <+: binary.data ∧
      (variant.target.linkEmbedded = true → binary.data = file) := by
  cases h with
  | static => exact absurd hsim (by rw [isSimulatorFormat_static]; exact Bool.false_ne_true)
  | @embedded linkArtifacts file _ _ linked library =>
    exact ⟨linkArtifacts, file, linked, library, List.prefix_refl _, fun _ => rfl⟩
  | @system linkArtifacts file data _ notEmbedded linked library alone database =>
    refine ⟨linkArtifacts, file, linked, library, ?_, fun hembedded => ?_⟩
    · cases hdebug : linkArtifacts.debugFile with
      | none => exact alone hdebug ▸ List.prefix_refl _
      | some debug =>
        obtain ⟨_, -, hprefix, -⟩ := database debug hdebug
        exact hprefix
    · rw [notEmbedded] at hembedded
      cases hembedded

/-- **From the linker to the simulator.**  The simulator takes a binary of the compiler exactly if it is
    not a static library and its variant names the format of the simulator; a variant that the backend
    makes names it exactly if its target is linked for embedding on `riscv_32`.  Then no loader is asked,
    and the executable dispatches the binary, unless this is empty or there is no memory: the linked
    library, and for embedding nothing else. -/
theorem serialized_prepares {variant : ExecutableTarget} {compiled : Compiled} {binary : ExecutableBinary}
    (h : serializeExecutable variant compiled = .ok binary) (loaders : List (ExecutableLoader ε χ))
    (workerCapacity : Nat) (cachingMode : UInt32) (mallocOk : Bool) :
    let run := prepareExecutable loaders workerCapacity ⟨cachingMode, binary.format, binary.data⟩ mallocOk
    (isSimulatorFormat binary.format = true ↔
        variant.target.linkStatic = false ∧ isSimulatorFormat variant.format = true) ∧
      (variant = getExecutableTarget variant.target → (isSimulatorFormat binary.format = true ↔
        variant.target.linkEmbedded = true ∧ variant.target.archName = "riscv_32")) ∧
      (isSimulatorFormat binary.format = true → run.tried = [] ∧
        (∀ executable, run.result = .ok executable ↔
          binary.data ≠ [] ∧ mallocOk = true ∧ executable = .simulator binary.data 1) ∧
        ∃ linkArtifacts file, compiled.linkArtifacts = some linkArtifacts ∧
          linkArtifacts.libraryFile = some file ∧ file <+: binary.data ∧
          (variant.target.linkEmbedded = true → binary.data = file)) := by
  intro run
  have hserialized := serializeExecutable_serialized h
  have hformat : isSimulatorFormat binary.format = true ↔
      variant.target.linkStatic = false ∧ isSimulatorFormat variant.format = true := by
    cases hserialized with
    | static isStatic => simp [isStatic, isSimulatorFormat_static]
    | embedded notStatic | system notStatic => simp [notStatic]
  refine ⟨hformat, fun hmade => ?_, fun hsim => ?_⟩
  · -- what is embedded is not static
    have hnot : variant.target.linkEmbedded = true → variant.target.linkStatic = false := by
      intro hembedded
      cases hserialized with
      | static _ notEmbedded => exact absurd hembedded (by rw [notEmbedded]; exact Bool.false_ne_true)
      | embedded notStatic | system notStatic => exact notStatic
    have hname : variant.format = executableFormat variant.target :=
      congrArg ExecutableTarget.format hmade
    rw [hformat, hname, isSimulatorFormat_executableFormat]
    tauto
  · have hrun : run = ⟨simulatorExecutableCreate _ mallocOk, []⟩ := if_pos hsim
    rw [hrun]
    exact ⟨rfl, simulatorExecutableCreate_eq_ok _ mallocOk, library_of_serialized hserialized hsim⟩

/-- A library of one byte, without loaders. -/
theorem serialized_prepares_riscv32 :
    (prepareExecutable ([] : List (ExecutableLoader Unit Unit)) 1
      ⟨0, "embedded-elf-riscv_32", [0x7f]⟩ true).result = .ok (.simulator [0x7f] 1) := by
  have hbinary : serializeExecutable (getExecutableTarget ⟨false, true, .elf, "riscv_32"⟩)
      ⟨"lib", 1, true, some ⟨"lib.so", some [0x7f], none⟩⟩
        = .ok ⟨"embedded-elf-riscv_32", [0x7f], some "application/x-elf"⟩ := by decide
  obtain ⟨-, hmade, hprepares⟩ :=
    serialized_prepares hbinary ([] : List (ExecutableLoader Unit Unit)) 1 0 true
  obtain ⟨-, hresult, -⟩ := hprepares ((hmade rfl).mpr ⟨rfl, rfl⟩)
  exact (hresult _).mpr ⟨by decide, rfl, rfl⟩

end CoralNPU.Driver
