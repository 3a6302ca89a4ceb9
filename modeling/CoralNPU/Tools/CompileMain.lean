import CoralNPU.Lib.View
import Mathlib.Order.Defs.LinearOrder

namespace CoralNPU.Tools

open Lib

/-!
# The compiler driver

`runCoralNpuCompileMain` compiles in two stages where IREE's own driver compiles in one: it stops behind
the `stream` phase, runs passes of its own, and goes on from there.

* `Api` — the functions of the compiler that the driver calls.
* `Flags` — its command line.
* `processBuffer`, `compileMain` — the driver, with what it writes, reports and keeps.
* `plainMain` — the driver without the addition.
* `compileMain_eq_plain` — they do the same, but for the reports.

Settings that are handed to the compiler (verification, remarks, dumped phases) are left out, and so is
where the passes write their reports.
-/

/-! ### The compiler -/

/-- `OutputFormat`: what the driver writes. -/
inductive OutputFormat
  | none | vmAsm | vmBytecode | vmC | halExecutable | precompile
  deriving DecidableEq

/-- `CompileMode`: which of its pipelines the driver runs. -/
inductive CompileMode
  | std | vm | halExecutable | precompile
  deriving DecidableEq

/-- What the driver calls: `S` are sources, `M` modules, `R` reports and `T` texts; `P` are phases. -/
structure Api (S M R T P : Type) where
  openSource : Except String S
  openOutput : Except String Unit
  sourceSplit : S → Except String (List S)
  parseSource : S → Option M
  pipelineStd : P → P → M → Option M
  pipelineHalExecutable : M → Option M
  pipelinePrecompile : M → Option M
  /-- The passes that run behind `stream`; they leave the module as it is. -/
  customPasses : M → Option R
  outputIR : M → Except String T
  outputIRBytecode : Int → M → Except String T
  outputVMBytecode : M → Except String T
  outputVMCSource : M → Except String T
  outputHALExecutable : M → Except String T

/-- The command line, and whether `IREE_HAVE_C_OUTPUT_FORMAT` is defined. -/
structure Flags (P : Type) where
  outputFormat : OutputFormat
  compileMode : CompileMode
  compileFrom : P
  compileTo : P
  emitMLIRBytecode : Bool
  emitMLIRBytecodeVersion : Option Int
  splitInputFile : Bool
  haveCOutputFormat : Bool

/-- The output file, the messages, and the reports of the passes. -/
structure Log (R T : Type) where
  written : List T
  errors : List String
  reports : List R

variable {S M R T P : Type}

/-- A part of the driver; it ends early where the source returns `false`. -/
abbrev Compile (R T α : Type) := Scratch (Log R T) Unit α

/-! ### The driver -/

/-- `if (!...) return false;` -/
def orStop (result : Option M) : Compile R T M :=
  Scratch.lift (match result with
    | some m => .ok m
    | none => .error ())

/-- A message on `llvm::errs()`. -/
def report (message : String) : Compile R T PUnit :=
  modify fun log => { log with errors := log.errors ++ [message] }

/-- `MainState::handleError` -/
def errorMessage (msg : String) : String := "error opening input file: " ++ msg ++ "\n"

/-- Something is written to the output, or the error is handled. -/
def emit (text : Except String T) : Compile R T PUnit :=
  match text with
  | .ok text => modify fun log => { log with written := log.written ++ [text] }
  | .error error => do
    report (errorMessage error)
    Scratch.lift (.error ())

section Driver

variable [DecidableEq P] (api : Api S M R T P) (stream finish : P) (flags : Flags P)

/-- The passes of the addition, on the module behind `stream`. -/
def runCustomPasses (m : M) : Compile R T PUnit :=
  match api.customPasses m with
  | some r => modify fun log => { log with reports := log.reports ++ [r] }
  | none => do
    report "Failed to run custom Coral NPU passes\n"
    Scratch.lift (.error ())

/-- `CompileMode::std`, with the addition. -/
def compileStd (m : M) : Compile R T M :=
  if flags.compileTo = finish then do
    let m ← orStop (api.pipelineStd flags.compileFrom stream m)
    runCustomPasses api m
    orStop (api.pipelineStd stream finish m)
  else orStop (api.pipelineStd flags.compileFrom flags.compileTo m)

/-- `outputMLIR` -/
def outputMLIR (m : M) : Except String T :=
  if flags.emitMLIRBytecode then api.outputIRBytecode (flags.emitMLIRBytecodeVersion.getD (-1)) m
  else api.outputIR m

/-- The switch on the output format, which two of the modes have set. -/
def outputFormatted (m : M) : Compile R T PUnit :=
  let format := match flags.compileMode with
    | .halExecutable => OutputFormat.halExecutable
    | .precompile => .precompile
    | _ => flags.outputFormat
  match format with
  | .vmAsm => emit (outputMLIR api flags m)
  | .vmBytecode => emit (api.outputVMBytecode m)
  | .halExecutable => emit (api.outputHALExecutable m)
  | .precompile => emit (outputMLIR api flags m)
  | .vmC =>
    if flags.haveCOutputFormat then emit (api.outputVMCSource m)
    else do
      report "INTERNAL ERROR: Unknown output format\n"
      Scratch.lift (.error ())
  | .none => do
    report "INTERNAL ERROR: Unknown output format\n"
    Scratch.lift (.error ())

/-- The switch on the compile mode, with the way in which `CompileMode::std` compiles. -/
def compileWith (std : M → Compile R T M) (m : M) : Compile R T M :=
  match flags.compileMode with
  | .std => std m
  | .vm => pure m
  | .halExecutable => orStop (api.pipelineHalExecutable m)
  | .precompile => orStop (api.pipelinePrecompile m)

/-- `processBuffer` -/
def processBufferWith (std : M → Compile R T M) (source : S) : Compile R T PUnit := do
  let m ← orStop (api.parseSource source)
  let m ← compileWith api flags std m
  -- ending early and just emitting IR
  if flags.compileTo ≠ finish then emit (outputMLIR api flags m)
  else outputFormatted api flags m

/-- The chunks one after the other; a chunk that fails does not end this.  Returns `!hadFailure`. -/
def processAll (process : S → Compile R T PUnit) : List S → Log R T → Bool × Log R T
  | [], log => (true, log)
  | source :: sources, log =>
    let result := process source log
    let rest := processAll process sources result.2
    (result.1.toBool && rest.1, rest.2)

/-- What the driver leaves. The output file is kept, or discarded. -/
structure Outcome (R T : Type) where
  exitCode : Nat
  output : Option (List T)
  errors : List String
  reports : List R

/-- The end of the driver: the output is kept if nothing has failed. -/
def keepOutput (result : Bool × Log R T) : Outcome R T where
  exitCode := if result.1 then 0 else 1
  output := if result.1 then some result.2.written else none
  errors := result.2.errors
  reports := result.2.reports

/-- The sources that are compiled: the chunks of the file, or the file. -/
def chunks (source : S) : Except String (List S) :=
  if flags.splitInputFile then api.sourceSplit source else .ok [source]

/-- The driver, with its `processBuffer`. -/
def mainWith (process : S → Compile R T PUnit) : Outcome R T :=
  match api.openSource with
  | .error error => ⟨1, none, [errorMessage error], []⟩
  | .ok source =>
    match api.openOutput with
    | .error error => ⟨1, none, [errorMessage error], []⟩
    | .ok _ =>
      match chunks api flags source with
      | .error error => ⟨1, none, [errorMessage error], []⟩
      | .ok sources => keepOutput (processAll process sources ⟨[], [], []⟩)

/-- `runCoralNpuCompileMain` -/
def compileMain : Outcome R T :=
  mainWith api flags (processBufferWith api finish flags (compileStd api stream finish flags))

/-- The driver without the addition: one stage. -/
def plainMain : Outcome R T :=
  mainWith api flags (processBufferWith api finish flags fun m =>
    orStop (api.pipelineStd flags.compileFrom flags.compileTo m))

/-! ### Without the reports -/

/-- What is left of a log without the reports. -/
def Log.withoutReports (log : Log R T) : Log R T := { log with reports := [] }

/-- A message is the same in the log without reports. -/
theorem viewedAs_report (message : String) :
    ViewedAs Log.withoutReports (report message : Compile R T PUnit) (report message) :=
  viewedAs_modify fun _ => rfl

/-- So is what is emitted. -/
theorem viewedAs_emit (text : Except String T) :
    ViewedAs Log.withoutReports (emit text : Compile R T PUnit) (emit text) := by
  cases text with
  | ok text => exact viewedAs_modify fun _ => rfl
  | error error => exact viewedAs_bind (viewedAs_report _) fun _ => viewedAs_lift _

omit [DecidableEq P] in
/-- And the output of a module. -/
theorem viewedAs_outputFormatted (m : M) :
    ViewedAs Log.withoutReports (outputFormatted api flags m : Compile R T PUnit)
      (outputFormatted api flags m) := by
  have herror : ViewedAs Log.withoutReports
      (do report "INTERNAL ERROR: Unknown output format\n"; Scratch.lift (.error ()) : Compile R T PUnit)
      (do report "INTERNAL ERROR: Unknown output format\n"; Scratch.lift (.error ())) :=
    viewedAs_bind (viewedAs_report _) fun _ => viewedAs_lift _
  unfold outputFormatted
  dsimp only
  split
  · exact viewedAs_emit _
  · exact viewedAs_emit _
  · exact viewedAs_emit _
  · exact viewedAs_emit _
  · split
    · exact viewedAs_emit _
    · exact herror
  · exact herror

/-- A pipeline that cannot be told from another one in this log can be put in its place. -/
theorem viewedAs_processBufferWith {std std' : M → Compile R T M}
    (h : flags.compileMode = .std → ∀ m, ViewedAs Log.withoutReports (std m) (std' m)) (source : S) :
    ViewedAs Log.withoutReports (processBufferWith api finish flags std source)
      (processBufferWith api finish flags std' source) := by
  refine viewedAs_bind (viewedAs_lift _) fun m => ?_
  refine viewedAs_bind ?_ fun m => ?_
  · unfold compileWith
    cases hmode : flags.compileMode with
    | std => exact h hmode m
    | vm => exact viewedAs_pure m
    | halExecutable => exact viewedAs_lift _
    | precompile => exact viewedAs_lift _
  · split
    · exact viewedAs_emit _
    · exact viewedAs_outputFormatted api flags m

omit [DecidableEq P] in
/-- The chunks, one after the other. -/
theorem processAll_withoutReports {process process' : S → Compile R T PUnit}
    (h : ∀ source, ViewedAs Log.withoutReports (process source) (process' source)) (sources : List S)
    (log : Log R T) : processAll process' sources log.withoutReports
      = ((processAll process sources log).1, (processAll process sources log).2.withoutReports) := by
  induction sources generalizing log with
  | nil => rfl
  | cons source sources ih =>
    simp only [processAll, h source log, ih]

omit [DecidableEq P] in
/-- Drivers whose chunks differ in the reports. -/
theorem mainWith_withoutReports {process process' : S → Compile R T PUnit}
    (h : ∀ source, ViewedAs Log.withoutReports (process source) (process' source)) :
    mainWith api flags process' = { mainWith api flags process with reports := [] } := by
  unfold mainWith
  cases api.openSource with
  | error error => rfl
  | ok source =>
    cases api.openOutput with
    | error error => rfl
    | ok _ =>
      dsimp only
      cases chunks api flags source with
      | error error => rfl
      | ok sources =>
        exact congrArg keepOutput (processAll_withoutReports h sources ⟨[], [], []⟩)

/-! ### Two stages and one -/

/-- What the driver relies on: a pipeline can be left behind a phase and resumed there, and the passes in
    between do not fail. -/
structure Api.Lawful [LT P] (api : Api S M R T P) (stream finish : P) : Prop where
  stream_lt : stream < finish
  resume : ∀ a b c, a < b → b < c → ∀ m,
    api.pipelineStd a c m = (api.pipelineStd a b m).bind (api.pipelineStd b c)
  passes : ∀ m, (api.customPasses m).isSome

omit [DecidableEq P] in
/-- Two parts that may stop, one after the other. -/
theorem orStop_bind (x : Option M) (f : M → Option M) :
    (orStop (x.bind f) : Compile R T M) = orStop x >>= fun m => orStop (f m) := by
  cases x with
  | none => rfl
  | some m => rfl

/-- **Two stages are one**, seen without the reports, if the first of them has a phase to run. -/
theorem viewedAs_compileStd [LT P] {api : Api S M R T P} {stream finish : P} {flags : Flags P}
    (hapi : api.Lawful stream finish)
    (hfrom : flags.compileTo = finish → flags.compileFrom < stream) (m : M) :
    ViewedAs Log.withoutReports (compileStd api stream finish flags m : Compile R T M)
      (orStop (api.pipelineStd flags.compileFrom flags.compileTo m)) := by
  unfold compileStd
  split
  next hto =>
    rw [hto, hapi.resume _ _ _ (hfrom hto) hapi.stream_lt, orStop_bind]
    refine viewedAs_bind (viewedAs_lift _) fun m => ?_
    obtain ⟨r, hr⟩ := Option.isSome_iff_exists.mp (hapi.passes m)
    rw [runCustomPasses, hr]
    exact viewedAs_hidden (fun _ => rfl) (viewedAs_lift _)
  next => exact viewedAs_lift _

/-! ### The reports -/

omit [DecidableEq P] in
/-- Stopping reports nothing. -/
theorem preserves_orStop (result : Option M) :
    Preserves Log.reports (orStop result : Compile R T M) := preserves_lift _

omit [DecidableEq P] in
/-- A message is no report of a pass. -/
theorem preserves_report (message : String) :
    Preserves Log.reports (report message : Compile R T PUnit) := preserves_modify fun _ => rfl

omit [DecidableEq P] in
/-- Nor is what is emitted. -/
theorem preserves_emit (text : Except String T) : Preserves Log.reports (emit text : Compile R T PUnit) := by
  cases text with
  | ok text => exact preserves_modify fun _ => rfl
  | error error => exact preserves_bind (preserves_report _) fun _ => preserves_lift _

omit [DecidableEq P] in
/-- Nor the output of a module. -/
theorem preserves_outputFormatted (m : M) :
    Preserves Log.reports (outputFormatted api flags m : Compile R T PUnit) := by
  have herror : Preserves Log.reports
      (do report "INTERNAL ERROR: Unknown output format\n"; Scratch.lift (.error ()) : Compile R T PUnit) :=
    preserves_bind (preserves_report _) fun _ => preserves_lift _
  unfold outputFormatted
  dsimp only
  split
  · exact preserves_emit _
  · exact preserves_emit _
  · exact preserves_emit _
  · exact preserves_emit _
  · split
    · exact preserves_emit _
    · exact herror
  · exact herror

/-- The report on a source: that on its module behind `stream`. -/
def reportOf (source : S) : Option R :=
  if flags.compileMode = .std ∧ flags.compileTo = finish then
    (api.parseSource source).bind fun m =>
      (api.pipelineStd flags.compileFrom stream m).bind api.customPasses
  else none

omit [DecidableEq P] in
/-- The passes report the module before them. -/
theorem reports_runCustomPasses (m : M) (log : Log R T) :
    (runCustomPasses api m log).2.reports = log.reports ++ (api.customPasses m).toList := by
  unfold runCustomPasses
  cases api.customPasses m with
  | none => exact (List.append_nil _).symm
  | some r => rfl

/-- The two stages, up to `finish`. -/
theorem reports_compileStd {flags : Flags P} (hto : flags.compileTo = finish) (m : M) (log : Log R T) :
    (compileStd api stream finish flags m log).2.reports = log.reports ++
      ((api.pipelineStd flags.compileFrom stream m).bind api.customPasses).toList := by
  unfold compileStd
  rw [if_pos hto]
  cases hstream : api.pipelineStd flags.compileFrom stream m with
  | none => exact (List.append_nil _).symm
  | some m =>
    exact (view_bind (fun _ => preserves_orStop _) log).trans (reports_runCustomPasses api m log)

/-- A chunk makes the report on it, whatever happens behind `stream`. -/
theorem reports_processBuffer (source : S) (log : Log R T) :
    (processBufferWith api finish flags (compileStd api stream finish flags) source log).2.reports
      = log.reports ++ (reportOf api stream finish flags source).toList := by
  have htail (m : M) : Preserves Log.reports
      (if flags.compileTo ≠ finish then emit (outputMLIR api flags m)
        else outputFormatted api flags m : Compile R T PUnit) := by
    split
    · exact preserves_emit _
    · exact preserves_outputFormatted api flags m
  unfold processBufferWith reportOf
  cases hparse : api.parseSource source with
  | none =>
    rw [Option.bind_none, ite_self]
    exact (List.append_nil _).symm
  | some m =>
    refine (view_bind htail log).trans ?_
    rw [Option.bind_some]
    cases hmode : flags.compileMode with
    | std =>
      by_cases hto : flags.compileTo = finish
      · rw [if_pos ⟨rfl, hto⟩]
        exact reports_compileStd api stream finish hto m log
      · rw [if_neg fun h => hto h.2, Option.toList_none, List.append_nil]
        unfold compileStd
        rw [if_neg hto]
        exact preserves_lift _ log
    | vm => simp [preserves_pure m log]
    | halExecutable => simp [preserves_orStop _ log]
    | precompile => simp [preserves_orStop _ log]

/-- All chunks. -/
theorem reports_processAll (sources : List S) (log : Log R T) :
    (processAll (processBufferWith api finish flags (compileStd api stream finish flags))
        sources log).2.reports
      = log.reports ++ sources.filterMap (reportOf api stream finish flags) := by
  induction sources generalizing log with
  | nil => exact (List.append_nil _).symm
  | cons source sources ih =>
    rw [processAll, ih, reports_processBuffer, List.append_assoc, List.filterMap_cons]
    cases reportOf api stream finish flags source <;> rfl

/-- **The driver does what the plain one does**, and makes the reports on top: one for each chunk that
    is compiled in two stages and comes to `stream`, in order, whatever happens to it afterwards.  This
    is so for every command line that does not resume at `stream` or behind it. -/
theorem compileMain_eq_plain [LT P] {api : Api S M R T P} {stream finish : P} {flags : Flags P}
    (hapi : api.Lawful stream finish)
    (hfrom : flags.compileMode = .std → flags.compileTo = finish → flags.compileFrom < stream) :
    plainMain api finish flags = { compileMain api stream finish flags with reports := [] } ∧
      ∀ source sources, api.openSource = .ok source → api.openOutput = .ok () →
        chunks api flags source = .ok sources →
          (compileMain api stream finish flags).reports
            = sources.filterMap (reportOf api stream finish flags) := by
  refine ⟨?_, fun source sources hsource houtput hchunks => ?_⟩
  · refine mainWith_withoutReports api flags fun source => ?_
    exact viewedAs_processBufferWith api finish flags
      (fun hmode m => viewedAs_compileStd hapi (hfrom hmode) m) source
  · rw [compileMain, mainWith, hsource]
    dsimp only
    rw [houtput]
    dsimp only
    rw [hchunks]
    exact reports_processAll api stream finish flags sources ⟨[], [], []⟩

end Driver

/-- A compiler whose modules are the phases that they have gone through. -/
def tracing : Api Unit (List Nat) Nat (List Nat) Nat where
  openSource := .ok ()
  openOutput := .ok ()
  sourceSplit _ := .ok [(), ()]
  parseSource _ := some []
  pipelineStd a b m := some (m ++ List.range' (a + 1) (b - a))
  pipelineHalExecutable m := some m
  pipelinePrecompile m := some m
  customPasses m := some m.length
  outputIR m := .ok m
  outputIRBytecode _ m := .ok m
  outputVMBytecode m := .ok m
  outputVMCSource m := .ok m
  outputHALExecutable m := .ok m

/-- The driver that traces its calls satisfies the laws. -/
theorem tracing_lawful : tracing.Lawful 3 5 where
  stream_lt := by decide
  resume a b c hab hbc m := by
    have hrange := @List.range'_append (a + 1) (b - a) (c - b) 1
    rw [Nat.one_mul, show a + 1 + (b - a) = b + 1 by omega, show b - a + (c - b) = c - a by omega] at hrange
    show some (m ++ _) = some (m ++ _ ++ _)
    rw [List.append_assoc, hrange]
  passes _ := rfl

/-- Two chunks, from the first phase on. -/
theorem compileMain_eq_plain_tracing :
    let flags : Flags Nat := ⟨.vmBytecode, .std, 0, 5, false, none, true, false⟩
    plainMain tracing 5 flags = { compileMain tracing 3 5 flags with reports := [] } ∧
      (compileMain tracing 3 5 flags).reports = [3, 3] := by
  intro flags
  have hfrom : flags.compileMode = .std → flags.compileTo = 5 → flags.compileFrom < 3 := fun _ _ => by decide
  obtain ⟨hplain, hreports⟩ := compileMain_eq_plain tracing_lawful hfrom
  exact ⟨hplain, hreports () [(), ()] rfl rfl rfl⟩

end CoralNPU.Tools
