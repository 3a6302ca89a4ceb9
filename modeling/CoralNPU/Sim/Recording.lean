import CoralNPU.Lib.Scratch
import CoralNPU.Lib.Steps
import CoralNPU.Sim.DispatchPaths
import CoralNPU.Sim.Workgroups

namespace CoralNPU.Sim

open Lib

/-!
# Command buffers that are recorded

`iree_hal_coralnpu_command_buffer_t` executes a command when it is recorded.  It keeps one dispatch
state and storage for bindings, which every dispatch fills anew; a dispatch that returns early leaves
them half filled.

* `CommandBufferState`, `resetState` — the cached state.
* `dispatchSimulator`, `dispatchHost` — the two branches of the dispatch, with their stores in the order
  of the source.
* `Command`, `execute`, `recordStep` — the commands, and what recording one does.
* `perform`, `performStep` — what a command does, without the cached state: the branches are
  `simulatorPath` and `plainPath`.
* `InlineDispatchState.announced` — the part of a dispatch state that its executor may read.
* `HostExecutable.issueDispatchInline` — the loops over the workgroups, on host memory.
* `createAndRecord_eq` — a command buffer does to host memory, and returns, what its commands do and
  return one after the other.
-/

variable {wz n : Nat}

/-! ### The cached state -/

/-- `iree_hal_coralnpu_command_buffer_t::state`, with storage for `n` bindings.  In the dispatch state a
    pointer to that storage is `some ()`. -/
structure CommandBufferState (wz n : Nat) where
  dispatchState : DispatchState (List UInt32) Unit Unit wz
  bindingPtrStorage : Vector (Option Nat) n
  bindingLengthStorage : Vector UInt64 n
  processorTag : UInt32
  processorId : UInt32

/-- `iree_hal_coralnpu_command_buffer_reset` -/
def resetState (wz n : Nat) : CommandBufferState wz n where
  dispatchState :=
    { workgroupSizeX := 0, workgroupSizeY := 0, workgroupSizeZ := 0, constantCount := 0,
      workgroupCountX := 0, workgroupCountY := 0, workgroupCountZ := 0, maxConcurrency := 0,
      bindingCount := 0, constants := none,
      -- the cached pointers that do not change
      bindingPtrs := some (), bindingLengths := some () }
  bindingPtrStorage := Vector.replicate n none
  bindingLengthStorage := Vector.replicate n 0
  processorTag := 0
  processorId := 0

/-- The dispatch state as the executor sees it, through its pointers. -/
def CommandBufferState.visible (s : CommandBufferState wz n) : InlineDispatchState wz where
  workgroupSizeX := s.dispatchState.workgroupSizeX
  workgroupSizeY := s.dispatchState.workgroupSizeY
  workgroupSizeZ := s.dispatchState.workgroupSizeZ
  constantCount := s.dispatchState.constantCount
  workgroupCountX := s.dispatchState.workgroupCountX
  workgroupCountY := s.dispatchState.workgroupCountY
  workgroupCountZ := s.dispatchState.workgroupCountZ
  maxConcurrency := s.dispatchState.maxConcurrency
  bindingCount := s.dispatchState.bindingCount
  constants := s.dispatchState.constants
  bindingPtrs := s.dispatchState.bindingPtrs.map fun () => s.bindingPtrStorage.toList
  bindingLengths := s.dispatchState.bindingLengths.map fun () => s.bindingLengthStorage.toList

/-! ### The dispatch -/

/-- A part of the dispatch: an error leaves the state as it is then. -/
abbrev Recording (wz n : Nat) := Scratch (CommandBufferState wz n) PathFailure

/-- A store to the cached dispatch state. -/
def setDispatchState
    (f : DispatchState (List UInt32) Unit Unit wz → DispatchState (List UInt32) Unit Unit wz) :
    CommandBufferState wz n → CommandBufferState wz n :=
  fun s => { s with dispatchState := f s.dispatchState }

/-- `iree_hal_coralnpu_command_buffer_update_processor_id`, where the query leaves `processor`. -/
def updateProcessorId (processor : UInt32 × UInt32) (s : CommandBufferState wz n) :
    CommandBufferState wz n :=
  { s with processorTag := processor.1, processorId := processor.2 }

/-- The workgroup size from the dispatch config. -/
def setWorkgroupSize (args : DispatchArguments) : CommandBufferState wz n → CommandBufferState wz n :=
  setDispatchState fun ds =>
    { ds with
      workgroupSizeX := requestedSize args.workgroupSizeX
      workgroupSizeY := requestedSize args.workgroupSizeY
      workgroupSizeZ := BitVec.ofNat wz (requestedSize args.workgroupSizeZ).toNat }

/-- The workgroup count.  The copy of an indirect count writes three words over two words and a half,
    and so over the two fields behind them, which `behind` gives. -/
def setWorkgroupCount (behind : UInt32 → UInt8 × UInt8) (args : DispatchArguments) :
    Recording wz n Unit := do
  match args.workgroupCount with
  | .direct x y z =>
    modify (setDispatchState fun ds =>
      { ds with workgroupCountX := x, workgroupCountY := y, workgroupCountZ := z.toUInt16 })
  | .indirect parameters =>
    let (x, y, z) ← Scratch.lift (orReject parameters)
    modify (setDispatchState fun ds =>
      { ds with
        workgroupCountX := x
        workgroupCountY := y
        workgroupCountZ := z.toUInt16
        maxConcurrency := (behind z).1
        bindingCount := (behind z).2 })

/-- "Single-threaded." -/
def setMaxConcurrency (ds : DispatchState (List UInt32) Unit Unit wz) :
    DispatchState (List UInt32) Unit Unit wz :=
  { ds with maxConcurrency := 1 }

def DispatchArguments.setConstants (args : DispatchArguments) (constantCount : UInt16)
    (ds : DispatchState (List UInt32) Unit Unit wz) : DispatchState (List UInt32) Unit Unit wz :=
  { ds with constantCount := constantCount, constants := some (wordsOf args.constants) }

def DispatchArguments.setBindingCount (args : DispatchArguments)
    (ds : DispatchState (List UInt32) Unit Unit wz) : DispatchState (List UInt32) Unit Unit wz :=
  { ds with bindingCount := UInt8.ofNat args.bindings.length }

/-- The two stores of binding `i`. -/
def storeBinding (i : Nat) (range : HostRange) : Recording wz n Unit :=
  if h : i < n then
    modify fun s =>
      { s with
        bindingPtrStorage := s.bindingPtrStorage.set i range.1 h
        bindingLengthStorage := s.bindingLengthStorage.set i range.2 h }
  else
    throw .undefined

/-- The loop over the bindings, from binding `i` on.  Returns `binding_writeable`. -/
def mapIntoStorage (onNull : Nat → PathFailure) :
    Nat → List (Option MappableBuffer) → Recording wz n (List Bool)
  | _, [] => return []
  | i, none :: _ => throw (onNull i)
  | i, some buffer :: bindings => do
    let range ← Scratch.lift (orReject buffer.map)
    storeBinding i range
    let rest ← mapIntoStorage onNull (i + 1) bindings
    return buffer.writeable :: rest

/-- The branch for a simulator executable, up to the call of the executor. -/
def dispatchSimulator (behind : UInt32 → UInt8 × UInt8) (args : DispatchArguments)
    (processor : UInt32 × UInt32) : Recording wz n (Handed wz × List Bool) := do
  Scratch.lift (rejectCustomArguments args)
  modify (updateProcessorId processor)
  modify (setWorkgroupSize args)
  setWorkgroupCount behind args
  modify (setDispatchState setMaxConcurrency)
  if args.constants.length % 4 ≠ 0 then
    throw (.rejected ⟨.failedPrecondition, "constants must be 4-byte aligned"⟩)
  modify (setDispatchState (args.setConstants (UInt16.ofNat (args.constants.length / 4))))
  modify (setDispatchState args.setBindingCount)
  let bindingWriteable ← mapIntoStorage (fun _ => .undefined) 0 args.bindings
  let s ← get
  return (⟨s.visible, 0⟩, bindingWriteable)

/-- The branch for an executable that the host calls itself, up to the call of the executor.  Hands
    `processor_id` over as well. -/
def dispatchHost (behind : UInt32 → UInt8 × UInt8) (limits : Limits) (attrs : DispatchAttrs)
    (malloc : Except Status Unit) (args : DispatchArguments) (processor : UInt32 × UInt32) :
    Recording wz n (Handed wz × UInt32) := do
  Scratch.lift (rejectCustomArguments args)
  modify (updateProcessorId processor)
  modify (setWorkgroupSize args)
  setWorkgroupCount behind args
  modify (setDispatchState setMaxConcurrency)
  if args.constants.length % 4 ≠ 0 then
    throw (.rejected ⟨.failedPrecondition, "constants must be 4-byte aligned"⟩)
  if args.constants.length ≠ attrs.constantCount * 4 then
    let expected := UInt32.ofNat attrs.constantCount
    let provided := args.constants.length / 4
    throw (.rejected ⟨.invalidArgument,
      s!"constant count mismatch, expected {expected} but was provided {provided}"⟩)
  modify (setDispatchState (args.setConstants (UInt16.ofNat attrs.constantCount)))
  if args.bindings.length ≠ attrs.bindingCount then
    let expected := UInt32.ofNat attrs.bindingCount
    let provided := args.bindings.length
    throw (.rejected ⟨.invalidArgument,
      s!"binding count mismatch, expected {expected} but was provided {provided}"⟩)
  modify (setDispatchState args.setBindingCount)
  let _ ← mapIntoStorage requiredBinding 0 args.bindings
  if localMemorySize limits attrs args > 0 then
    Scratch.lift (orReject malloc)
  let s ← get
  return (⟨s.visible, localMemorySize limits attrs args⟩, s.processorId)

/-! ### What an executor reads -/

/-- The dispatch state with the bindings that it announces, and no more of their storage. -/
def InlineDispatchState.announced (state : InlineDispatchState wz) : InlineDispatchState wz :=
  { state with
    bindingPtrs := state.bindingPtrs.map (·.take state.bindingCount.toNat)
    bindingLengths := state.bindingLengths.map (·.take state.bindingCount.toNat) }

theorem ranges_announced (state : InlineDispatchState wz) : state.announced.ranges = state.ranges := by
  have hget : ∀ {α : Type} (o : Option (List α)) (k : Nat),
      (o.map (·.take k)).getD [] = (o.getD []).take k := by
    intro α o k
    cases o with
    | none => exact (List.take_nil).symm
    | some l => rfl
  show (List.zip ((state.bindingPtrs.map _).getD []) ((state.bindingLengths.map _).getD [])).take
    state.bindingCount.toNat = _
  rw [hget, hget, List.zip, ← List.take_zipWith, List.take_take, Nat.min_self]
  rfl

theorem encodeDispatch_announced (layout : ElfLayout) (state : InlineDispatchState wz) (host : Memory)
    (ordinal : UInt32) (localMemoryLength : UInt64) (m : Memory) :
    encodeDispatch layout (state.announced.contents host) ordinal localMemoryLength m
      = encodeDispatch layout (state.contents host) ordinal localMemoryLength m := by
  have hbindings :
      hostBindings (state.announced.contents host) = hostBindings (state.contents host) := by
    rw [hostBindings_contents, hostBindings_contents, ranges_announced]
  simp only [encodeDispatch, hbindings]
  rfl

/-- **The simulator's executor reads the announced bindings only.** -/
theorem issueInline_announced (file : List UInt8) (device : Memory)
    (simulate : UInt32 → Memory → Memory) (state : InlineDispatchState wz)
    (bindingWriteable : Option (List Bool)) (ordinal localMemoryLength : UInt64) (host : Memory) :
    issueInline file device simulate state.announced bindingWriteable ordinal localMemoryLength host
      = issueInline file device simulate state bindingWriteable ordinal localMemoryLength host := by
  have hptrs : (state.announced.contents host).bindingPtrs.isNone
      = (state.contents host).bindingPtrs.isNone := by
    show ((state.bindingPtrs.map _).map _).isNone = (state.bindingPtrs.map _).isNone
    cases state.bindingPtrs <;> rfl
  have hlengths : (state.announced.contents host).bindingLengths.isNone
      = (state.contents host).bindingLengths.isNone := by
    show (state.bindingLengths.map _).isNone = state.bindingLengths.isNone
    cases state.bindingLengths <;> rfl
  have hprepare : prepareInline file device state.announced ordinal localMemoryLength host
      = prepareInline file device state ordinal localMemoryLength host := by
    simp only [prepareInline, prepareDispatch, hptrs, hlengths, encodeDispatch_announced]
    rfl
  simp only [issueInline, hprepare, ranges_announced]

/-! ### Commands -/

/-- An executable that the host calls itself: the attributes of its exports, and the vtable's
    `issue_call`, for an ordinal, a dispatch state, a workgroup and a worker.  The kernel reads and writes
    host memory. -/
structure HostExecutable (wz : Nat) where
  dispatchAttrs : UInt64 → DispatchAttrs
  issueCall : UInt64 → InlineDispatchState wz → HostWorkgroupState → UInt32 → Memory →
    Except Status Unit × Memory

namespace HostExecutable

variable (executable : HostExecutable wz)

/-- The kernels find their bindings by the count of the dispatch state. -/
def ReadsAnnounced : Prop :=
  ∀ ordinal state workgroup worker host,
    executable.issueCall ordinal state.announced workgroup worker host
      = executable.issueCall ordinal state workgroup worker host

/-- `iree_hal_coralnpu_executable_issue_dispatch_inline`, on host memory. -/
def issueDispatchInline (ordinal : UInt64) (state : InlineDispatchState wz) (processorId : UInt32)
    (localMemory : ByteSpan) (host : Memory) : Except Status Unit × Memory :=
  issueGrid
    (fun (x, y, z) run =>
      executable.issueCall ordinal state
        { workgroupIdX := UInt32.ofNat x, workgroupIdY := UInt32.ofNat y
          workgroupIdZ := UInt16.ofNat z, processorId, localMemory := localMemory.data
          localMemorySize := localMemory.dataLength }
        0 run.2)
    (fun run => run.1.isOk) state.workgroupCountX.toNat state.workgroupCountY.toNat
    state.workgroupCountZ.toNat (.ok (), host)

variable {executable}

/-- **The host's loops read the announced bindings only** where the kernels do. -/
theorem ReadsAnnounced.issueDispatchInline (h : executable.ReadsAnnounced) (ordinal : UInt64)
    (state : InlineDispatchState wz) (processorId : UInt32) (localMemory : ByteSpan) (host : Memory) :
    executable.issueDispatchInline ordinal state.announced processorId localMemory host
      = executable.issueDispatchInline ordinal state processorId localMemory host := by
  simp only [HostExecutable.issueDispatchInline, h ordinal state]
  rfl

end HostExecutable

/-- The `local_memory` of a dispatch, where `malloc` gives an address. -/
def localMemorySpan (malloc : Except Status UInt64) (size : Nat) : ByteSpan :=
  ⟨if size > 0 then malloc.toOption else none, UInt64.ofNat size⟩

/-- `iree_hal_executable_t`: a simulator executable or one for the host. -/
inductive AnyExecutable (wz : Nat)
  | simulator (file : List UInt8) (device : Memory) (simulate : UInt32 → Memory → Memory)
  | host (executable : HostExecutable wz)

/-- The commands of the vtable.  `map` is a call of `iree_hal_buffer_map_fill`, `_write` or `_copy`;
    what the buffers of a dispatch map to may depend on host memory. -/
inductive Command (wz : Nat)
  | begin (processor : UInt32 × UInt32)
  | «end»
  /-- Debug groups, execution barriers, events and advice. -/
  | noOp
  | map (effect : Memory → Except Status Unit × Memory)
  | collective
  | dispatch (executable : AnyExecutable wz) (ordinal : UInt64) (args : Memory → DispatchArguments)
      (malloc : Except Status UInt64) (processor : UInt32 × UInt32)

/-- The kernels of a command, where the host calls them, read the announced bindings only. -/
def Command.ReadsAnnounced : Command wz → Prop
  | .dispatch (.host executable) _ _ _ _ => executable.ReadsAnnounced
  | _ => True

def collectiveFailure : Status := ⟨.unimplemented, "collectives not yet implemented on CPU"⟩

section Execute

variable (behind : UInt32 → UInt8 × UInt8) (limits : Limits)

/-- **A command on the cached state.** Returns the status, the cached state and host memory. -/
def execute (command : Command wz) (s : CommandBufferState wz n) (host : Memory) :
    Except PathFailure Unit × CommandBufferState wz n × Memory :=
  match command with
  | .begin processor => (.ok (), updateProcessorId processor (resetState wz n), host)
  | .end => (.ok (), resetState wz n, host)
  | .noOp => (.ok (), s, host)
  | .map effect => (orReject (effect host).1, s, (effect host).2)
  | .collective => (.error (.rejected collectiveFailure), s, host)
  | .dispatch (.simulator file device simulate) ordinal args _ processor =>
    match dispatchSimulator behind (args host) processor s with
    | (.error failure, s) => (.error failure, s, host)
    | (.ok (handed, bindingWriteable), s) =>
      let (status, host) :=
        issueInline file device simulate handed.state (some bindingWriteable) ordinal 0 host
      (orReject status, s, host)
  | .dispatch (.host executable) ordinal args malloc processor =>
    let attrs := executable.dispatchAttrs ordinal
    match dispatchHost behind limits attrs (malloc.map fun _ => ()) (args host) processor s with
    | (.error failure, s) => (.error failure, s, host)
    | (.ok (handed, processorId), s) =>
      let (status, host) :=
        executable.issueDispatchInline ordinal handed.state processorId
          (localMemorySpan malloc handed.localMemorySize) host
      (orReject status, s, host)

/-- **A command without cached state.** -/
def perform (command : Command wz) (host : Memory) : Except PathFailure Unit × Memory :=
  match command with
  | .begin _ | .end | .noOp => (.ok (), host)
  | .map effect => (orReject (effect host).1, (effect host).2)
  | .collective => (.error (.rejected collectiveFailure), host)
  | .dispatch (.simulator file device simulate) ordinal args _ _ =>
    match simulatorPath wz limits (args host) with
    | .error failure => (.error failure, host)
    | .ok (handed, bindingWriteable) =>
      let (status, host) :=
        issueInline file device simulate handed.state (some bindingWriteable) ordinal 0 host
      (orReject status, host)
  | .dispatch (.host executable) ordinal args malloc processor =>
    match plainPath wz limits (executable.dispatchAttrs ordinal) (malloc.map fun _ => ()) (args host) with
    | .error failure => (.error failure, host)
    | .ok handed =>
      let (status, host) :=
        executable.issueDispatchInline ordinal handed.state processor.2
          (localMemorySpan malloc handed.localMemorySize) host
      (orReject status, host)

/-- Host memory, and the statuses that the commands have returned. -/
structure Performed where
  host : Memory
  statuses : List (Except Status Unit)

/-- The status of a command behind those before it; undefined behaviour ends the run. -/
def Performed.after (p : Performed) (outcome : Except PathFailure Unit) (host : Memory) :
    Option Performed :=
  match outcome with
  | .ok () => some ⟨host, p.statuses ++ [.ok ()]⟩
  | .error (.rejected failure) => some ⟨host, p.statuses ++ [.error failure]⟩
  | .error .undefined => none

/-- A command of a run without cached state. -/
def performStep (p : Performed) (command : Command wz) : Option Performed :=
  p.after (perform limits command p.host).1 (perform limits command p.host).2

/-- A command of a run of the command buffer. -/
def recordStep (s : CommandBufferState wz n × Performed) (command : Command wz) :
    Option (CommandBufferState wz n × Performed) :=
  let (outcome, s', host) := execute behind limits command s.1 s.2.host
  (s.2.after outcome host).map fun p => (s', p)

end Execute

/-! ### Creation -/

/-- The arguments of `iree_hal_coralnpu_command_buffer_initialize` that it looks at, and the
    `iree_hal_coralnpu_command_buffer_size` for them. -/
structure CommandBufferRequest where
  oneShot : Bool
  allowInlineExecution : Bool
  bindingCapacity : Nat
  storageLength : Nat
  size : Nat

/-- `iree_hal_coralnpu_command_buffer_initialize` -/
def initializeBuffer (wz n : Nat) (request : CommandBufferRequest) :
    Except Status (CommandBufferState wz n) := do
  if !(request.oneShot && request.allowInlineExecution) then
    throw ⟨.invalidArgument,
      "inline command buffers must have a mode with ALLOW_INLINE_EXECUTION"⟩
  if request.bindingCapacity > 0 then
    throw ⟨.invalidArgument, "indirect command buffers do not support binding tables"⟩
  if request.storageLength < request.size then
    throw ⟨.invalidArgument, "storage must have at least the capacity as "
      ++ "defined by iree_hal_inline_command_buffer_size"⟩
  return resetState wz n

/-- A command buffer that is created and recorded.  Gives host memory and the statuses, or nothing
    where the behaviour is undefined. -/
def createAndRecord (behind : UInt32 → UInt8 × UInt8) (limits : Limits)
    (request : CommandBufferRequest) (commands : List (Command wz)) (host : Memory) :
    Except Status (Option Performed) := do
  let s ← initializeBuffer wz limits.maxBindings request
  return (Lib.run (recordStep behind limits) commands (s, ⟨host, []⟩)).map Prod.snd

/-! ### What a dispatch leaves of the state before it -/

/-- The cached pointers that no command changes. -/
def CommandBufferState.Ready (s : CommandBufferState wz n) : Prop :=
  s.dispatchState.bindingPtrs = some () ∧ s.dispatchState.bindingLengths = some ()

/-- The storage begins with these values. -/
def Begins {α : Type} (storage : Vector α n) (values : List α) : Prop :=
  ∀ (i : Nat) (value : α), values[i]? = some value → storage[i]? = some value

theorem begins_nil {α : Type} (storage : Vector α n) : Begins storage [] := by
  intro i value h
  cases h

theorem Begins.concat {α : Type} {storage : Vector α n} {values : List α} (hs : Begins storage values)
    (value : α) (h : values.length < n) :
    Begins (storage.set values.length value h) (values ++ [value]) := by
  intro i value' hi
  rcases Nat.lt_trichotomy i values.length with hlt | rfl | hgt
  · rw [List.getElem?_append_left hlt] at hi
    rw [Vector.getElem?_set_ne h (by omega)]
    exact hs i value' hi
  · rw [List.getElem?_concat_length] at hi
    rw [Vector.getElem?_set_self h]
    exact hi
  · rw [List.getElem?_append_right (by omega), List.getElem?_eq_none (by simp; omega)] at hi
    cases hi

theorem Begins.take {α : Type} {storage : Vector α n} {values : List α} (hs : Begins storage values)
    {k : Nat} (hk : k ≤ values.length) : storage.toList.take k = values.take k := by
  refine List.ext_getElem? fun i => ?_
  by_cases hi : i < k
  · have hvalue := List.getElem?_eq_getElem (Nat.lt_of_lt_of_le hi hk)
    rw [List.getElem?_take_of_lt hi, List.getElem?_take_of_lt hi, Vector.getElem?_toList,
      hs i _ hvalue, hvalue]
  · rw [List.getElem?_eq_none (by rw [List.length_take]; omega),
      List.getElem?_eq_none (by rw [List.length_take]; omega)]

/-- The storage begins with these bindings. -/
def CommandBufferState.Stores (s : CommandBufferState wz n) (ranges : List HostRange) : Prop :=
  Begins s.bindingPtrStorage (ranges.map Prod.fst) ∧ Begins s.bindingLengthStorage (ranges.map Prod.snd)

/-- Where there is room, a binding is stored behind the others. -/
theorem exists_storeBinding {s : CommandBufferState wz n} {ranges : List HostRange}
    (hs : s.Stores ranges) (range : HostRange) (h : ranges.length < n) :
    ∃ s', storeBinding ranges.length range s = (.ok (), s') ∧ s'.Stores (ranges ++ [range]) ∧
      s'.dispatchState = s.dispatchState ∧ s'.processorId = s.processorId := by
  have hlength : (ranges.map Prod.fst).length = ranges.length := List.length_map _
  have hlength' : (ranges.map Prod.snd).length = ranges.length := List.length_map _
  have hptrs := hs.1.concat range.1 (hlength ▸ h)
  have hlengths := hs.2.concat range.2 (hlength' ▸ h)
  simp only [hlength] at hptrs
  simp only [hlength'] at hlengths
  refine ⟨{ s with
    bindingPtrStorage := s.bindingPtrStorage.set ranges.length range.1 h
    bindingLengthStorage := s.bindingLengthStorage.set ranges.length range.2 h },
    by rw [storeBinding, dif_pos h]; rfl, ⟨?_, ?_⟩, rfl, rfl⟩
  · rw [List.map_append]
    exact hptrs
  · rw [List.map_append]
    exact hlengths

/-- **The loop over the bindings** stores what `mapRanges` maps, whatever the storage held. -/
theorem mapIntoStorage_computes {onNull : Nat → PathFailure}
    {ds : DispatchState (List UInt32) Unit Unit wz} {processorId : UInt32}
    {I : CommandBufferState wz n → Prop} (hI : ∀ s, s.dispatchState = ds → I s)
    (bindings : List (Option MappableBuffer)) :
    ∀ ranges : List HostRange, Computes
      (fun s : CommandBufferState wz n =>
        s.dispatchState = ds ∧ s.processorId = processorId ∧ s.Stores ranges)
      (mapIntoStorage onNull ranges.length bindings) (mapRanges n onNull ranges.length bindings) I
      (fun mapped bindingWriteable s => s.dispatchState = ds ∧ s.processorId = processorId ∧
        s.Stores (ranges ++ mapped.map Prod.fst) ∧ mapped.length = bindings.length ∧
        bindingWriteable = mapped.map Prod.snd) := by
  induction bindings with
  | nil =>
    intro ranges
    refine computes_pure fun s ⟨hds, hid, hs⟩ => ⟨hds, hid, ?_, rfl, rfl⟩
    rwa [List.map_nil, List.append_nil]
  | cons binding bindings ih =>
    intro ranges
    rcases binding with _ | buffer
    · exact computes_throw fun s hs => hI s hs.1
    rw [mapRanges_cons]
    refine computes_bind (computes_lift fun s hs => hI s hs.1) fun range range' => ?_
    by_cases hroom : ranges.length < n
    · rw [if_neg (Nat.not_le.mpr hroom)]
      refine computes_step (R := fun s => s.dispatchState = ds ∧ s.processorId = processorId ∧
        s.Stores (ranges ++ [range])) ?_ ?_
      · have hrest := ih (ranges ++ [range])
        rw [List.length_append, List.length_singleton] at hrest
        refine computes_bind hrest fun mapped bindingWriteable => ?_
        refine computes_pure fun s ⟨hds, hid, hs, hlength, hwriteable⟩ => ⟨hds, hid, ?_, ?_, ?_⟩
        · rwa [List.append_assoc] at hs
        · rw [List.length_cons, List.length_cons, hlength]
        · rw [hwriteable, List.map_cons]
      · rintro s ⟨rfl, rfl, rfl, hs⟩
        obtain ⟨s', hstore, hs', hds, hid⟩ := exists_storeBinding hs range' hroom
        exact ⟨s', hstore, hds, hid, hs'⟩
    · rw [if_pos (Nat.le_of_not_lt hroom), storeBinding, dif_neg hroom]
      intro s hs
      exact ⟨s, rfl, hI s hs.2.1⟩

/-- The cached dispatch state of a request. -/
def DispatchArguments.cached (wz : Nat) (args : DispatchArguments) (counts : UInt32 × UInt32 × UInt32)
    (constantCount : UInt16) : DispatchState (List UInt32) Unit Unit wz where
  workgroupSizeX := requestedSize args.workgroupSizeX
  workgroupSizeY := requestedSize args.workgroupSizeY
  workgroupSizeZ := BitVec.ofNat wz (requestedSize args.workgroupSizeZ).toNat
  constantCount := constantCount
  workgroupCountX := counts.1
  workgroupCountY := counts.2.1
  workgroupCountZ := counts.2.2.toUInt16
  maxConcurrency := 1
  bindingCount := UInt8.ofNat args.bindings.length
  constants := some (wordsOf args.constants)
  bindingPtrs := some ()
  bindingLengths := some ()

/-- The stores `f` that are left make `target` of the dispatch state. -/
def Pending (f : DispatchState (List UInt32) Unit Unit wz → DispatchState (List UInt32) Unit Unit wz)
    (target : DispatchState (List UInt32) Unit Unit wz) (processorId : UInt32)
    (s : CommandBufferState wz n) : Prop :=
  s.processorId = processorId ∧ f s.dispatchState = target

theorem Pending.ready
    {f : DispatchState (List UInt32) Unit Unit wz → DispatchState (List UInt32) Unit Unit wz}
    {args : DispatchArguments} {counts : UInt32 × UInt32 × UInt32} {constantCount : UInt16}
    {processorId : UInt32} {s : CommandBufferState wz n}
    (h : Pending f (args.cached wz counts constantCount) processorId s)
    (hf : ∀ ds, (f ds).bindingPtrs = ds.bindingPtrs ∧ (f ds).bindingLengths = ds.bindingLengths) :
    s.Ready :=
  ⟨(hf _).1.symm.trans (congrArg (·.bindingPtrs) h.2),
    (hf _).2.symm.trans (congrArg (·.bindingLengths) h.2)⟩

/-- The stores behind the workgroup count. -/
def DispatchArguments.storesLeft (args : DispatchArguments) (constantCount : UInt16) :
    DispatchState (List UInt32) Unit Unit wz → DispatchState (List UInt32) Unit Unit wz :=
  args.setBindingCount ∘ args.setConstants constantCount ∘ setMaxConcurrency

/-- The workgroup size and the processor are set. -/
structure CommandBufferState.Sized (args : DispatchArguments) (processorId : UInt32)
    (s : CommandBufferState wz n) : Prop where
  ready : s.Ready
  processorId : s.processorId = processorId
  workgroupSizeX : s.dispatchState.workgroupSizeX = requestedSize args.workgroupSizeX
  workgroupSizeY : s.dispatchState.workgroupSizeY = requestedSize args.workgroupSizeY
  workgroupSizeZ : s.dispatchState.workgroupSizeZ
    = BitVec.ofNat wz (requestedSize args.workgroupSizeZ).toNat

/-- **The workgroup count**: what the copy leaves behind it is stored over later. -/
theorem setWorkgroupCount_computes (behind : UInt32 → UInt8 × UInt8) (args : DispatchArguments)
    (processorId : UInt32) (constantCount : UInt16) :
    Computes (fun s : CommandBufferState wz n => s.Sized args processorId)
      (setWorkgroupCount behind args) (orReject args.workgroupCount.get) CommandBufferState.Ready
      (fun counts _ => Pending (args.storesLeft constantCount) (args.cached wz counts constantCount)
        processorId) := by
  have hleft : ∀ s : CommandBufferState wz n, s.Sized args processorId →
      ∀ (x y z : UInt32) (maxConcurrency bindingCount : UInt8),
        args.storesLeft constantCount
          { s.dispatchState with
            workgroupCountX := x, workgroupCountY := y, workgroupCountZ := z.toUInt16
            maxConcurrency := maxConcurrency, bindingCount := bindingCount }
          = args.cached wz (x, y, z) constantCount := by
    rintro s ⟨⟨hptrs, hlengths⟩, -, hx, hy, hz⟩ x y z maxConcurrency bindingCount
    simp only [DispatchArguments.storesLeft, DispatchArguments.setBindingCount,
      DispatchArguments.setConstants, setMaxConcurrency, DispatchArguments.cached, Function.comp_apply,
      hptrs, hlengths, hx, hy, hz]
  rw [setWorkgroupCount]
  cases args.workgroupCount with
  | direct x y z =>
    intro s hs
    exact ⟨_, _, rfl, hs.processorId, hleft s hs x y z _ _⟩
  | indirect parameters =>
    intro s hs
    cases parameters with
    | error failure => exact ⟨s, rfl, hs.ready⟩
    | ok counts =>
      obtain ⟨x, y, z⟩ := counts
      exact ⟨_, _, rfl, hs.processorId, hleft s hs x y z _ _⟩

/-- **What the executor sees** is the dispatch state of the request, as far as it is announced. -/
theorem visible_announced {args : DispatchArguments} {x y z : UInt32} {constantCount : UInt16}
    {mapped : List (HostRange × Bool)} {s : CommandBufferState wz n}
    (hds : s.dispatchState = args.cached wz (x, y, z) constantCount)
    (hstores : s.Stores (mapped.map Prod.fst)) (hlength : mapped.length = args.bindings.length) :
    s.visible.announced = (args.fill wz x y z constantCount mapped).announced := by
  have hcount : (UInt8.ofNat args.bindings.length).toNat ≤ mapped.length := by
    rw [UInt8.toNat_ofNat', hlength]
    exact Nat.mod_le _ _
  obtain ⟨hptrs, hlengths⟩ := hstores
  rw [List.map_map] at hptrs hlengths
  have hptrs := hptrs.take (k := (UInt8.ofNat args.bindings.length).toNat) (by rwa [List.length_map])
  have hlengths := hlengths.take (k := (UInt8.ofNat args.bindings.length).toNat)
    (by rwa [List.length_map])
  simp only [InlineDispatchState.announced, CommandBufferState.visible, hds,
    DispatchArguments.cached, DispatchArguments.fill, Option.map_some, hptrs, hlengths]
  rfl

theorem initializeBuffer_ready {request : CommandBufferRequest} {s : CommandBufferState wz n}
    (h : initializeBuffer wz n request = .ok s) : s.Ready := by
  simp only [initializeBuffer] at h
  split at h
  · cases h
  split at h
  · cases h
  split at h
  · cases h
  obtain rfl := Except.ok.inj h
  exact ⟨rfl, rfl⟩

theorem ready_of_cached {args : DispatchArguments} {counts : UInt32 × UInt32 × UInt32}
    {constantCount : UInt16} {s : CommandBufferState wz n}
    (h : s.dispatchState = args.cached wz counts constantCount) : s.Ready := by
  rw [CommandBufferState.Ready, h]
  exact ⟨rfl, rfl⟩

section Branches

variable (behind : UInt32 → UInt8 × UInt8) (limits : Limits) (args : DispatchArguments)
  (processor : UInt32 × UInt32)

/-- **The simulator branch** hands over what it hands over without cached state. -/
theorem dispatchSimulator_computes :
    Computes (fun s : CommandBufferState wz limits.maxBindings => s.Ready)
      (dispatchSimulator behind args processor) (simulatorPath wz limits args)
      CommandBufferState.Ready
      (fun handed recorded s => s.Ready ∧ recorded.1.state.announced = handed.1.state.announced ∧
        recorded.1.localMemorySize = handed.1.localMemorySize ∧ recorded.2 = handed.2) := by
  refine computes_bind (computes_lift fun s hs => hs) fun _ _ => ?_
  refine computes_modify (R := fun s => s.Ready ∧ s.processorId = processor.2) ?_
    fun s hs => ⟨hs.2, rfl⟩
  refine computes_modify (R := CommandBufferState.Sized args processor.2) ?_
    fun s hs => ⟨hs.1, hs.2, rfl, rfl, rfl⟩
  refine computes_bind (setWorkgroupCount_computes behind args processor.2
    (UInt16.ofNat (args.constants.length / 4))) fun counts _ => ?_
  obtain ⟨x, y, z⟩ := counts
  refine computes_modify (R := Pending
    (args.setBindingCount ∘ args.setConstants (UInt16.ofNat (args.constants.length / 4)))
    (args.cached wz (x, y, z) (UInt16.ofNat (args.constants.length / 4))) processor.2) ?_ fun s hs => hs
  refine computes_guard (fun _ s hs => hs.ready fun _ => ⟨rfl, rfl⟩) fun _ => ?_
  refine computes_modify (R := Pending args.setBindingCount
    (args.cached wz (x, y, z) (UInt16.ofNat (args.constants.length / 4))) processor.2) ?_ fun s hs => hs
  refine computes_modify (R := fun s =>
    s.dispatchState = args.cached wz (x, y, z) (UInt16.ofNat (args.constants.length / 4)) ∧
      s.processorId = processor.2 ∧ s.Stores []) ?_ fun s hs => ⟨hs.2, hs.1, begins_nil _, begins_nil _⟩
  refine computes_bind (mapIntoStorage_computes (fun s => ready_of_cached) args.bindings [])
    fun mapped _ => ?_
  refine computes_get fun s ⟨hds, _, hstores, hlength, hwriteable⟩ => ?_
  refine computes_pure ?_
  rintro s rfl
  exact ⟨ready_of_cached hds, visible_announced hds hstores hlength, rfl, hwriteable⟩

/-- **The host branch** hands over what it hands over without cached state, and the processor that the
    query left. -/
theorem dispatchHost_computes (attrs : DispatchAttrs) (malloc : Except Status Unit) :
    Computes (fun s : CommandBufferState wz limits.maxBindings => s.Ready)
      (dispatchHost behind limits attrs malloc args processor) (plainPath wz limits attrs malloc args)
      CommandBufferState.Ready
      (fun handed recorded s => s.Ready ∧ recorded.1.state.announced = handed.state.announced ∧
        recorded.1.localMemorySize = handed.localMemorySize ∧ recorded.2 = processor.2) := by
  refine computes_bind (computes_lift fun s hs => hs) fun _ _ => ?_
  refine computes_modify (R := fun s => s.Ready ∧ s.processorId = processor.2) ?_
    fun s hs => ⟨hs.2, rfl⟩
  refine computes_modify (R := CommandBufferState.Sized args processor.2) ?_
    fun s hs => ⟨hs.1, hs.2, rfl, rfl, rfl⟩
  refine computes_bind (setWorkgroupCount_computes behind args processor.2
    (UInt16.ofNat attrs.constantCount)) fun counts _ => ?_
  obtain ⟨x, y, z⟩ := counts
  refine computes_modify (R := Pending
    (args.setBindingCount ∘ args.setConstants (UInt16.ofNat attrs.constantCount))
    (args.cached wz (x, y, z) (UInt16.ofNat attrs.constantCount)) processor.2) ?_ fun s hs => hs
  refine computes_guard (fun _ s hs => hs.ready fun _ => ⟨rfl, rfl⟩) fun _ => ?_
  refine computes_guard (fun _ s hs => hs.ready fun _ => ⟨rfl, rfl⟩) fun _ => ?_
  refine computes_modify (R := Pending args.setBindingCount
    (args.cached wz (x, y, z) (UInt16.ofNat attrs.constantCount)) processor.2) ?_ fun s hs => hs
  refine computes_guard (fun _ s hs => hs.ready fun _ => ⟨rfl, rfl⟩) fun _ => ?_
  refine computes_modify (R := fun s =>
    s.dispatchState = args.cached wz (x, y, z) (UInt16.ofNat attrs.constantCount) ∧
      s.processorId = processor.2 ∧ s.Stores []) ?_ fun s hs => ⟨hs.2, hs.1, begins_nil _, begins_nil _⟩
  refine computes_bind (mapIntoStorage_computes (fun s => ready_of_cached) args.bindings [])
    fun mapped _ => ?_
  refine computes_when (fun s hs => ready_of_cached hs.1) (fun _ => ?_) ?_ <;>
  · refine computes_get fun s ⟨hds, hid, hstores, hlength, _⟩ => ?_
    refine computes_pure ?_
    rintro s rfl
    exact ⟨ready_of_cached hds, visible_announced hds hstores hlength, rfl, hid⟩

end Branches

/-! ### Runs -/

section Runs

variable (behind : UInt32 → UInt8 × UInt8) (limits : Limits)

/-- **One command**: the outcome and host memory do not depend on the cached state. -/
theorem execute_eq_perform {command : Command wz} (hreads : command.ReadsAnnounced)
    {s : CommandBufferState wz limits.maxBindings} (hs : s.Ready) (host : Memory) : ∃ s', s'.Ready ∧
      execute behind limits command s host
        = ((perform limits command host).1, s', (perform limits command host).2) := by
  cases command with
  | begin processor => exact ⟨_, ⟨rfl, rfl⟩, rfl⟩
  | «end» => exact ⟨_, ⟨rfl, rfl⟩, rfl⟩
  | noOp => exact ⟨s, hs, rfl⟩
  | map effect => exact ⟨s, hs, rfl⟩
  | collective => exact ⟨s, hs, rfl⟩
  | dispatch executable ordinal args malloc processor =>
    cases executable with
    | simulator file device simulate =>
      have hbranch := dispatchSimulator_computes behind limits (args host) processor s hs
      simp only [execute, perform]
      cases hpath : simulatorPath wz limits (args host) with
      | error failure =>
        rw [hpath] at hbranch
        obtain ⟨s', hrecorded, hs'⟩ := hbranch
        exact ⟨s', hs', by rw [hrecorded]⟩
      | ok handed =>
        rw [hpath] at hbranch
        obtain ⟨recorded, s', hrecorded, hs', hannounced, -, hwriteable⟩ := hbranch
        refine ⟨s', hs', ?_⟩
        rw [hrecorded]
        show (orReject (issueInline file device simulate recorded.1.state (some recorded.2) ordinal 0
          host).1, s', (issueInline file device simulate recorded.1.state (some recorded.2) ordinal 0
          host).2) = _
        rw [← issueInline_announced, hannounced, issueInline_announced, hwriteable]
    | host executable =>
      have hbranch := dispatchHost_computes behind limits (args host) processor
        (executable.dispatchAttrs ordinal) (malloc.map fun _ => ()) s hs
      have hkernels : executable.ReadsAnnounced := hreads
      simp only [execute, perform]
      cases hpath : plainPath wz limits (executable.dispatchAttrs ordinal) (malloc.map fun _ => ())
        (args host) with
      | error failure =>
        rw [hpath] at hbranch
        obtain ⟨s', hrecorded, hs'⟩ := hbranch
        exact ⟨s', hs', by rw [hrecorded]⟩
      | ok handed =>
        rw [hpath] at hbranch
        obtain ⟨recorded, s', hrecorded, hs', hannounced, hsize, hid⟩ := hbranch
        refine ⟨s', hs', ?_⟩
        rw [hrecorded]
        simp only
        rw [← hkernels.issueDispatchInline, hannounced, hkernels.issueDispatchInline, hsize, hid]

/-- **One step** of the command buffer is one step without cached state. -/
theorem recordStep_eq {s : CommandBufferState wz limits.maxBindings × Performed} (hs : s.1.Ready)
    {command : Command wz} (hreads : command.ReadsAnnounced) :
    (recordStep behind limits s command).map Prod.snd = performStep limits s.2 command ∧
      ∀ s', recordStep behind limits s command = some s' → s'.1.Ready := by
  obtain ⟨s₁, hs₁, hexecute⟩ := execute_eq_perform behind limits hreads hs s.2.host
  rw [recordStep, hexecute, performStep]
  simp only
  cases s.2.after (perform limits command s.2.host).1 (perform limits command s.2.host).2 with
  | none => exact ⟨rfl, fun s' h => by cases h⟩
  | some p =>
    refine ⟨rfl, fun s' h => ?_⟩
    obtain rfl := Option.some.inj h
    exact hs₁

/-- **A command buffer does what its commands do.**  Created with any request and recorded with any
    commands, in any order and however many of them fail, it leaves host memory and returns statuses as
    the commands do one after the other, with no state between them but host memory. -/
theorem createAndRecord_eq (request : CommandBufferRequest) {commands : List (Command wz)}
    (hreads : ∀ command ∈ commands, command.ReadsAnnounced) (host : Memory) :
    createAndRecord behind limits request commands host
      = (initializeBuffer wz limits.maxBindings request).map fun _ =>
          Lib.run (performStep limits) commands ⟨host, []⟩ := by
  rw [createAndRecord]
  cases hinit : initializeBuffer wz limits.maxBindings request with
  | error failure => rfl
  | ok s =>
    have hs : s.Ready := initializeBuffer_ready hinit
    refine congrArg Except.ok ?_
    exact run_map (f := Prod.snd)
      (I := fun s : CommandBufferState wz limits.maxBindings × Performed => s.1.Ready)
      (fun _ _ hs hreads => (recordStep_eq behind limits hs hreads).1)
      (fun _ _ s' hs hreads => (recordStep_eq behind limits hs hreads).2 s') commands hreads hs

end Runs

/-! ### A dispatch behind one that fails -/

/-- Executables with one or two bindings, by the ordinal.  The kernel counts up the byte of its workgroup
    in each binding. -/
def counting : HostExecutable 16 where
  dispatchAttrs ordinal := ⟨0, 0, ordinal.toNat⟩
  issueCall _ state workgroup _ host :=
    (.ok (), state.ranges.foldl (fun m range => match range.1 with
      | some a => writeMem m (a + workgroup.workgroupIdX.toNat) [m (a + workgroup.workgroupIdX.toNat) + 1]
      | none => m) host)

theorem counting_readsAnnounced : counting.ReadsAnnounced := by
  intro ordinal state workgroup worker host
  simp only [counting, ranges_announced]

/-- A dispatch of two workgroups with bindings at these addresses. -/
def countAt (addresses : List Nat) (constants : List UInt8) (processor : UInt32 × UInt32) : Command 16 :=
  .dispatch (.host counting) (UInt64.ofNat addresses.length)
    (fun _ =>
      { usesCustomArguments := false, workgroupSizeX := 1, workgroupSizeY := 1, workgroupSizeZ := 1
        workgroupCount := .direct 2 1 1, dynamicWorkgroupLocalMemory := 0, constants
        bindings := addresses.map fun a => some ⟨.ok (some a, 4), true⟩ })
    (.ok 0x8000) processor

/-- Two bindings, a dispatch that fails, and one binding: its kernel does not see the second any more. -/
theorem createAndRecord_counting :
    ∃ p, createAndRecord (fun _ => (0, 0)) ⟨4, 4096, 64⟩ ⟨true, true, 0, 0, 0⟩
        [.begin (0, 0), countAt [0x1000, 0x2000] [] (1, 1), countAt [0x1000] [7] (2, 2),
          countAt [0x1000] [] (3, 3), .end] (fun _ => 0) = .ok (some p) ∧
      p.statuses = [.ok (), .ok (),
        .error ⟨.failedPrecondition, "constants must be 4-byte aligned"⟩, .ok (), .ok ()] ∧
      p.host 0x1001 = 2 ∧ p.host 0x2001 = 1 := by
  have hreads : ∀ addresses constants processor,
      (countAt addresses constants processor).ReadsAnnounced := fun _ _ _ => counting_readsAnnounced
  rw [createAndRecord_eq (fun _ => (0, 0)) ⟨4, 4096, 64⟩ ⟨true, true, 0, 0, 0⟩ ?_ (fun _ => 0)]
  · exact ⟨_, rfl, rfl, by decide, by decide⟩
  · simp only [List.forall_mem_cons]
    exact ⟨trivial, hreads _ _ _, hreads _ _ _, hreads _ _ _, trivial, List.forall_mem_nil _⟩

end CoralNPU.Sim
