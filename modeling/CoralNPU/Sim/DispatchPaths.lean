import Mathlib.Data.List.ReduceOption
import CoralNPU.Sim.CommandBuffer
import CoralNPU.Sim.Inline

namespace CoralNPU.Sim

open Lib

/-!
# The two dispatch paths of the command buffer

`iree_hal_coralnpu_command_buffer_dispatch` fills the dispatch state twice: once for the
simulator, and once for an executable that the host calls itself.

* `DispatchArguments`, `DispatchAttrs`, `Limits` — what the two branches read: the request, the
  attributes of the export, and the constants of the runtime's headers.
* `mapRanges` — the loop over the bindings of both branches.  They differ in what a binding
  without a buffer does.
* `simulatorPath`, `plainPath` — the two branches, up to the call of the executor.
* `buildDispatchState_command` — what the simulator path hands over is the dispatch state of
  `buildDispatchState`, with the bindings in host memory.
* `pathsAgree_iff` — the requests on which the branches agree.
-/

variable {wz : Nat}

/-! ### Requests -/

/-- The buffer of a binding, by what mapping it gives: the mapped range, and whether the buffer
    allows writes. -/
structure MappableBuffer where
  map : Except Status HostRange
  writeable : Bool

/-- The arguments of `iree_hal_coralnpu_command_buffer_dispatch`; a binding may have no buffer. -/
structure DispatchArguments where
  usesCustomArguments : Bool
  workgroupSizeX : UInt32
  workgroupSizeY : UInt32
  workgroupSizeZ : UInt32
  workgroupCount : WorkgroupCount
  dynamicWorkgroupLocalMemory : Nat
  constants : List UInt8
  bindings : List (Option MappableBuffer)

/-- `iree_hal_executable_dispatch_attrs_v0_t` -/
structure DispatchAttrs where
  localMemoryPages : Nat
  constantCount : Nat
  bindingCount : Nat

/-- What the branches take from the headers of the runtime: the bindings that there is storage
    for, `IREE_HAL_EXECUTABLE_WORKGROUP_LOCAL_MEMORY_PAGE_SIZE`, and the width of the type in
    which the size of the local memory is computed. -/
structure Limits where
  maxBindings : Nat
  pageSize : Nat
  localMemoryWidth : Nat

/-- How a path ends before its executor is called: with a status, or with undefined behaviour. -/
inductive PathFailure
  | rejected (failure : Status)
  | undefined

/-- What a path hands to its executor. -/
structure Handed (wz : Nat) where
  state : InlineDispatchState wz
  localMemorySize : Nat

/-- A status as the result of the command. -/
def orReject {α : Type} : Except Status α → Except PathFailure α
  | .ok a => .ok a
  | .error failure => .error (.rejected failure)

/-! ### The two branches -/

/-- The loop that maps the bindings into storage for `maxBindings` of them, from binding `i`
    on. -/
def mapRanges (maxBindings : Nat) (onNull : Nat → PathFailure) :
    Nat → List (Option MappableBuffer) → Except PathFailure (List (HostRange × Bool))
  | _, [] => .ok []
  | i, none :: _ => .error (onNull i)
  | i, some buffer :: bindings => do
    let range ← orReject buffer.map
    if i ≥ maxBindings then
      throw .undefined
    let rest ← mapRanges maxBindings onNull (i + 1) bindings
    return (range, buffer.writeable) :: rest

/-- The dispatch state of a request. -/
def DispatchArguments.fill (wz : Nat) (args : DispatchArguments) (x y z : UInt32)
    (constantCount : UInt16) (mapped : List (HostRange × Bool)) : InlineDispatchState wz where
  workgroupSizeX := requestedSize args.workgroupSizeX
  workgroupSizeY := requestedSize args.workgroupSizeY
  workgroupSizeZ := BitVec.ofNat wz (requestedSize args.workgroupSizeZ).toNat
  constantCount := constantCount
  workgroupCountX := x
  workgroupCountY := y
  workgroupCountZ := z.toUInt16
  maxConcurrency := 1
  bindingCount := UInt8.ofNat args.bindings.length
  constants := some (wordsOf args.constants)
  bindingPtrs := some (mapped.map fun b => b.1.1)
  bindingLengths := some (mapped.map fun b => b.1.2)

/-- The check that both branches share. -/
def rejectCustomArguments (args : DispatchArguments) : Except PathFailure Unit :=
  if args.usesCustomArguments then
    throw (.rejected ⟨.unimplemented,
      "direct/indirect arguments are not supported on the inline CPU command buffer"⟩)
  else
    .ok ()

/-- The branch for a simulator executable.  Hands `binding_writeable` over as well. -/
def simulatorPath (wz : Nat) (limits : Limits) (args : DispatchArguments) :
    Except PathFailure (Handed wz × List Bool) := do
  rejectCustomArguments args
  let (x, y, z) ← orReject args.workgroupCount.get
  if args.constants.length % 4 ≠ 0 then
    throw (.rejected ⟨.failedPrecondition, "constants must be 4-byte aligned"⟩)
  -- the buffer of a binding is not tested here: both calls on it read through the null pointer
  let mapped ← mapRanges limits.maxBindings (fun _ => .undefined) 0 args.bindings
  let state := args.fill wz x y z (UInt16.ofNat (args.constants.length / 4)) mapped
  -- `iree_byte_span_empty()`
  return (⟨state, 0⟩, mapped.map Prod.snd)

/-- `local_memory_size` -/
def localMemorySize (limits : Limits) (attrs : DispatchAttrs) (args : DispatchArguments) : Nat :=
  (attrs.localMemoryPages * limits.pageSize + args.dynamicWorkgroupLocalMemory)
    % 2 ^ limits.localMemoryWidth

/-- A binding without a buffer, on the plain path. -/
def requiredBinding (i : Nat) : PathFailure :=
  .rejected ⟨.failedPrecondition,
    s!"required binding {i} is NULL; all bindings must have a valid pointer"⟩

/-- The branch for an executable that the host calls itself.  `malloc` is the outcome of the
    allocation of the local memory. -/
def plainPath (wz : Nat) (limits : Limits) (attrs : DispatchAttrs) (malloc : Except Status Unit)
    (args : DispatchArguments) : Except PathFailure (Handed wz) := do
  rejectCustomArguments args
  let (x, y, z) ← orReject args.workgroupCount.get
  if args.constants.length % 4 ≠ 0 then
    throw (.rejected ⟨.failedPrecondition, "constants must be 4-byte aligned"⟩)
  if args.constants.length ≠ attrs.constantCount * 4 then
    let expected := UInt32.ofNat attrs.constantCount
    let provided := args.constants.length / 4
    throw (.rejected ⟨.invalidArgument,
      s!"constant count mismatch, expected {expected} but was provided {provided}"⟩)
  if args.bindings.length ≠ attrs.bindingCount then
    let expected := UInt32.ofNat attrs.bindingCount
    let provided := args.bindings.length
    throw (.rejected ⟨.invalidArgument,
      s!"binding count mismatch, expected {expected} but was provided {provided}"⟩)
  let mapped ← mapRanges limits.maxBindings requiredBinding 0 args.bindings
  if localMemorySize limits attrs args > 0 then
    orReject malloc
  let state := args.fill wz x y z (UInt16.ofNat attrs.constantCount) mapped
  return ⟨state, localMemorySize limits attrs args⟩

/-! ### Agreement -/

/-- The path rejects the request with a status. -/
def Rejects {α : Type} (path : Except PathFailure α) : Prop :=
  ∃ failure, path = .error (.rejected failure)

/-- **Agreement of the two paths**: both reject the request, or both hand over the same dispatch
    state and local memory of the same size. -/
def PathsAgree (simulator : Except PathFailure (Handed wz × List Bool))
    (plain : Except PathFailure (Handed wz)) : Prop :=
  (Rejects simulator ∧ Rejects plain) ∨
    ∃ handed bindingWriteable, simulator = .ok (handed, bindingWriteable) ∧ plain = .ok handed

/-- The binding has a buffer that maps to this range. -/
def MapsTo (binding : Option MappableBuffer) (mapped : HostRange × Bool) : Prop :=
  ∃ buffer, binding = some buffer ∧ buffer.map = .ok mapped.1 ∧ buffer.writeable = mapped.2

/-- Mapping the bindings one after the other fails at a buffer, and the bindings before it are
    mapped and stored. -/
def MapFails (room : Nat) (bindings : List (Option MappableBuffer)) : Prop :=
  ∃ before buffer rest failure, bindings = before ++ some buffer :: rest ∧ before.length ≤ room ∧
    (∀ b ∈ before, ∃ mapped, MapsTo b mapped) ∧ buffer.map = .error failure

/-- What both branches check. -/
def DispatchArguments.RejectedByBoth (limits : Limits) (args : DispatchArguments) : Prop :=
  args.usesCustomArguments = true ∨ (∃ failure, args.workgroupCount.get = .error failure) ∨
    args.constants.length % 4 ≠ 0 ∨ MapFails limits.maxBindings args.bindings

/-- What only the plain branch checks, and what the simulator branch leaves out: the request fits
    the export, and no local memory is asked for. -/
structure DispatchArguments.Conforms (limits : Limits) (attrs : DispatchAttrs)
    (args : DispatchArguments) : Prop where
  mapped : ∀ b ∈ args.bindings, ∃ mapped, MapsTo b mapped
  storage : args.bindings.length ≤ limits.maxBindings
  constants : args.constants.length = attrs.constantCount * 4
  bindings : args.bindings.length = attrs.bindingCount
  localMemory : localMemorySize limits attrs args = 0

/-! ### The loop over the bindings -/

theorem orReject_eq_ok {α : Type} {x : Except Status α} {a : α} :
    orReject x = .ok a ↔ x = .ok a := by
  cases x <;> simp [orReject]

theorem orReject_eq_rejected {α : Type} {x : Except Status α} {failure : Status} :
    orReject x = .error (.rejected failure) ↔ x = .error failure := by
  cases x <;> simp [orReject]

section Loop

variable {maxBindings : Nat} {onNull : Nat → PathFailure}

/-- One turn of the loop at a binding with a buffer. -/
theorem mapRanges_cons (i : Nat) (buffer : MappableBuffer)
    (bindings : List (Option MappableBuffer)) :
    mapRanges maxBindings onNull i (some buffer :: bindings)
      = orReject buffer.map >>= fun range =>
          if i ≥ maxBindings then .error .undefined
          else mapRanges maxBindings onNull (i + 1) bindings >>= fun rest =>
            .ok ((range, buffer.writeable) :: rest) := rfl

/-- **The loop succeeds** on bindings that all have a buffer that maps, and that there is storage
    for, whatever it does without a buffer. -/
theorem mapRanges_eq_ok {bindings : List (Option MappableBuffer)} :
    ∀ {i : Nat} {mapped : List (HostRange × Bool)}, i ≤ maxBindings →
      (mapRanges maxBindings onNull i bindings = .ok mapped ↔
        i + bindings.length ≤ maxBindings ∧ List.Forall₂ MapsTo bindings mapped) := by
  induction bindings with
  | nil =>
    intro i mapped hi
    constructor
    · intro h
      obtain rfl := Except.ok.inj h
      exact ⟨hi, .nil⟩
    · rintro ⟨-, hnil⟩
      obtain rfl := List.forall₂_nil_left_iff.mp hnil
      rfl
  | cons binding bindings ih =>
    intro i mapped hi
    rcases binding with _ | buffer
    · constructor
      · intro h
        cases h
      · rintro ⟨-, hmaps⟩
        obtain ⟨_, _, ⟨_, hnone, -⟩, -⟩ := List.forall₂_cons_left_iff.mp hmaps
        cases hnone
    rw [mapRanges_cons, List.length_cons]
    constructor
    · intro h
      obtain ⟨range, hrange, h⟩ := bind_eq_ok.mp h
      split at h
      · cases h
      next hroom =>
      obtain ⟨rest, hrest, h⟩ := bind_eq_ok.mp h
      obtain rfl := Except.ok.inj h
      obtain ⟨hlength, hmaps⟩ := (ih (by omega)).mp hrest
      exact ⟨by omega, .cons ⟨buffer, rfl, orReject_eq_ok.mp hrange, rfl⟩ hmaps⟩
    · rintro ⟨hlength, hmaps⟩
      obtain ⟨m, rest, ⟨_, ⟨rfl⟩, hmap, hwriteable⟩, hrest, rfl⟩ :=
        List.forall₂_cons_left_iff.mp hmaps
      rw [orReject_eq_ok.mpr hmap, ok_bind, if_neg (by omega),
        (ih (by omega)).mpr ⟨by omega, hrest⟩, ok_bind, hwriteable]

/-- The loop rejects bindings of which one fails to map. -/
theorem mapRanges_rejects {before rest : List (Option MappableBuffer)} {buffer : MappableBuffer}
    {failure : Status} (hfails : buffer.map = .error failure) :
    ∀ {i : Nat}, i + before.length ≤ maxBindings → (∀ b ∈ before, ∃ mapped, MapsTo b mapped) →
      mapRanges maxBindings onNull i (before ++ some buffer :: rest)
        = .error (.rejected failure) := by
  induction before with
  | nil =>
    intro i _ _
    rw [List.nil_append, mapRanges_cons, orReject_eq_rejected.mpr hfails, error_bind]
  | cons b before ih =>
    intro i hroom hmaps
    rw [List.length_cons] at hroom
    obtain ⟨mapped, buffer', rfl, hmap, -⟩ := hmaps b List.mem_cons_self
    rw [List.cons_append, mapRanges_cons, orReject_eq_ok.mpr hmap, ok_bind, if_neg (by omega),
      ih (by omega) fun b hb => hmaps b (List.mem_cons_of_mem _ hb), error_bind]

/-- Where a binding without a buffer is undefined behaviour, the loop rejects nothing else. -/
theorem mapFails_of_rejects {failure : Status} {bindings : List (Option MappableBuffer)} :
    ∀ {i : Nat}, mapRanges maxBindings (fun _ => .undefined) i bindings
        = .error (.rejected failure) →
      i ≤ maxBindings → MapFails (maxBindings - i) bindings := by
  induction bindings with
  | nil =>
    intro i h
    cases h
  | cons binding bindings ih =>
    intro i h hi
    rcases binding with _ | buffer
    · cases h
    rw [mapRanges_cons] at h
    rcases bind_eq_error.mp h with hmap | ⟨range, hrange, h⟩
    · exact ⟨[], buffer, bindings, failure, rfl, Nat.zero_le _, by simp,
        orReject_eq_rejected.mp hmap⟩
    split at h
    · cases h
    next hroom =>
    rcases bind_eq_error.mp h with hrest | ⟨_, -, h⟩
    · obtain ⟨before, buffer', rest, failure', rfl, hlength, hmaps, hfails⟩ := ih hrest (by omega)
      refine ⟨some buffer :: before, buffer', rest, failure', rfl, ?_, ?_, hfails⟩
      · rw [List.length_cons]
        omega
      · intro b hb
        rcases List.mem_cons.mp hb with rfl | hb
        · exact ⟨(range, buffer.writeable), buffer, rfl, orReject_eq_ok.mp hrange, rfl⟩
        · exact hmaps b hb
    · cases h

end Loop

theorem exists_forall₂_mapsTo {bindings : List (Option MappableBuffer)}
    (h : ∀ b ∈ bindings, ∃ mapped, MapsTo b mapped) :
    ∃ mapped, List.Forall₂ MapsTo bindings mapped := by
  induction bindings with
  | nil => exact ⟨[], .nil⟩
  | cons b bindings ih =>
    obtain ⟨m, hm⟩ := h b List.mem_cons_self
    obtain ⟨rest, hrest⟩ := ih fun b' hb' => h b' (List.mem_cons_of_mem _ hb')
    exact ⟨m :: rest, .cons hm hrest⟩

theorem exists_mapsTo_of_forall₂ {bindings : List (Option MappableBuffer)}
    {mapped : List (HostRange × Bool)} (h : List.Forall₂ MapsTo bindings mapped) :
    ∀ b ∈ bindings, ∃ m, MapsTo b m := by
  induction h with
  | nil => simp
  | cons hm _ ih =>
    intro b hb
    rcases List.mem_cons.mp hb with rfl | hb
    · exact ⟨_, hm⟩
    · exact ih b hb

/-! ### What the branches do -/

section Paths

variable {limits : Limits} {attrs : DispatchAttrs} {malloc : Except Status Unit}
  {args : DispatchArguments}

/-- What a request that the simulator branch hands over has passed, and what is handed over. -/
theorem simulatorPath_eq_ok {handed : Handed wz × List Bool}
    (h : simulatorPath wz limits args = .ok handed) :
    args.usesCustomArguments = false ∧ args.constants.length % 4 = 0 ∧
      ∃ x y z mapped, args.workgroupCount.get = .ok (x, y, z) ∧
        mapRanges limits.maxBindings (fun _ => .undefined) 0 args.bindings = .ok mapped ∧
        handed = (⟨args.fill wz x y z (UInt16.ofNat (args.constants.length / 4)) mapped, 0⟩,
          mapped.map Prod.snd) := by
  obtain ⟨_, hcustom, h⟩ := bind_eq_ok.mp h
  simp only [rejectCustomArguments] at hcustom
  split at hcustom
  · cases hcustom
  next hno =>
  obtain ⟨⟨x, y, z⟩, hcounts, h⟩ := bind_eq_ok.mp h
  simp only at h
  split at h
  · cases h
  next haligned =>
  obtain ⟨mapped, hmapped, h⟩ := bind_eq_ok.mp h
  obtain rfl := Except.ok.inj h
  exact ⟨by simpa using hno, by simpa using haligned, x, y, z, mapped,
    orReject_eq_ok.mp hcounts, hmapped, rfl⟩

/-- What a request that the plain branch hands over has passed, and what is handed over. -/
theorem plainPath_eq_ok {handed : Handed wz}
    (h : plainPath wz limits attrs malloc args = .ok handed) :
    args.constants.length = attrs.constantCount * 4 ∧
      args.bindings.length = attrs.bindingCount ∧
      handed.localMemorySize = localMemorySize limits attrs args := by
  obtain ⟨_, -, h⟩ := bind_eq_ok.mp h
  obtain ⟨⟨x, y, z⟩, -, h⟩ := bind_eq_ok.mp h
  simp only at h
  split at h
  · cases h
  split at h
  · cases h
  next hconstants =>
  split at h
  · cases h
  next hbindings =>
  obtain ⟨mapped, -, h⟩ := bind_eq_ok.mp h
  refine ⟨by simpa using hconstants, by simpa using hbindings, ?_⟩
  split at h
  · obtain ⟨_, -, h⟩ := bind_eq_ok.mp h
    obtain rfl := Except.ok.inj h
    rfl
  · obtain rfl := Except.ok.inj h
    rfl

/-- A conforming request that the shared checks accept is handed over by both branches. -/
theorem paths_of_conforms (hconforms : args.Conforms limits attrs)
    (haccepted : ¬ args.RejectedByBoth limits) :
    ∃ handed bindingWriteable, simulatorPath wz limits args = .ok (handed, bindingWriteable) ∧
      plainPath wz limits attrs malloc args = .ok handed := by
  simp only [DispatchArguments.RejectedByBoth, not_or, not_not, not_exists] at haccepted
  obtain ⟨hcustom, hcounts, haligned, -⟩ := haccepted
  obtain ⟨⟨x, y, z⟩, hget⟩ : ∃ counts, args.workgroupCount.get = .ok counts := by
    cases hget : args.workgroupCount.get with
    | ok counts => exact ⟨counts, rfl⟩
    | error failure => exact absurd hget (hcounts failure)
  obtain ⟨mapped, hmaps⟩ := exists_forall₂_mapsTo hconforms.mapped
  have hmapped : ∀ onNull, mapRanges limits.maxBindings onNull 0 args.bindings = .ok mapped :=
    fun onNull => (mapRanges_eq_ok (Nat.zero_le _)).mpr
      ⟨by rw [Nat.zero_add]; exact hconforms.storage, hmaps⟩
  have hcount : args.constants.length / 4 = attrs.constantCount := by
    rw [hconforms.constants, Nat.mul_div_cancel _ (by decide)]
  have hcheck : rejectCustomArguments args = .ok () := if_neg hcustom
  refine ⟨⟨args.fill wz x y z (UInt16.ofNat attrs.constantCount) mapped, 0⟩, mapped.map Prod.snd,
    ?_, ?_⟩
  · simp only [simulatorPath, hcheck, orReject_eq_ok.mpr hget, hmapped, ok_bind, hcount, haligned,
      ne_eq, not_true_eq_false, if_false, pure_eq_ok]
  · simp only [plainPath, hcheck, orReject_eq_ok.mpr hget, hmapped, ok_bind,
      hconforms.constants, hconforms.bindings, hconforms.localMemory, Nat.mul_mod_left, ne_eq,
      not_true_eq_false, if_false, gt_iff_lt, Nat.lt_irrefl, pure_eq_ok]

/-- A path rejects where its first step does. -/
theorem rejects_bind {α β : Type} {x : Except PathFailure α} (f : α → Except PathFailure β)
    (h : Rejects x) : Rejects (x >>= f) := by
  obtain ⟨failure, h⟩ := h
  exact ⟨failure, by rw [h, error_bind]⟩

/-- A check before a path that rejects. -/
theorem rejects_ite {α : Type} {c : Prop} [Decidable c] {failure : Status}
    {path : Except PathFailure α} (h : Rejects path) :
    Rejects (if c then .error (.rejected failure) else path) := by
  split
  · exact ⟨failure, rfl⟩
  · exact h

/-- The checks with which both branches begin, before `body`. -/
def sharedChecks {α : Type} (args : DispatchArguments)
    (body : UInt32 × UInt32 × UInt32 → Except PathFailure α) : Except PathFailure α := do
  rejectCustomArguments args
  let counts ← orReject args.workgroupCount.get
  if args.constants.length % 4 ≠ 0 then
    throw (.rejected ⟨.failedPrecondition, "constants must be 4-byte aligned"⟩)
  body counts

theorem sharedChecks_rejects {α : Type} {body : UInt32 × UInt32 × UInt32 → Except PathFailure α}
    (h : args.RejectedByBoth limits)
    (hbody : ∀ counts, MapFails limits.maxBindings args.bindings → Rejects (body counts)) :
    Rejects (sharedChecks args body) := by
  by_cases hcustom : args.usesCustomArguments = true
  · apply rejects_bind
    exact ⟨_, if_pos hcustom⟩
  have hcheck : rejectCustomArguments args = .ok () := if_neg hcustom
  rw [sharedChecks, hcheck, ok_bind]
  cases hget : args.workgroupCount.get with
  | error failure => exact ⟨failure, rfl⟩
  | ok counts =>
    rw [orReject, ok_bind]
    by_cases haligned : args.constants.length % 4 = 0
    · rw [if_neg (not_not.mpr haligned)]
      rcases h with h | ⟨failure, h⟩ | h | h
      · exact absurd h hcustom
      · rw [hget] at h
        cases h
      · exact absurd haligned h
      · exact hbody counts h
    · rw [if_pos haligned]
      exact ⟨_, rfl⟩

/-- The loop rejects bindings of which one fails to map. -/
theorem rejects_of_mapFails {onNull : Nat → PathFailure}
    {bindings : List (Option MappableBuffer)} (h : MapFails limits.maxBindings bindings) :
    Rejects (mapRanges limits.maxBindings onNull 0 bindings) := by
  obtain ⟨before, buffer, rest, failure, rfl, hlength, hmaps, hfails⟩ := h
  exact ⟨failure, mapRanges_rejects hfails (by rwa [Nat.zero_add]) hmaps⟩

/-- The simulator branch rejects what both branches check, and nothing else. -/
theorem simulatorPath_rejects_iff :
    Rejects (simulatorPath wz limits args) ↔ args.RejectedByBoth limits := by
  constructor
  · rintro ⟨failure, h⟩
    rcases bind_eq_error.mp h with hcustom | ⟨_, -, h⟩
    · simp only [rejectCustomArguments] at hcustom
      split at hcustom
      next hyes => exact .inl hyes
      next => cases hcustom
    rcases bind_eq_error.mp h with hget | ⟨⟨x, y, z⟩, -, h⟩
    · exact .inr (.inl ⟨failure, orReject_eq_rejected.mp hget⟩)
    simp only at h
    split at h
    next haligned => exact .inr (.inr (.inl haligned))
    rcases bind_eq_error.mp h with hmap | ⟨_, -, h⟩
    · exact .inr (.inr (.inr (mapFails_of_rejects hmap (Nat.zero_le _))))
    · cases h
  · intro h
    apply sharedChecks_rejects h
    intro counts hfails
    exact rejects_bind _ (rejects_of_mapFails hfails)

/-- The plain branch rejects what both branches check. -/
theorem plainPath_rejects (h : args.RejectedByBoth limits) :
    Rejects (plainPath wz limits attrs malloc args) := by
  apply sharedChecks_rejects h
  intro counts hfails
  apply rejects_ite
  apply rejects_ite
  exact rejects_bind _ (rejects_of_mapFails hfails)

/-! ### Where the branches agree -/

/-- **The two branches agree exactly when both reject the request, or it conforms.** A request
    that one of the shared checks rejects is rejected by both.  On any other one they agree only
    if every binding has a buffer that maps into storage, the counts are those of the export, and
    there is no local memory: the simulator branch tests neither the buffers nor the counts, and
    hands over no local memory. -/
theorem pathsAgree_iff (limits : Limits) (attrs : DispatchAttrs) (malloc : Except Status Unit)
    (args : DispatchArguments) :
    PathsAgree (simulatorPath wz limits args) (plainPath wz limits attrs malloc args) ↔
      args.RejectedByBoth limits ∨ args.Conforms limits attrs := by
  constructor
  · rintro (⟨hsimulator, -⟩ | ⟨handed, bindingWriteable, hsimulator, hplain⟩)
    · exact .inl (simulatorPath_rejects_iff.mp hsimulator)
    · obtain ⟨-, -, x, y, z, mapped, -, hmapped, hhanded⟩ := simulatorPath_eq_ok hsimulator
      obtain ⟨hstorage, hmaps⟩ := (mapRanges_eq_ok (Nat.zero_le _)).mp hmapped
      obtain ⟨hconstants, hbindings, hlocal⟩ := plainPath_eq_ok hplain
      refine .inr ⟨exists_mapsTo_of_forall₂ hmaps, by rwa [Nat.zero_add] at hstorage, hconstants,
        hbindings, ?_⟩
      rw [← hlocal, (Prod.mk.inj hhanded).1]
  · intro h
    by_cases hrejected : args.RejectedByBoth limits
    · exact .inl ⟨simulatorPath_rejects_iff.mpr hrejected, plainPath_rejects hrejected⟩
    · exact .inr (paths_of_conforms (h.resolve_left hrejected) hrejected)

end Paths

/-- A request of one workgroup without constants. -/
def oneWorkgroup (localMemory : Nat) (bindings : List (Option MappableBuffer)) :
    DispatchArguments where
  usesCustomArguments := false
  workgroupSizeX := 1
  workgroupSizeY := 1
  workgroupSizeZ := 1
  workgroupCount := .direct 1 1 1
  dynamicWorkgroupLocalMemory := localMemory
  constants := []
  bindings := bindings

/-- The branches hand over local memory of different sizes when 64 bytes of it are asked for.  And
    a binding without a buffer is rejected by the plain branch only. -/
theorem paths_disagree :
    ¬ PathsAgree (simulatorPath 16 ⟨64, 4096, 32⟩ (oneWorkgroup 64 []))
        (plainPath 16 ⟨64, 4096, 32⟩ ⟨0, 0, 0⟩ (.ok ()) (oneWorkgroup 64 [])) ∧
      ¬ PathsAgree (simulatorPath 16 ⟨64, 4096, 32⟩ (oneWorkgroup 0 [none]))
        (plainPath 16 ⟨64, 4096, 32⟩ ⟨0, 0, 1⟩ (.ok ()) (oneWorkgroup 0 [none])) := by
  constructor
  · rintro (⟨⟨failure, h⟩, -⟩ | ⟨handed, bindingWriteable, hsimulator, hplain⟩)
    · cases h
    · have hzero := congrArg (fun r : Handed 16 × List Bool => r.1.localMemorySize)
        (Except.ok.inj hsimulator)
      have hsome := congrArg Handed.localMemorySize (Except.ok.inj hplain)
      exact absurd (hsome.trans hzero.symm) (by decide)
  · rintro (⟨⟨failure, h⟩, -⟩ | ⟨handed, bindingWriteable, h, -⟩)
    · cases h
    · cases h

/-! ### The simulator branch and the bindings' contents -/

/-- A buffer, with what its mapped range holds in host memory. -/
def MappableBuffer.bufferRef (host : Memory) (buffer : MappableBuffer) : BufferRef where
  map := buffer.map.map fun range => readMem host (range.1.getD 0) range.2.toNat
  writeable := buffer.writeable
  length_lt := by
    intro bytes h
    cases hmap : buffer.map with
    | error failure =>
      rw [hmap] at h
      cases h
    | ok range =>
      rw [hmap] at h
      obtain rfl := Except.ok.inj h
      rw [length_readMem]
      exact range.2.toNat_lt

/-- The request as a dispatch of `buildDispatchState`. -/
def DispatchArguments.command (host : Memory) (args : DispatchArguments) : DispatchCommand where
  usesCustomArguments := args.usesCustomArguments
  workgroupSizeX := args.workgroupSizeX
  workgroupSizeY := args.workgroupSizeY
  workgroupSizeZ := args.workgroupSizeZ
  workgroupCount := args.workgroupCount
  constants := args.constants
  bindings := args.bindings.reduceOption.map (MappableBuffer.bufferRef host)

/-- The bytes and the writeability of a mapped binding. -/
def mappedBytes (host : Memory) (mapped : HostRange × Bool) : List UInt8 × Bool :=
  (readMem host (mapped.1.1.getD 0) mapped.1.2.toNat, mapped.2)

/-- No mapped range is null. -/
theorem exists_pointer_of_forall₂ {bindings : List (Option MappableBuffer)}
    {mapped : List (HostRange × Bool)} (h : List.Forall₂ MapsTo bindings mapped)
    (hpointers : ∀ b ∈ bindings, ∀ m, MapsTo b m → m.1.1 ≠ none) :
    ∀ m ∈ mapped, ∃ a, m.1.1 = some a := by
  induction h with
  | nil => simp
  | @cons b m bindings mapped hm _ ih =>
    intro m' hm'
    rcases List.mem_cons.mp hm' with rfl | hm'
    · exact Option.ne_none_iff_exists'.mp (hpointers b List.mem_cons_self _ hm)
    · exact ih (fun b' hb' => hpointers b' (List.mem_cons_of_mem _ hb')) m' hm'

theorem length_reduceOption {bindings : List (Option MappableBuffer)}
    {mapped : List (HostRange × Bool)} (h : List.Forall₂ MapsTo bindings mapped) :
    bindings.reduceOption.length = bindings.length := by
  induction h with
  | nil => rfl
  | cons hm _ ih =>
    obtain ⟨buffer, rfl, -, -⟩ := hm
    rw [List.reduceOption_cons_of_some, List.length_cons, List.length_cons, ih]

/-- The loop over the buffers and the loop over their contents go together. -/
theorem mapBindings_reduceOption {maxBindings : Nat} (host : Memory)
    {bindings : List (Option MappableBuffer)} {mapped : List (HostRange × Bool)}
    (h : List.Forall₂ MapsTo bindings mapped) :
    ∀ i, i + bindings.length ≤ maxBindings →
      mapBindings maxBindings i (bindings.reduceOption.map (MappableBuffer.bufferRef host))
        = .ok (mapped.map (mappedBytes host)) := by
  induction h with
  | nil => exact fun i _ => rfl
  | @cons b m bindings mapped hm _ ih =>
    intro i hroom
    rw [List.length_cons] at hroom
    obtain ⟨buffer, rfl, hmap, hwriteable⟩ := hm
    have hbytes : (buffer.bufferRef host).map = .ok (mappedBytes host m).1 := by
      show buffer.map.map _ = _
      rw [hmap]
      rfl
    rw [List.reduceOption_cons_of_some, List.map_cons, mapBindings, orFail_eq_ok.mpr hbytes, ok_bind,
      if_neg (by omega), ih (i + 1) (by omega), ok_bind]
    show Except.ok ((_, buffer.writeable) :: _) = _
    rw [hwriteable]
    rfl

/-- The filled state, with the contents of its bindings. -/
theorem contents_fill (host : Memory) {args : DispatchArguments} {x y z : UInt32}
    {mapped : List (HostRange × Bool)} (hmaps : List.Forall₂ MapsTo args.bindings mapped)
    (hpointers : ∀ m ∈ mapped, ∃ a, m.1.1 = some a) :
    (args.fill wz x y z (UInt16.ofNat (args.constants.length / 4)) mapped).contents host
      = fillDispatchState wz (args.command host) x y z (mapped.map (mappedBytes host)) := by
  have hcount : (args.command host).bindings.length = args.bindings.length := by
    show (args.bindings.reduceOption.map _).length = _
    rw [List.length_map, length_reduceOption hmaps]
  have hptrs : ((mapped.map fun b => b.1.1).zip (mapped.map fun b => b.1.2)).map
        (HostRange.contents host)
      = (mapped.map (mappedBytes host)).map fun b => some b.1 := by
    rw [List.zip_map', List.map_map, List.map_map]
    apply List.map_congr_left
    intro m hm
    obtain ⟨a, ha⟩ := hpointers m hm
    show Option.map _ m.1.1 = some (readMem host (m.1.1.getD 0) m.1.2.toNat)
    rw [ha]
    rfl
  have hlengths : (mapped.map (mappedBytes host)).map (fun b => UInt64.ofNat b.1.length)
      = mapped.map fun b => b.1.2 := by
    rw [List.map_map]
    apply List.map_congr_left
    intro m _
    show UInt64.ofNat (readMem host _ m.1.2.toNat).length = m.1.2
    rw [length_readMem, UInt64.ofNat_toNat]
  rw [fillDispatchState, hcount, ← hptrs, hlengths]
  rfl

/-- **The simulator branch hands over the dispatch state of `buildDispatchState`**, with the
    bindings in host memory. -/
theorem buildDispatchState_command {limits : Limits} {args : DispatchArguments}
    {handed : Handed wz} {bindingWriteable : List Bool} (host : Memory)
    (h : simulatorPath wz limits args = .ok (handed, bindingWriteable))
    (hpointers : ∀ b ∈ args.bindings, ∀ mapped, MapsTo b mapped → mapped.1.1 ≠ none) :
    buildDispatchState wz limits.maxBindings (args.command host)
      = .ok (handed.state.contents host, bindingWriteable) := by
  obtain ⟨hcustom, haligned, x, y, z, mapped, hget, hmapped, hhanded⟩ := simulatorPath_eq_ok h
  obtain ⟨rfl, rfl⟩ := Prod.mk.inj hhanded
  obtain ⟨hstorage, hmaps⟩ := (mapRanges_eq_ok (Nat.zero_le _)).mp hmapped
  have hloop := mapBindings_reduceOption host hmaps 0 hstorage
  rw [contents_fill host hmaps (exists_pointer_of_forall₂ hmaps hpointers)]
  have hget' : orFail (args.command host).workgroupCount.get = .ok (x, y, z) :=
    orFail_eq_ok.mpr hget
  have hcustom' : (args.command host).usesCustomArguments = false := hcustom
  have haligned' : (args.command host).constants.length % 4 = 0 := haligned
  have hloop' : mapBindings limits.maxBindings 0 (args.command host).bindings
      = .ok (mapped.map (mappedBytes host)) := hloop
  simp only [buildDispatchState, hcustom', hget', haligned', hloop', ok_bind, pure_eq_ok, ne_eq,
    not_true_eq_false, if_false, Bool.false_eq_true, List.map_map]
  rfl

end CoralNPU.Sim
