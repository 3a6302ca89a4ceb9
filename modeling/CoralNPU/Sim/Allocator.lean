import CoralNPU.Sim.Host

namespace CoralNPU.Sim

open Lib

/-!
# The allocators over whole sequences of calls

`iree_hal_coralnpu_allocate_dtcm` and `iree_hal_coralnpu_allocate_ddr` write through two pointers:
the cursor, and the address that they return.

* `AllocState` — the cursor and the words that the callers name as outputs.
* `allocateCall` — the body of both functions as a program over this state, with the early return
  before the two writes; `allocateCall_run` relates it to `allocate`.
* `trace` — a sequence of calls, with the state before and after each.
* `SoundTrace` — no block leaves the region or overlaps another, and a failed call does nothing;
  `eventOf_sound` is one call, `trace_sound` a sequence, `allocations_sound` both allocators.
-/

/-- One call: where the address goes, and what is asked for. -/
structure AllocRequest (ι : Type) where
  output : ι
  alignment : UInt32
  size : UInt64

/-- What the two pointers of a call point to. -/
structure AllocState (ι : Type) where
  cursor : UInt32
  outputs : ι → UInt32

variable {ι : Type} [DecidableEq ι]

/-- The body of both allocators, with its writes. -/
def allocateCall (limit : UInt64) (failure : Status) (request : AllocRequest ι) :
    ExceptT Status (StateM (AllocState ι)) Unit := do
  let cursor := (← get).cursor
  let aligned := (cursor.toUInt64 + request.alignment.toUInt64 - 1) &&&
    ~~~(request.alignment.toUInt64 - 1)
  let allocationEnd := aligned + request.size
  if allocationEnd < aligned ∨ allocationEnd > limit then
    throw failure
  -- `*out_address` and then `*cursor`
  modify fun s => { s with outputs := Function.update s.outputs request.output aligned.toUInt32 }
  modify fun s => { s with cursor := allocationEnd.toUInt32 }

/-- `iree_hal_coralnpu_allocate_dtcm` with its writes. -/
def allocateDtcmCall (heapEnd : UInt32) :
    AllocRequest ι → ExceptT Status (StateM (AllocState ι)) Unit :=
  allocateCall heapEnd.toUInt64
    ⟨.resourceExhausted, "dispatch data exceeds the firmware heap"⟩

/-- `iree_hal_coralnpu_allocate_ddr` with its writes. -/
def allocateDdrCall : AllocRequest ι → ExceptT Status (StateM (AllocState ι)) Unit :=
  allocateCall 0xC0000000 ⟨.resourceExhausted, "dispatch data exceeds the DDR limit"⟩

/-- **A call does what the allocation says.** It writes both results, or nothing. -/
theorem allocateCall_run (limit : UInt64) (failure : Status) (request : AllocRequest ι)
    (s : AllocState ι) :
    (allocateCall limit failure request).run.run s =
      match allocate limit failure s.cursor request.alignment request.size with
      | .ok (address, cursor) =>
        (.ok (), ⟨cursor, Function.update s.outputs request.output address⟩)
      | .error e => (.error e, s) := by
  show (if _ ∨ _ then _ else _ : ExceptT Status (StateM (AllocState ι)) Unit).run.run s = _
  rw [allocate]
  split
  next => rfl
  next => rfl

/-! ### Sequences of calls -/

/-- A call in a sequence, with what it returned. -/
structure AllocEvent (ι : Type) where
  request : AllocRequest ι
  before : AllocState ι
  result : Except Status Unit
  after : AllocState ι

/-- The block of a successful call. -/
def AllocEvent.block (event : AllocEvent ι) : Option Region :=
  match event.result with
  | .ok _ => some ⟨(event.after.outputs event.request.output).toNat, event.request.size.toNat⟩
  | .error _ => none

/-- The calls, one after the other. A failed call does not end the sequence. -/
def trace (call : AllocRequest ι → ExceptT Status (StateM (AllocState ι)) Unit) :
    List (AllocRequest ι) → AllocState ι → List (AllocEvent ι)
  | [], _ => []
  | request :: requests, s =>
    let outcome := (call request).run.run s
    ⟨request, s, outcome.1, outcome.2⟩ :: trace call requests outcome.2

/-- The alignments that the allocators are made for. -/
def AllocRequest.PowerOfTwo (request : AllocRequest ι) : Prop :=
  ∃ k, request.alignment.toNat = 2 ^ k

/-- What one call does, from a cursor at `lo` or later. -/
structure SoundEvent (lo hi : Nat) (event : AllocEvent ι) : Prop where
  /-- The block is aligned and in the region. -/
  aligned : ∀ r, event.block = some r → event.request.alignment.toNat ∣ r.first
  inside : ∀ r, event.block = some r → lo ≤ r.first ∧ r.first + r.length ≤ hi
  /-- Address and cursor are those of the unbounded computation. -/
  exact : ∀ r, event.block = some r →
    r = ⟨alignUp event.request.alignment.toNat event.before.cursor.toNat,
      event.request.size.toNat⟩ ∧
    event.after.cursor.toNat = r.first + r.length
  /-- A failed call writes nothing. -/
  unchanged : event.block = none → event.after = event.before

/-- What a sequence of calls does. -/
structure SoundTrace (lo hi : Nat) (events : List (AllocEvent ι)) : Prop where
  event : ∀ event ∈ events, SoundEvent lo hi event
  apart : (events.filterMap AllocEvent.block).Pairwise Region.Apart

/-- The event of one call. -/
def eventOf (call : AllocRequest ι → ExceptT Status (StateM (AllocState ι)) Unit)
    (request : AllocRequest ι) (s : AllocState ι) : AllocEvent ι :=
  ⟨request, s, ((call request).run.run s).1, ((call request).run.run s).2⟩

omit [DecidableEq ι] in
theorem trace_cons (call : AllocRequest ι → ExceptT Status (StateM (AllocState ι)) Unit)
    (request : AllocRequest ι) (requests : List (AllocRequest ι)) (s : AllocState ι) :
    trace call (request :: requests) s =
      eventOf call request s :: trace call requests (eventOf call request s).after := rfl

section Limit

variable {limit : UInt64} {failure : Status} {lo : Nat}

/-- **One call.** Besides what it promises, it moves the cursor up, past its block. -/
theorem eventOf_sound (failure : Status) (hlimit : limit.toNat < 2 ^ 32)
    {request : AllocRequest ι} {s : AllocState ι} (hpow : request.PowerOfTwo) (hlo : lo ≤ s.cursor.toNat) :
    SoundEvent lo limit.toNat (eventOf (allocateCall limit failure) request s) ∧
      s.cursor.toNat ≤ (eventOf (allocateCall limit failure) request s).after.cursor.toNat ∧
      ∀ r, (eventOf (allocateCall limit failure) request s).block = some r →
        s.cursor.toNat ≤ r.first ∧
        r.first + r.length ≤
          (eventOf (allocateCall limit failure) request s).after.cursor.toNat := by
  obtain ⟨k, halign⟩ := hpow
  have hk : k < 32 := by
    have hlt := request.alignment.toNat_lt
    rw [halign] at hlt
    exact (Nat.pow_lt_pow_iff_right (by omega)).mp hlt
  have hrun := allocateCall_run limit failure request s
  cases halloc : allocate limit failure s.cursor request.alignment request.size with
  | error e =>
    rw [halloc] at hrun
    -- a failed call has no block and changes nothing
    have hevent : eventOf (allocateCall limit failure) request s = ⟨request, s, .error e, s⟩ := by
      rw [eventOf, hrun]
    rw [hevent]
    refine ⟨⟨?_, ?_, ?_, fun _ => rfl⟩, Nat.le_refl _, ?_⟩
    all_goals
      intro r hr
      cases hr
  | ok result =>
    obtain ⟨address, cursor⟩ := result
    rw [halloc] at hrun
    have hevent : eventOf (allocateCall limit failure) request s =
        ⟨request, s, .ok (), ⟨cursor, Function.update s.outputs request.output address⟩⟩ := by
      rw [eventOf, hrun]
    have hblock : (eventOf (allocateCall limit failure) request s).block
        = some ⟨address.toNat, request.size.toNat⟩ := by
      rw [hevent]
      simp only [AllocEvent.block, Function.update_self]
    -- the block lies between the cursor before the call and the one after it
    obtain ⟨haddress, hend, hle⟩ := allocate_eq_ok_alignUp hk halign hlimit halloc
    have hstart : s.cursor.toNat ≤ address.toNat :=
      haddress ▸ le_alignUp (Nat.two_pow_pos k) s.cursor.toNat
    have hstop : address.toNat + request.size.toNat ≤ cursor.toNat := Nat.le_of_eq hend
    have hup : s.cursor.toNat ≤ cursor.toNat := by omega
    have hafter : (eventOf (allocateCall limit failure) request s).after.cursor = cursor := by
      rw [hevent]
    have hasked : (eventOf (allocateCall limit failure) request s).request = request := by
      rw [hevent]
    have hbefore : (eventOf (allocateCall limit failure) request s).before = s := by
      rw [hevent]
    have hone : ∀ r, (eventOf (allocateCall limit failure) request s).block = some r →
        ⟨address.toNat, request.size.toNat⟩ = r :=
      fun r hr => Option.some.inj (hblock.symm.trans hr)
    refine ⟨⟨?_, ?_, ?_, ?_⟩, hafter ▸ hup, ?_⟩
    · intro r hr
      obtain rfl := hone r hr
      rw [hasked, halign, haddress]
      exact Nat.dvd_mul_left _ _
    · intro r hr
      obtain rfl := hone r hr
      exact ⟨Nat.le_trans hlo hstart, Nat.le_trans hstop hle⟩
    · intro r hr
      obtain rfl := hone r hr
      rw [hasked, hbefore, halign, ← haddress, hafter]
      exact ⟨rfl, hend.symm⟩
    · intro hnone
      rw [hblock] at hnone
      cases hnone
    · intro r hr
      obtain rfl := hone r hr
      exact ⟨hstart, hafter ▸ hstop⟩

/-- **A sequence of calls**, by induction: no block starts before the cursor of its call, so every
    later block lies above every earlier one. -/
theorem trace_sound (hlimit : limit.toNat < 2 ^ 32) (requests : List (AllocRequest ι)) :
    ∀ s : AllocState ι, (∀ request ∈ requests, request.PowerOfTwo) → lo ≤ s.cursor.toNat →
      SoundTrace lo limit.toNat (trace (allocateCall limit failure) requests s) ∧
      ∀ r ∈ (trace (allocateCall limit failure) requests s).filterMap AllocEvent.block,
        s.cursor.toNat ≤ r.first := by
  induction requests with
  | nil =>
    intro s _ _
    exact ⟨⟨by simp [trace], List.Pairwise.nil⟩, by simp [trace]⟩
  | cons request requests ih =>
    intro s hpow hlo
    obtain ⟨hfirst, hup, hblock⟩ := eventOf_sound failure hlimit
      (hpow request List.mem_cons_self) hlo
    obtain ⟨hrest, habove⟩ := ih (eventOf (allocateCall limit failure) request s).after
      (fun r hr => hpow r (List.mem_cons_of_mem _ hr)) (Nat.le_trans hlo hup)
    rw [trace_cons]
    have hevents := List.forall_mem_cons.mpr ⟨hfirst, hrest.event⟩
    cases hhead : (eventOf (allocateCall limit failure) request s).block with
    | none =>
      rw [List.filterMap_cons_none hhead]
      exact ⟨⟨hevents, by rw [List.filterMap_cons_none hhead]; exact hrest.apart⟩,
        fun r hr => Nat.le_trans hup (habove r hr)⟩
    | some r₀ =>
      obtain ⟨hstart, hstop⟩ := hblock r₀ hhead
      rw [List.filterMap_cons_some hhead]
      refine ⟨⟨hevents, ?_⟩, ?_⟩
      · rw [List.filterMap_cons_some hhead]
        -- later blocks start above the cursor that this call leaves
        refine List.pairwise_cons.mpr ⟨fun r hr => ?_, hrest.apart⟩
        exact Region.apart_of_le (Nat.le_trans hstop (habove r hr))
      · rw [List.forall_mem_cons]
        exact ⟨hstart, fun r hr => Nat.le_trans hup (habove r hr)⟩

end Limit

/-- **Device allocations never overlap or leave their region**, for both allocators, from the
    cursors that the dispatch starts with. -/
theorem allocations_sound (heapStart heapEnd : UInt32) (outputs : ι → UInt32)
    (requests : List (AllocRequest ι)) (hpow : ∀ request ∈ requests, request.PowerOfTwo) :
    SoundTrace heapStart.toNat heapEnd.toNat
      (trace (allocateDtcmCall heapEnd) requests ⟨heapStart, outputs⟩) ∧
    SoundTrace 0x80000000 0xC0000000
      (trace allocateDdrCall requests ⟨0x80000000, outputs⟩) := by
  have hwide : heapEnd.toUInt64.toNat = heapEnd.toNat := UInt32.toNat_toUInt64 heapEnd
  constructor
  · rw [← hwide]
    have hlimit : heapEnd.toUInt64.toNat < 2 ^ 32 := by
      rw [hwide]
      exact heapEnd.toNat_lt
    exact (trace_sound hlimit requests ⟨heapStart, outputs⟩ hpow (Nat.le_refl _)).1
  · have hlimit : (0xC0000000 : UInt64).toNat < 2 ^ 32 := by decide
    exact (trace_sound hlimit requests ⟨0x80000000, outputs⟩ hpow (Nat.le_refl _)).1

/-- Three calls: an odd size, a size that does not fit, and one that does after all. -/
theorem allocations_sound_threeCalls :
    (∀ request ∈ [(⟨0, 4, 5⟩ : AllocRequest (Fin 2)), ⟨1, 64, 0xFFFFFFFFFFFFFFFF⟩, ⟨1, 64, 8⟩],
      request.PowerOfTwo) ∧
    SoundTrace (0x10000 : UInt32).toNat (0x10080 : UInt32).toNat
      (trace (allocateDtcmCall 0x10080)
        [(⟨0, 4, 5⟩ : AllocRequest (Fin 2)), ⟨1, 64, 0xFFFFFFFFFFFFFFFF⟩, ⟨1, 64, 8⟩]
        ⟨0x10000, fun _ => 0⟩) ∧
    SoundTrace 0x80000000 0xC0000000
      (trace allocateDdrCall
        [(⟨0, 4, 5⟩ : AllocRequest (Fin 2)), ⟨1, 64, 0xFFFFFFFFFFFFFFFF⟩, ⟨1, 64, 8⟩]
        ⟨0x80000000, fun _ => 0⟩) := by
  have hpow : ∀ request ∈
      [(⟨0, 4, 5⟩ : AllocRequest (Fin 2)), ⟨1, 64, 0xFFFFFFFFFFFFFFFF⟩, ⟨1, 64, 8⟩],
      request.PowerOfTwo := by
    simp only [List.forall_mem_cons]
    exact ⟨⟨2, rfl⟩, ⟨6, rfl⟩, ⟨6, rfl⟩, fun _ h => absurd h List.not_mem_nil⟩
  exact ⟨hpow, allocations_sound 0x10000 0x10080 (fun _ => 0) _ hpow⟩

example : (trace (allocateDtcmCall 0x10080)
      [(⟨0, 4, 5⟩ : AllocRequest (Fin 2)), ⟨1, 64, 0xFFFFFFFFFFFFFFFF⟩, ⟨1, 64, 8⟩]
      ⟨0x10000, fun _ => 0⟩).map AllocEvent.block
    = [some ⟨0x10000, 5⟩, none, some ⟨0x10040, 8⟩] := by
  decide

end CoralNPU.Sim
