import CoralNPU.Lib.Except

namespace Lib

/-!
# Computations with a trace

A computation that leaves events behind and may fail.  The events made before a failure stay.

* `Traced` — the events, and the result; a monad.  `emit` makes an event, `lift` runs a
  computation without events.
* `AllEvents` — a property of every event, with its rule for a sequence, `AllEvents.bind`.
* `bind_result_eq_ok` — a sequence that succeeds has the events of its parts, in order.
-/

variable {ω ε α β : Type}

/-- A computation with events `ω`, errors `ε` and results `α`. -/
structure Traced (ω ε α : Type) where
  events : List ω
  result : Except ε α

namespace Traced

/-- Make an event. -/
def emit (e : ω) : Traced ω ε Unit := ⟨[e], .ok ()⟩

/-- A computation without events. -/
def lift (x : Except ε α) : Traced ω ε α := ⟨[], x⟩

/-- One computation after the other, unless the first fails. -/
def bind (x : Traced ω ε α) (f : α → Traced ω ε β) : Traced ω ε β :=
  match x.result with
  | .ok a => ⟨x.events ++ (f a).events, (f a).result⟩
  | .error e => ⟨x.events, .error e⟩

/-- The events of the first part come before those of the second. -/
instance : Monad (Traced ω ε) where
  pure a := lift (.ok a)
  bind := bind

/-- After a part that succeeds comes the next. -/
theorem bind_of_ok {x : Traced ω ε α} {a : α} (h : x.result = .ok a) (f : α → Traced ω ε β) :
    x >>= f = ⟨x.events ++ (f a).events, (f a).result⟩ := by
  show bind x f = _
  rw [bind, h]

/-- After a part that fails comes nothing. -/
theorem bind_of_error {x : Traced ω ε α} {e : ε} (h : x.result = .error e)
    (f : α → Traced ω ε β) : x >>= f = ⟨x.events, .error e⟩ := by
  show bind x f = _
  rw [bind, h]

/-- **A sequence that succeeds**: its parts do, and its events are theirs. -/
theorem bind_result_eq_ok {x : Traced ω ε α} {f : α → Traced ω ε β} {b : β}
    (h : (x >>= f).result = .ok b) :
    ∃ a, x.result = .ok a ∧ (f a).result = .ok b ∧ (x >>= f).events = x.events ++ (f a).events := by
  cases hx : x.result with
  | error e =>
    rw [bind_of_error hx] at h
    cases h
  | ok a =>
    rw [bind_of_ok hx] at h ⊢
    exact ⟨a, rfl, h, rfl⟩

/-- The result does not depend on the events. -/
theorem bind_result (x : Traced ω ε α) (f : α → Traced ω ε β) :
    (x >>= f).result = x.result >>= fun a => (f a).result := by
  cases hx : x.result with
  | error e => rw [bind_of_error hx]; rfl
  | ok a => rw [bind_of_ok hx]; rfl

/-- Every event has the property. -/
def AllEvents (P : ω → Prop) (x : Traced ω ε α) : Prop := ∀ e ∈ x.events, P e

namespace AllEvents

variable {P : ω → Prop}

/-- An outcome has no events. -/
theorem lift (x : Except ε α) : AllEvents P (Traced.lift x : Traced ω ε α) :=
  fun _ h => absurd h List.not_mem_nil

/-- A single event. -/
theorem emit {e : ω} (h : P e) : AllEvents P (Traced.emit e : Traced ω ε Unit) :=
  fun _ he => List.mem_singleton.mp he ▸ h

/-- The events of a sequence have the property when those of its parts do. -/
theorem bind {x : Traced ω ε α} {f : α → Traced ω ε β} (hx : AllEvents P x)
    (hf : ∀ a, x.result = .ok a → AllEvents P (f a)) : AllEvents P (x >>= f) := by
  intro e he
  cases hr : x.result with
  | error err =>
    rw [bind_of_error hr] at he
    exact hx e he
  | ok a =>
    rw [bind_of_ok hr] at he
    exact (List.mem_append.mp he).elim (hx e) (hf a hr e)

end AllEvents

end Traced

end Lib
