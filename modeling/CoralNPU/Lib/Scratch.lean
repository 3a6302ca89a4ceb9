import CoralNPU.Lib.Except

namespace Lib

/-!
# Computations with scratch state

A function that fills a cached record on its way and may return early leaves the record half filled.
What it computes may still be that of a function without state.

* `Scratch` — computations that keep their state when they fail.
* `Computes` — from every state with a property, a computation with scratch state ends as one without
  state does.  There is one rule for each way in which such functions are put together.
-/

/-- A computation that keeps its state when it fails. -/
abbrev Scratch (σ ε α : Type) := ExceptT ε (StateM σ) α

variable {σ ε α β γ δ : Type}

/-- Two steps, one after the other: an error keeps the state it was raised in. -/
theorem Scratch.bind_apply (x : Scratch σ ε α) (f : α → Scratch σ ε β) (s : σ) :
    (x >>= f) s = match x s with
      | (.ok a, s') => f a s'
      | (.error e, s') => (.error e, s') := by
  show (match x s with | (r, s') => ExceptT.bindCont f r s') = _
  rcases x s with ⟨_ | _, s'⟩ <;> rfl

/-- Reading the state. -/
theorem Scratch.get_apply (s : σ) : (get : Scratch σ ε σ) s = (.ok s, s) := rfl

/-- A computation without state. -/
def Scratch.lift (x : Except ε α) : Scratch σ ε α := fun s => (x, s)

/-- **From every state with `P`, `x` ends as `o` does**: it fails with the same error, in a state with
    `I`, or gives a value, and a state, that `Q` relates to the value of `o`. -/
def Computes (P : σ → Prop) (x : Scratch σ ε α) (o : Except ε β) (I : σ → Prop)
    (Q : β → α → σ → Prop) : Prop :=
  ∀ s, P s → match o with
    | .ok b => ∃ a s', x s = (.ok a, s') ∧ Q b a s'
    | .error e => ∃ s', x s = (.error e, s') ∧ I s'

section Rules

variable {P R I : σ → Prop} {x : Scratch σ ε α} {o : Except ε β}

/-- A value computes a value, if they are related in every state. -/
theorem computes_pure {Q : β → α → σ → Prop} {a : α} {b : β} (h : ∀ s, P s → Q b a s) :
    Computes P (pure a : Scratch σ ε α) (pure b) I Q :=
  fun s hs => ⟨a, s, rfl, h s hs⟩

/-- An error computes the same error. -/
theorem computes_throw {Q : β → α → σ → Prop} {e : ε} (h : ∀ s, P s → I s) :
    Computes P (throw e : Scratch σ ε α) (throw e : Except ε β) I Q :=
  fun s hs => ⟨s, rfl, h s hs⟩

/-- An outcome computes itself, and leaves the state alone. -/
theorem computes_lift {y : Except ε α} (h : ∀ s, P s → I s) :
    Computes P (Scratch.lift y) y I fun b a s => a = b ∧ P s := by
  intro s hs
  cases y with
  | ok a => exact ⟨a, s, rfl, rfl, hs⟩
  | error e => exact ⟨s, rfl, h s hs⟩

/-- **Two steps**, one after the other. -/
theorem computes_bind {Q' : β → α → σ → Prop} {Q : δ → γ → σ → Prop} {f : α → Scratch σ ε γ}
    {g : β → Except ε δ} (h : Computes P x o I Q')
    (hf : ∀ b a, Computes (Q' b a) (f a) (g b) I Q) : Computes P (x >>= f) (o >>= g) I Q := by
  intro s hs
  have hx := h s hs
  cases o with
  | error e =>
    obtain ⟨s', hx, hI⟩ := hx
    exact ⟨s', by rw [Scratch.bind_apply, hx], hI⟩
  | ok b =>
    obtain ⟨a, s', hx, hQ⟩ := hx
    have heq : (x >>= f) s = f a s' := by rw [Scratch.bind_apply, hx]
    rw [heq]
    exact hf b a s' hQ

/-- After an error nothing else is done. -/
theorem computes_bind_error {Q' : β → α → σ → Prop} {Q : δ → γ → σ → Prop} {f : α → Scratch σ ε γ}
    {e : ε} (h : Computes P x (.error e : Except ε β) I Q') :
    Computes P (x >>= f) (.error e : Except ε δ) I Q := by
  intro s hs
  obtain ⟨s', hx, hI⟩ := h s hs
  exact ⟨s', by rw [Scratch.bind_apply, hx], hI⟩

/-- A step that the computation without state does not have. -/
theorem computes_step {Q : δ → γ → σ → Prop} {step : Scratch σ ε PUnit} {k : PUnit → Scratch σ ε γ}
    {o : Except ε δ} (hk : Computes R (k ⟨⟩) o I Q)
    (hstep : ∀ s, P s → ∃ s', step s = (.ok ⟨⟩, s') ∧ R s') : Computes P (step >>= k) o I Q := by
  intro s hs
  obtain ⟨s', hstep, hs'⟩ := hstep s hs
  have heq : (step >>= k) s = k ⟨⟩ s' := by rw [Scratch.bind_apply, hstep]
  rw [heq]
  exact hk s' hs'

/-- An update of the state, before the rest. -/
theorem computes_modify {Q : δ → γ → σ → Prop} {f : σ → σ} {k : PUnit → Scratch σ ε γ}
    {o : Except ε δ} (hk : Computes R (k ⟨⟩) o I Q) (hf : ∀ s, P s → R (f s)) :
    Computes P (modify f >>= k) o I Q :=
  computes_step hk fun s hs => ⟨f s, rfl, hf s hs⟩

/-- Reading the state, before the rest. -/
theorem computes_get {Q : δ → γ → σ → Prop} {k : σ → Scratch σ ε γ} {o : Except ε δ}
    (hk : ∀ s, P s → Computes (· = s) (k s) o I Q) : Computes P (get >>= k) o I Q := by
  intro s hs
  have heq : ((get : Scratch σ ε σ) >>= k) s = k s s := by
    rw [Scratch.bind_apply, Scratch.get_apply]
  rw [heq]
  exact hk s hs s rfl

/-- What does not depend on the state is known from there on. -/
theorem computes_assuming {Q : β → α → σ → Prop} {c : Prop} (h : c → Computes P x o I Q) :
    Computes (fun s => c ∧ P s) x o I Q :=
  fun s hs => h hs.1 s hs.2

/-- Of the state after an error, what follows from the error is enough. -/
theorem Computes.of_error {Q : β → α → σ → Prop} {J : σ → Prop} (h : Computes P x o I Q)
    (hJ : ∀ e s, o = .error e → I s → J s) : Computes P x o J Q := by
  intro s hs
  have hx := h s hs
  cases o with
  | error e =>
    obtain ⟨s', hx, hI⟩ := hx
    exact ⟨s', hx, hJ e s' rfl hI⟩
  | ok b => exact hx

/-- Both stop at the same error, or both go on. -/
theorem computes_guard {Q : δ → γ → σ → Prop} {c : Prop} [Decidable c] {e : ε}
    {f : α → Scratch σ ε γ} {g : β → Except ε δ} {x : Scratch σ ε γ} {o : Except ε δ}
    (hstop : c → ∀ s, P s → I s) (hgo : ¬ c → Computes P x o I Q) :
    Computes P (if c then throw e >>= f else x) (if c then throw e >>= g else o) I Q := by
  by_cases hc : c
  · rw [if_pos hc, if_pos hc]
    exact fun s hs => ⟨s, rfl, hstop hc s hs⟩
  · rw [if_neg hc, if_neg hc]
    exact hgo hc

/-- Both take the step, or both leave it out. -/
theorem computes_when {Q : δ → γ → σ → Prop} {c : Prop} [Decidable c] {y : Except ε α}
    {f : α → Scratch σ ε γ} {g : α → Except ε δ} {x : Scratch σ ε γ} {o : Except ε δ}
    (hstop : ∀ s, P s → I s) (hthen : ∀ a, Computes P (f a) (g a) I Q)
    (helse : Computes P x o I Q) :
    Computes P (if c then Scratch.lift y >>= f else x) (if c then y >>= g else o) I Q := by
  by_cases hc : c
  · rw [if_pos hc, if_pos hc]
    refine computes_bind (computes_lift hstop) fun b a => ?_
    rintro s ⟨rfl, hs⟩
    exact hthen a s hs
  · rw [if_neg hc, if_neg hc]
    exact helse

end Rules

end Lib
