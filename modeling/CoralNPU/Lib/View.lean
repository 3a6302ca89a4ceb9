import CoralNPU.Lib.Scratch

namespace Lib

/-!
# Computations seen through a view of their state

A computation may keep more state than another one that does the same otherwise.

* `ViewedAs` — the second computation is the first one, seen through the view: it ends in the same way
  and with the same value, in the view of the state.
* `Preserves` — a computation leaves what is seen alone, also when it fails.

There is one rule for each way in which such computations are put together.
-/

variable {σ τ ε α β : Type}

/-- **Seen through `view`, `x` is `y`.** -/
def ViewedAs (view : σ → τ) (x : Scratch σ ε α) (y : Scratch τ ε α) : Prop :=
  ∀ s, y (view s) = ((x s).1, view (x s).2)

section Rules

variable {view : σ → τ}

/-- An outcome that does not look at the state has itself as a view. -/
theorem viewedAs_lift (o : Except ε α) : ViewedAs view (Scratch.lift o) (Scratch.lift o) := fun _ => rfl

/-- So does a value. -/
theorem viewedAs_pure (a : α) : ViewedAs view (pure a : Scratch σ ε α) (pure a) := fun _ => rfl

/-- Views of two parts, one after the other. -/
theorem viewedAs_bind {x : Scratch σ ε α} {y : Scratch τ ε α} {f : α → Scratch σ ε β}
    {g : α → Scratch τ ε β} (h : ViewedAs view x y) (hf : ∀ a, ViewedAs view (f a) (g a)) :
    ViewedAs view (x >>= f) (y >>= g) := by
  intro s
  rw [Scratch.bind_apply, Scratch.bind_apply, h s]
  rcases x s with ⟨e | a, s'⟩
  · rfl
  · exact hf a s'

/-- A step on the part of the state that is seen. -/
theorem viewedAs_modify {f : σ → σ} {g : τ → τ} (h : ∀ s, view (f s) = g (view s)) :
    ViewedAs view (modify f : Scratch σ ε PUnit) (modify g) := by
  intro s
  show (Except.ok PUnit.unit, g (view s)) = (Except.ok PUnit.unit, view (f s))
  rw [h]

/-- A step on the rest of the state. -/
theorem viewedAs_hidden {f : σ → σ} {k : PUnit → Scratch σ ε β} {y : Scratch τ ε β}
    (hf : ∀ s, view (f s) = view s) (hk : ViewedAs view (k ⟨⟩) y) :
    ViewedAs view (modify f >>= k) y := by
  intro s
  rw [← hf s, hk (f s)]
  rfl

end Rules

/-- What is seen through `view` stays. -/
def Preserves (view : σ → τ) (x : Scratch σ ε α) : Prop := ∀ s, view (x s).2 = view s

section Rules

variable {view : σ → τ}

/-- An outcome leaves the state alone. -/
theorem preserves_lift (o : Except ε α) : Preserves view (Scratch.lift o) := fun _ => rfl

/-- So does a value. -/
theorem preserves_pure (a : α) : Preserves view (pure a : Scratch σ ε α) := fun _ => rfl

/-- An update that keeps the view. -/
theorem preserves_modify {f : σ → σ} (h : ∀ s, view (f s) = view s) :
    Preserves view (modify f : Scratch σ ε PUnit) := h

/-- What comes behind leaves it alone. -/
theorem view_bind {x : Scratch σ ε α} {f : α → Scratch σ ε β}
    (hf : ∀ a, Preserves view (f a)) (s : σ) : view ((x >>= f) s).2 = view (x s).2 := by
  rw [Scratch.bind_apply]
  rcases x s with ⟨e | a, s'⟩
  · rfl
  · exact hf a s'

/-- Two parts that keep the view, one after the other. -/
theorem preserves_bind {x : Scratch σ ε α} {f : α → Scratch σ ε β} (h : Preserves view x)
    (hf : ∀ a, Preserves view (f a)) : Preserves view (x >>= f) :=
  fun s => (view_bind hf s).trans (h s)

end Rules

end Lib
