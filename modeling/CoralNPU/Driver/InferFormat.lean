import CoralNPU.Lib.Loop

namespace CoralNPU.Driver

open Lib

/-!
# Inferring the format of an executable

The executable cache asks its loaders whether they recognise a file.

* `Loader` — a loader, by what its `infer_format` returns and writes to the outputs.
* `inferFormat` — the loop of the cache over its loaders, with a count of the calls it makes.
* `Skipped`, `InfersInOrder` — the loaders are asked in order until one is not incompatible.
* `infersInOrder_iff` — the cache does so exactly when its first loader recognises the file:
  the loop tests `status`, which is OK before the first call, and not `infer_status`.
-/

variable {ε : Type}

/-! ### Loaders -/

/-- The status of an `infer_format`. -/
inductive InferStatus (ε : Type)
  | ok
  | incompatible
  | failed (error : ε)
  deriving DecidableEq

/-- `iree_status_is_ok` -/
def InferStatus.isOk : InferStatus ε → Bool
  | .ok => true
  | _ => false

/-- `iree_status_is_incompatible` -/
def InferStatus.isIncompatible : InferStatus ε → Bool
  | .incompatible => true
  | _ => false

/-- The arguments that every loader is given. -/
structure InferArgs where
  cachingMode : UInt32
  executableData : List UInt8
  executableFormatCapacity : Nat

/-- `executable_format` and `out_inferred_size`, which the loaders write. -/
structure InferOutput where
  executableFormat : List UInt8
  inferredSize : Nat
  deriving DecidableEq

/-- `iree_hal_executable_loader_t`: its `infer_format`, from the outputs before the call to the
    status and the outputs after it. -/
structure Loader (ε : Type) where
  inferFormat : InferArgs → InferOutput → InferStatus ε × InferOutput

/-! ### The loop of the cache -/

/-- The local `status`, the outputs, and the number of loaders that have been asked. -/
structure InferRun (ε : Type) where
  status : InferStatus ε
  output : InferOutput
  asked : Nat
  deriving DecidableEq

/-- A pass of the loop of `iree_hal_coralnpu_executable_cache_infer_format`. -/
def inferStep (args : InferArgs) (loader : Loader ε) (run : InferRun ε) :
    Flow (InferRun ε) :=
  let (inferStatus, output) := loader.inferFormat args run.output
  let asked := run.asked + 1
  -- the accumulated status, not that of this loader
  if run.status.isOk then .leave ⟨.ok, output, asked⟩
  else if inferStatus.isIncompatible then .next ⟨.incompatible, output, asked⟩
  else .leave ⟨inferStatus, output, asked⟩

/-- `iree_hal_coralnpu_executable_cache_infer_format` -/
def inferFormat (args : InferArgs) (loaders : List (Loader ε)) (output : InferOutput) :
    InferRun ε :=
  loop (inferStep args) loaders ⟨.ok, output, 0⟩

/-! ### Asking in order -/

/-- The loaders are asked one after the other, and all of them are incompatible. -/
inductive Skipped (args : InferArgs) : List (Loader ε) → InferOutput → InferOutput → Prop
  | nil (output : InferOutput) : Skipped args [] output output
  | cons {loader : Loader ε} {loaders : List (Loader ε)} {output output' output'' : InferOutput}
      (head : loader.inferFormat args output = (.incompatible, output'))
      (tail : Skipped args loaders output' output'') :
      Skipped args (loader :: loaders) output output''

/-- `loader` is asked after `before` and returns `status`; what it leaves is in `output'`. -/
def Decides (args : InferArgs) (before : List (Loader ε)) (loader : Loader ε)
    (output : InferOutput) (status : InferStatus ε) (output' : InferOutput) : Prop :=
  ∃ mid, Skipped args before output mid ∧ loader.inferFormat args mid = (status, output')

/-- **The loaders are asked in order until one recognises the data** or fails, and none after
    it. -/
structure InfersInOrder (args : InferArgs) (loaders : List (Loader ε)) (output : InferOutput)
    (run : InferRun ε) : Prop where
  ok_iff : run.status = .ok ↔ ∃ before loader after output', loaders = before ++ loader :: after ∧
    Decides args before loader output .ok output'
  /-- The outputs are those of the loader that recognises the data. -/
  recognised : ∀ before loader after output', loaders = before ++ loader :: after →
    Decides args before loader output .ok output' →
    run.output = output' ∧ run.asked = before.length + 1
  failed : ∀ before loader after error output', loaders = before ++ loader :: after →
    Decides args before loader output (.failed error) output' →
    run.status = .failed error ∧ run.asked = before.length + 1
  incompatible : ∀ output', loaders ≠ [] → Skipped args loaders output output' →
    run.status = .incompatible ∧ run.asked = loaders.length

/-- The first loader recognises the data. -/
def FirstRecognises (args : InferArgs) (loaders : List (Loader ε)) (output : InferOutput) :
    Prop :=
  ∃ loader rest output', loaders = loader :: rest ∧
    loader.inferFormat args output = (.ok, output')

/-! ### What the loop does -/

section

variable (args : InferArgs) (output : InferOutput)

/-- **The loop asks the first loader only,** and reports success whatever it says. -/
theorem inferFormat_cons (loader : Loader ε) (rest : List (Loader ε)) :
    inferFormat args (loader :: rest) output
      = ⟨.ok, (loader.inferFormat args output).2, 1⟩ := by
  rw [inferFormat, loop]
  rfl

theorem inferFormat_status (loaders : List (Loader ε)) :
    (inferFormat args loaders output).status = .ok := by
  cases loaders with
  | nil => rfl
  | cons loader rest => rw [inferFormat_cons]

end

/-- A list of loaders that starts with one that is not incompatible has no other that
    decides. -/
theorem Decides.first {args : InferArgs} {first loader : Loader ε}
    {rest before after : List (Loader ε)} {output output₁ output' : InferOutput}
    {status status₁ : InferStatus ε} (hfirst : first.inferFormat args output = (status₁, output₁))
    (hstatus : status₁ ≠ .incompatible) (hsplit : first :: rest = before ++ loader :: after)
    (h : Decides args before loader output status output') :
    before = [] ∧ status = status₁ ∧ output' = output₁ := by
  obtain ⟨mid, hskipped, hloader⟩ := h
  cases hskipped with
  | nil =>
    obtain ⟨rfl, -⟩ := List.cons.inj hsplit
    rw [hfirst] at hloader
    obtain ⟨rfl, rfl⟩ := Prod.mk.inj hloader
    exact ⟨rfl, rfl, rfl⟩
  | cons head tail =>
    obtain ⟨rfl, -⟩ := List.cons.inj hsplit
    rw [hfirst] at head
    exact absurd (Prod.mk.inj head).1 hstatus

/-- **Format inference asks the loaders in order exactly when** the first of them recognises the
    data. -/
theorem infersInOrder_iff (args : InferArgs) (loaders : List (Loader ε))
    (output : InferOutput) :
    InfersInOrder args loaders output (inferFormat args loaders output) ↔
      FirstRecognises args loaders output := by
  constructor
  · intro h
    -- the loop reports success, so some loader recognises the data
    obtain ⟨before, loader, after, output', rfl, hdecides⟩ :=
      h.ok_iff.mp (inferFormat_status args output loaders)
    have hasked := (h.recognised before loader after output' rfl hdecides).2
    cases before with
    | nil =>
      obtain ⟨mid, hskipped, hloader⟩ := hdecides
      cases hskipped
      exact ⟨loader, after, output', rfl, hloader⟩
    | cons first before =>
      -- only one loader is asked
      rw [List.cons_append, inferFormat_cons] at hasked
      simp at hasked
  · rintro ⟨loader, rest, output', rfl, hloader⟩
    have hrun : inferFormat args (loader :: rest) output = ⟨.ok, output', 1⟩ := by
      rw [inferFormat_cons, hloader]
    rw [hrun]
    refine ⟨iff_of_true rfl ⟨[], loader, rest, output', rfl, output, .nil output, hloader⟩,
      ?_, ?_, ?_⟩
    · intro before loader' after output'' hsplit hdecides
      obtain ⟨rfl, -, rfl⟩ := hdecides.first hloader (by simp) hsplit
      exact ⟨rfl, rfl⟩
    · intro before loader' after error output'' hsplit hdecides
      obtain ⟨-, herror, -⟩ := hdecides.first hloader (by simp) hsplit
      cases herror
    · intro output'' _ hskipped
      cases hskipped with
      | cons head tail =>
        rw [hloader] at head
        cases head

/-- A loader that does not know the format. -/
def incompatibleLoader : Loader Nat where
  inferFormat := fun _ output => (.incompatible, output)

/-- The only loader is incompatible, and the cache reports that it inferred the format. -/
theorem incompatibleLoader_ok :
    (inferFormat ⟨0, [], 16⟩ [incompatibleLoader] ⟨[], 0⟩).status = .ok ∧
      ¬ InfersInOrder ⟨0, [], 16⟩ [incompatibleLoader] ⟨[], 0⟩
        (inferFormat ⟨0, [], 16⟩ [incompatibleLoader] ⟨[], 0⟩) := by
  refine ⟨rfl, fun h => ?_⟩
  have hskipped : Skipped ⟨0, [], 16⟩ [incompatibleLoader] ⟨[], 0⟩ ⟨[], 0⟩ :=
    .cons rfl (.nil _)
  have hstatus := (h.incompatible _ (by simp) hskipped).1
  cases hstatus

end CoralNPU.Driver
