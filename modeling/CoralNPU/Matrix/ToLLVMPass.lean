import CoralNPU.Lib.Except
import CoralNPU.Matrix.ToLLVM

namespace CoralNPU.Matrix.ToLLVM

open Lib

/-!
# Matrix — the lowering pass on a module

`CoralNPUMatrixToLLVMPass`: the placeholder calls of all functions are lowered, the writebacks first,
and then the declarations are erased.

* `LLVMOp`, `LLVMFuncOp` — a module after the conversion to the LLVM dialect; `ω` are the operations
  that the pass does not look at.
* `lowerCalls`, `runOnOperation` — the pass.
* `lowered`, `runOnOperation_eq_ok` — a run that succeeds.
* `Closed`, `PassResult` — every call has its function, and what a run leaves.
* `runOnOperation_result` — when a run succeeds, and when its result is closed.  The names of the calls
  end their prefix with `.w`, those of the declarations do not.
-/

/-! ### Modules -/

/-- An operation of a function. An intrinsic is over the operands of the call that it replaces. -/
inductive LLVMOp (w : Nat) (ω : Type)
  | call (callOp : CallOp)
  | callIntrinsic (callOp : CallOp) (op : CallIntrinsic w)
  | other (op : ω)
  deriving DecidableEq

/-- `LLVM::LLVMFuncOp`. A declaration has no body. -/
structure LLVMFuncOp (w : Nat) (ω : Type) where
  name : List Char
  body : List (LLVMOp w ω)
  deriving DecidableEq

variable {w : Nat} {ω : Type}

/-- `callee->starts_with("coralnpu.matrix.writeback.w")` -/
def isWriteback (callee : List Char) : Bool :=
  "coralnpu.matrix.writeback.w".toList.isPrefixOf callee

/-- `callee->starts_with("coralnpu.matrix.load.w")` -/
def isLoad (callee : List Char) : Bool := "coralnpu.matrix.load.w".toList.isPrefixOf callee

/-- The functions that are erased: there is no `.w` in these prefixes. -/
def isPlaceholderFunc (name : List Char) : Bool :=
  "coralnpu.matrix.writeback".toList.isPrefixOf name || "coralnpu.matrix.load".toList.isPrefixOf name

/-! ### The pass -/

/-- An operation, with its call lowered if it is one of these. -/
def lowerOp (which : List Char → Bool) : LLVMOp w ω → Except String (List (LLVMOp w ω))
  | .call callOp =>
    if which callOp.callee then do
      let ops ← lowerMatrixMemOp w callOp
      return ops.map (.callIntrinsic callOp)
    else return [.call callOp]
  | op => return [op]

def lowerFunc (which : List Char → Bool) (funcOp : LLVMFuncOp w ω) :
    Except String (LLVMFuncOp w ω) := do
  let bodies ← funcOp.body.mapM (lowerOp which)
  return { funcOp with body := bodies.flatten }

/-- One of the two loops over the calls that were collected. -/
def lowerCalls (which : List Char → Bool) (moduleOp : List (LLVMFuncOp w ω)) :
    Except String (List (LLVMFuncOp w ω)) := moduleOp.mapM (lowerFunc which)

/-- `CoralNPUMatrixToLLVMPass::runOnOperation`. A call that is collected for the first loop is not
    for the second. -/
def runOnOperation (moduleOp : List (LLVMFuncOp w ω)) : Except String (List (LLVMFuncOp w ω)) := do
  let moduleOp ← lowerCalls isWriteback moduleOp
  let moduleOp ← lowerCalls (fun callee => !isWriteback callee && isLoad callee) moduleOp
  return moduleOp.filter fun funcOp => !isPlaceholderFunc funcOp.name

/-! ### A run that succeeds -/

/-- The calls that are lowered. -/
def isPlaceholderCall (callee : List Char) : Bool := isWriteback callee || isLoad callee

/-- The call that an operation is. -/
def LLVMOp.call? : LLVMOp w ω → Option CallOp
  | .call callOp => some callOp
  | _ => none

/-- The calls of a function. -/
def LLVMFuncOp.calls (funcOp : LLVMFuncOp w ω) : List CallOp := funcOp.body.filterMap LLVMOp.call?

theorem LLVMFuncOp.mem_calls {funcOp : LLVMFuncOp w ω} {callOp : CallOp} :
    callOp ∈ funcOp.calls ↔ .call callOp ∈ funcOp.body := by
  rw [calls, List.mem_filterMap]
  constructor
  · rintro ⟨op, hop, heq⟩
    cases op with
    | call callOp' =>
      obtain rfl := Option.some.inj heq
      exact hop
    | callIntrinsic callOp' op => cases heq
    | other op => cases heq
  · exact fun h => ⟨_, h, rfl⟩

/-- What an operation becomes. -/
def loweredOp (which : List Char → Bool) : LLVMOp w ω → List (LLVMOp w ω)
  | .call callOp =>
    if which callOp.callee then
      match lowerMatrixMemOp w callOp with
      | .ok ops => ops.map (.callIntrinsic callOp)
      | .error _ => []
    else [.call callOp]
  | op => [op]

/-- What a function becomes. -/
def lowered (which : List Char → Bool) (funcOp : LLVMFuncOp w ω) : LLVMFuncOp w ω :=
  { funcOp with body := funcOp.body.flatMap (loweredOp which) }

/-- The call can be lowered. -/
def Lowers (w : Nat) (callOp : CallOp) : Prop := ∃ ops, lowerMatrixMemOp w callOp = .ok ops

theorem lowerOp_eq_ok {which : List Char → Bool} {op : LLVMOp w ω}
    (h : ∀ callOp, op = .call callOp → which callOp.callee = true → Lowers w callOp) :
    lowerOp which op = .ok (loweredOp which op) := by
  cases op with
  | call callOp =>
    rw [lowerOp, loweredOp]
    split
    next hwhich =>
      obtain ⟨ops, hops⟩ := h callOp rfl hwhich
      rw [hops]
      rfl
    next => rfl
  | callIntrinsic callOp op => rfl
  | other op => rfl

/-- **One loop** succeeds exactly when all its calls can be lowered. -/
theorem lowerCalls_eq_ok {which : List Char → Bool} {moduleOp result : List (LLVMFuncOp w ω)} :
    lowerCalls which moduleOp = .ok result ↔
      (∀ funcOp ∈ moduleOp, ∀ callOp ∈ funcOp.calls, which callOp.callee = true → Lowers w callOp) ∧
        result = moduleOp.map (lowered which) := by
  have hpure : (∀ funcOp ∈ moduleOp, ∀ callOp ∈ funcOp.calls, which callOp.callee = true →
      Lowers w callOp) → lowerCalls which moduleOp = .ok (moduleOp.map (lowered which)) := by
    refine fun h => mapM_eq_ok_map fun funcOp hfunc => ?_
    have hbody : funcOp.body.mapM (lowerOp which) = .ok (funcOp.body.map (loweredOp which)) := by
      refine mapM_eq_ok_map fun op hop => lowerOp_eq_ok ?_
      rintro callOp rfl
      exact h funcOp hfunc callOp (LLVMFuncOp.mem_calls.mpr hop)
    rw [lowerFunc, hbody, ok_bind, lowered, List.flatMap_def]
    rfl
  constructor
  · intro h
    have hlowers : ∀ funcOp ∈ moduleOp, ∀ callOp ∈ funcOp.calls, which callOp.callee = true →
        Lowers w callOp := by
      intro funcOp hfunc callOp hcall hwhich
      obtain ⟨funcOp', hfunc'⟩ := exists_ok_of_mapM h funcOp hfunc
      obtain ⟨bodies, hbodies, -⟩ := bind_eq_ok.mp hfunc'
      obtain ⟨ops, hops⟩ := exists_ok_of_mapM hbodies _ (LLVMFuncOp.mem_calls.mp hcall)
      rw [lowerOp, if_pos hwhich] at hops
      obtain ⟨intrinsics, hintrinsics, -⟩ := bind_eq_ok.mp hops
      exact ⟨intrinsics, hintrinsics⟩
    exact ⟨hlowers, Except.ok.inj (h.symm.trans (hpure hlowers))⟩
  · rintro ⟨hlowers, rfl⟩
    exact hpure hlowers

/-- Of a call that is lowered no call is left. -/
theorem calls_loweredOp (which : List Char → Bool) (op : LLVMOp w ω) :
    (loweredOp which op).filterMap LLVMOp.call?
      = op.call?.toList.filter fun callOp => !which callOp.callee := by
  cases op with
  | call callOp =>
    rw [loweredOp]
    by_cases hwhich : which callOp.callee = true
    · have hnone : [callOp].filter (fun callOp => !which callOp.callee) = [] :=
        List.filter_cons_of_neg (by simp [hwhich])
      refine Eq.trans ?_ hnone.symm
      rw [if_pos hwhich, List.filterMap_eq_nil_iff]
      cases lowerMatrixMemOp w callOp with
      | error message => exact fun op hop => absurd hop List.not_mem_nil
      | ok ops =>
        intro op hop
        obtain ⟨intrinsic, -, rfl⟩ := List.mem_map.mp hop
        rfl
    · have hkept : [callOp].filter (fun callOp => !which callOp.callee) = [callOp] :=
        List.filter_cons_of_pos (by simp [hwhich])
      rw [if_neg hwhich]
      exact hkept.symm
  | callIntrinsic callOp op => rfl
  | other op => rfl

/-- The calls that are left are those of the other names. -/
theorem calls_lowered (which : List Char → Bool) (funcOp : LLVMFuncOp w ω) :
    (lowered which funcOp).calls = funcOp.calls.filter fun callOp => !which callOp.callee := by
  obtain ⟨name, body⟩ := funcOp
  show (body.flatMap (loweredOp which)).filterMap LLVMOp.call?
    = (body.filterMap LLVMOp.call?).filter _
  induction body with
  | nil => rfl
  | cons op body ih =>
    have hcons : (op :: body).filterMap LLVMOp.call?
        = op.call?.toList ++ body.filterMap LLVMOp.call? := by
      cases op <;> rfl
    rw [List.flatMap_cons, List.filterMap_append, ih, calls_loweredOp, hcons, List.filter_append]

/-! ### The result -/

/-- Every call is of a function of the module. -/
def Closed (moduleOp : List (LLVMFuncOp w ω)) : Prop :=
  ∀ funcOp ∈ moduleOp, ∀ callOp ∈ funcOp.calls, ∃ callee ∈ moduleOp, callee.name = callOp.callee

/-- **What a run leaves** of a module: the functions that are no placeholders, with the intrinsics of a
    call of a placeholder in its place and all other operations in their order. -/
structure PassResult (moduleOp result : List (LLVMFuncOp w ω)) : Prop where
  functions : result = (moduleOp.filter fun funcOp => !isPlaceholderFunc funcOp.name).map
    (lowered isPlaceholderCall)
  /-- It is closed if no function that is left calls an erased one by a name without `.w`. -/
  closed_iff : Closed result ↔ ∀ funcOp ∈ moduleOp, isPlaceholderFunc funcOp.name = false →
    ∀ callOp ∈ funcOp.calls, isPlaceholderFunc callOp.callee = true →
      isPlaceholderCall callOp.callee = true
  /-- So it is if all functions with these prefixes are those that the conversion declares. -/
  closed_of_declared : (∀ funcOp ∈ moduleOp, isPlaceholderFunc funcOp.name = true →
    ∃ load width, funcOp.name = funcName load width) → Closed result

/-- The names that are declared are lowered. -/
theorem isPlaceholderCall_funcName (load : Bool) (width : Nat) :
    isPlaceholderCall (funcName load width) = true := by
  rw [isPlaceholderCall, Bool.or_eq_true, isWriteback, isLoad, List.isPrefixOf_iff_prefix,
    List.isPrefixOf_iff_prefix]
  cases load with
  | true => exact .inr (List.prefix_append _ _)
  | false => exact .inl (List.prefix_append _ _)

/-- The second loop has the calls that are loads and no writebacks. -/
def isLoadOnly (callee : List Char) : Bool := !isWriteback callee && isLoad callee

/-- What both loops make of an operation: the second one leaves the intrinsics of the first. -/
theorem flatMap_loweredOp (op : LLVMOp w ω) :
    (loweredOp isWriteback op).flatMap (loweredOp isLoadOnly) = loweredOp isPlaceholderCall op := by
  cases op with
  | call callOp =>
    rw [loweredOp, loweredOp, isPlaceholderCall]
    cases hwriteback : isWriteback callOp.callee with
    | true =>
      simp only [if_true, Bool.true_or]
      cases lowerMatrixMemOp w callOp with
      | error message => rfl
      | ok ops =>
        show (ops.map _).flatMap _ = ops.map _
        rw [List.flatMap_map]
        exact List.map_eq_flatMap.symm
    | false =>
      simp only [Bool.false_eq_true, if_false, Bool.false_or]
      rw [List.flatMap_singleton, loweredOp, isLoadOnly, hwriteback, Bool.not_false, Bool.true_and]
  | callIntrinsic callOp op => rfl
  | other op => rfl

/-- **Both loops** lower the calls of placeholders where they stand. -/
theorem lowered_lowered (funcOp : LLVMFuncOp w ω) :
    lowered isLoadOnly (lowered isWriteback funcOp) = lowered isPlaceholderCall funcOp := by
  unfold lowered
  simp only [List.flatMap_assoc, flatMap_loweredOp]

/-- **A run** succeeds exactly when all placeholder calls can be lowered. -/
theorem runOnOperation_eq_ok {moduleOp result : List (LLVMFuncOp w ω)} :
    runOnOperation moduleOp = .ok result ↔
      (∀ funcOp ∈ moduleOp, ∀ callOp ∈ funcOp.calls, isPlaceholderCall callOp.callee = true →
        Lowers w callOp) ∧
      result = (moduleOp.filter fun funcOp => !isPlaceholderFunc funcOp.name).map
        (lowered isPlaceholderCall) := by
  have hresult : ((moduleOp.map (lowered isWriteback)).map (lowered isLoadOnly)).filter
        (fun funcOp => !isPlaceholderFunc funcOp.name)
      = (moduleOp.filter fun funcOp => !isPlaceholderFunc funcOp.name).map
          (lowered isPlaceholderCall) := by
    rw [List.map_map, List.filter_map, ← funext lowered_lowered]
    rfl
  rw [runOnOperation, bind_eq_ok]
  constructor
  · rintro ⟨first, hfirst, h⟩
    obtain ⟨hwritebacks, rfl⟩ := lowerCalls_eq_ok.mp hfirst
    obtain ⟨second, hsecond, h⟩ := bind_eq_ok.mp h
    obtain ⟨hloads, rfl⟩ := lowerCalls_eq_ok.mp hsecond
    refine ⟨fun funcOp hfunc callOp hcall hplaceholder => ?_, (Except.ok.inj h).symm.trans hresult⟩
    by_cases hwriteback : isWriteback callOp.callee = true
    · exact hwritebacks funcOp hfunc callOp hcall hwriteback
    · have hload : isLoad callOp.callee = true := by
        rw [isPlaceholderCall, Bool.or_eq_true] at hplaceholder
        exact hplaceholder.resolve_left hwriteback
      refine hloads _ (List.mem_map_of_mem hfunc) callOp ?_ (by simp [hwriteback, hload])
      rw [calls_lowered]
      exact List.mem_filter.mpr ⟨hcall, by simp [hwriteback]⟩
  · rintro ⟨hlowers, rfl⟩
    refine ⟨_, lowerCalls_eq_ok.mpr ⟨fun funcOp hfunc callOp hcall hwriteback => ?_, rfl⟩,
      bind_eq_ok.mpr ⟨_, lowerCalls_eq_ok.mpr ⟨fun funcOp hfunc callOp hcall hload => ?_, rfl⟩,
        congrArg _ hresult⟩⟩
    · exact hlowers funcOp hfunc callOp hcall (by rw [isPlaceholderCall, hwriteback, Bool.true_or])
    · obtain ⟨funcOp', hfunc', rfl⟩ := List.mem_map.mp hfunc
      rw [calls_lowered] at hcall
      refine hlowers funcOp' hfunc' callOp (List.mem_of_mem_filter hcall) ?_
      rw [isPlaceholderCall, (Bool.and_eq_true_iff.mp hload).2, Bool.or_true]

theorem mem_kept {moduleOp : List (LLVMFuncOp w ω)} {funcOp : LLVMFuncOp w ω} :
    (funcOp ∈ moduleOp.filter fun funcOp => !isPlaceholderFunc funcOp.name) ↔
      funcOp ∈ moduleOp ∧ isPlaceholderFunc funcOp.name = false := by
  rw [List.mem_filter, Bool.not_eq_true']

/-- A call that is left has its function among those that are left. -/
theorem closed_lowered_iff {moduleOp : List (LLVMFuncOp w ω)} (hclosed : Closed moduleOp) :
    Closed ((moduleOp.filter fun funcOp => !isPlaceholderFunc funcOp.name).map
        (lowered isPlaceholderCall)) ↔
      ∀ funcOp ∈ moduleOp, isPlaceholderFunc funcOp.name = false → ∀ callOp ∈ funcOp.calls,
        isPlaceholderFunc callOp.callee = true → isPlaceholderCall callOp.callee = true := by
  constructor
  · intro hresult funcOp hfunc hkept callOp hcall hplaceholder
    by_contra hother
    obtain ⟨callee, hcallee, hname⟩ := hresult (lowered isPlaceholderCall funcOp)
      (List.mem_map_of_mem (mem_kept.mpr ⟨hfunc, hkept⟩)) callOp (by
        rw [calls_lowered]
        exact List.mem_filter.mpr ⟨hcall, by simp [hother]⟩)
    obtain ⟨callee', hcallee', rfl⟩ := List.mem_map.mp hcallee
    have hfalse := (mem_kept.mp hcallee').2
    replace hname : callee'.name = callOp.callee := hname
    rw [hname, hplaceholder] at hfalse
    cases hfalse
  · intro hwritten funcOp' hfunc' callOp hcall
    obtain ⟨funcOp, hfunc, rfl⟩ := List.mem_map.mp hfunc'
    obtain ⟨hfunc, hkept⟩ := mem_kept.mp hfunc
    rw [calls_lowered, List.mem_filter, Bool.not_eq_true'] at hcall
    obtain ⟨callee, hcallee, hname⟩ := hclosed funcOp hfunc callOp hcall.1
    refine ⟨lowered isPlaceholderCall callee, List.mem_map_of_mem (mem_kept.mpr ⟨hcallee, ?_⟩), hname⟩
    rw [hname, ← Bool.not_eq_true]
    intro hplaceholder
    rw [hwritten funcOp hfunc hkept callOp hcall.1 hplaceholder] at hcall
    cases hcall.2

/-- **The pass on a module** in which every call has its function. -/
theorem runOnOperation_result {moduleOp : List (LLVMFuncOp w ω)} (hclosed : Closed moduleOp) :
    ((∃ result, runOnOperation moduleOp = .ok result) ↔ ∀ funcOp ∈ moduleOp, ∀ callOp ∈ funcOp.calls,
      isPlaceholderCall callOp.callee = true → Lowers w callOp) ∧
    ∀ result, runOnOperation moduleOp = .ok result → PassResult moduleOp result := by
  refine ⟨⟨fun ⟨result, h⟩ => (runOnOperation_eq_ok.mp h).1,
    fun h => ⟨_, runOnOperation_eq_ok.mpr ⟨h, rfl⟩⟩⟩, fun result h => ?_⟩
  obtain ⟨-, rfl⟩ := runOnOperation_eq_ok.mp h
  refine ⟨rfl, closed_lowered_iff hclosed, fun hdeclared => ?_⟩
  refine (closed_lowered_iff hclosed).mpr fun funcOp hfunc _ callOp hcall hplaceholder => ?_
  obtain ⟨callee, hcallee, hname⟩ := hclosed funcOp hfunc callOp hcall
  obtain ⟨load, width, hfuncName⟩ := hdeclared callee hcallee (hname ▸ hplaceholder)
  rw [← hname, hfuncName]
  exact isPlaceholderCall_funcName load width

/-- A function that loads a tile and writes it back. -/
def tileCopy : List (LLVMFuncOp 64 Unit) :=
  [⟨"main".toList, [.call ⟨funcName true 32, List.replicate 10 none⟩, .other (),
      .call ⟨funcName false 32, List.replicate 10 none⟩]⟩,
    ⟨funcName true 32, []⟩, ⟨funcName false 32, []⟩]

theorem tileCopy_result : ∃ result, runOnOperation tileCopy = .ok result ∧ Closed result := by
  have hclosed : Closed tileCopy := by
    unfold Closed
    decide
  have hcalls : ∀ funcOp ∈ tileCopy, ∀ callOp ∈ funcOp.calls, ∃ load, callOp.callee = funcName load 32 ∧
      callOp.operands = List.replicate 10 none := by decide
  have hdeclared : ∀ funcOp ∈ tileCopy, isPlaceholderFunc funcOp.name = true →
      ∃ load, funcOp.name = funcName load 32 := by decide
  obtain ⟨hruns, hresult⟩ := runOnOperation_result hclosed
  obtain ⟨result, hrun⟩ := hruns.mpr fun funcOp hfunc callOp hcall _ => by
    obtain ⟨callee, operands⟩ := callOp
    obtain ⟨load, hcallee, hoperands⟩ := hcalls funcOp hfunc _ hcall
    obtain rfl : callee = _ := hcallee
    obtain rfl : operands = _ := hoperands
    exact ⟨_, lowerMatrixMemOp_eq 64 load 32 rfl⟩
  refine ⟨result, hrun, (hresult result hrun).closed_of_declared fun funcOp hfunc hname => ?_⟩
  obtain ⟨load, hload⟩ := hdeclared funcOp hfunc hname
  exact ⟨load, 32, hload⟩

end CoralNPU.Matrix.ToLLVM
