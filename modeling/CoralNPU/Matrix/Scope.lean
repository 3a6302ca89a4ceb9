import CoralNPU.Lib.Assoc
import CoralNPU.Matrix.Semantics

namespace CoralNPU.Matrix

open Lib

/-!
# Matrix — scopes

* `opResults`, `blockResults` — the values that an operation and a block bind;
  `evalOps_frame` — every other value stays what it is.
* `ScopedOps` — every operand is in scope; `evalOps_isSome` — such a block has an execution, and
  `scopedOps_of_eval` — where every loop runs, no other block has one.
* `ArityOps` — the lists of values of a loop have one length.
-/

variable {Val Mem : Type} {I : Interp Val Mem}

/-! ### Results -/

/-- The values that an operation binds in the block it stands in. -/
def opResults : Op → List ValueId
  | .leaf op => op.results
  | .loop h _ => h.results

/-- The values that a block binds. -/
def blockResults (ops : List Op) : List ValueId := ops.flatMap opResults

/-- An empty block has no results. -/
@[simp] theorem blockResults_nil : blockResults [] = [] := rfl

/-- The results of a block, by its first operation. -/
@[simp] theorem blockResults_cons (op : Op) (ops : List Op) :
    blockResults (op :: ops) = opResults op ++ blockResults ops := rfl

/-- An empty block defines nothing. -/
@[simp] theorem definedIds_nil : definedIds [] = [] := by simp [definedIds, defsOps]

/-- The values that a block defines, by its first operation. -/
theorem definedIds_cons (op : Op) (ops : List Op) :
    definedIds (op :: ops) = definedIds [op] ++ definedIds ops := by
  simp [definedIds, defsOps]

/-- Two blocks, one after the other. -/
theorem definedIds_append (ops ops' : List Op) :
    definedIds (ops ++ ops') = definedIds ops ++ definedIds ops' := by
  induction ops with
  | nil => rw [definedIds_nil, List.nil_append, List.nil_append]
  | cons op ops ih =>
    rw [List.cons_append, definedIds_cons, ih, definedIds_cons op ops, List.append_assoc]

/-- An operation without a body defines its results. -/
@[simp] theorem definedIds_leaf (op : Leaf) : definedIds [.leaf op] = op.results := by
  simp [definedIds, defsOps, defsOp, Function.comp_def]

/-- A loop defines its arguments, what its body defines, and its results. -/
@[simp] theorem definedIds_loop (h : LoopHeader) (body : List Op) :
    definedIds [.loop h body] = h.blockArgs ++ (definedIds body ++ h.results) := by
  simp [definedIds, defsOps, defsOp, Function.comp_def]

/-- The results of an operation are defined by it. -/
theorem mem_definedIds_of_opResults {op : Op} {v : ValueId} (h : v ∈ opResults op) :
    v ∈ definedIds [op] := by
  cases op with
  | leaf op => rwa [definedIds_leaf]
  | loop header body =>
    rw [definedIds_loop]
    exact List.mem_append_right _ (List.mem_append_right _ h)

/-- The results of the operations of a block are defined by it. -/
theorem mem_definedIds_of_blockResults {ops : List Op} {v : ValueId} (h : v ∈ blockResults ops) :
    v ∈ definedIds ops := by
  induction ops with
  | nil => cases h
  | cons op ops ih =>
    rw [definedIds_cons, List.mem_append]
    rw [blockResults_cons, List.mem_append] at h
    exact h.imp mem_definedIds_of_opResults ih

/-! ### Environments -/

namespace Env

variable {env : Env Val} {names : List ValueId} {vals : Nat → Option Val} {v : ValueId}

/-- Binding leaves the other names alone. -/
theorem bind_of_not_mem (h : v ∉ names) : env.bind names vals v = env v := by
  rw [bind, List.idxOf?_eq_none_iff.mpr h]

/-- A bound name has one of the values. -/
theorem bind_of_mem (env : Env Val) (vals : Nat → Option Val) (h : v ∈ names) :
    ∃ k < names.length, env.bind names vals v = vals k := by
  cases hk : names.idxOf? v with
  | none => exact absurd h (List.idxOf?_eq_none_iff.mp hk)
  | some k =>
    refine ⟨k, ?_, by rw [bind, hk]⟩
    obtain ⟨hlt, -⟩ := List.findIdx?_eq_some_iff_getElem.mp hk
    exact hlt

end Env

/-! ### What an execution keeps -/

/-- **An operation changes its own results only.** -/
theorem evalOp_frame {op : Op} {env env₁ : Env Val} {st st₁ : State Val Mem}
    (h : evalOp I op env st = some (env₁, st₁)) {v : ValueId} (hv : v ∉ opResults op) :
    env₁ v = env v := by
  cases op with
  | leaf op =>
    obtain ⟨vals, -, heq⟩ := evalOp_leaf.mp h
    obtain ⟨rfl, -⟩ := Prod.mk.inj heq
    exact Env.bind_of_not_mem hv
  | loop header body =>
    obtain ⟨_, _, _, _, _, _, -, -, -, -, -, heq⟩ := evalOp_loop.mp h
    obtain ⟨rfl, -⟩ := Prod.mk.inj heq
    exact Env.bind_of_not_mem hv

/-- **What a block does not bind stays what it is.** -/
theorem evalOps_frame {ops : List Op} {v : ValueId} :
    ∀ {env env₁ : Env Val} {st st₁ : State Val Mem}, evalOps I ops env st = some (env₁, st₁) →
      v ∉ blockResults ops → env₁ v = env v := by
  induction ops with
  | nil =>
    intro env env₁ st st₁ h _
    rw [evalOps_nil] at h
    obtain ⟨rfl, -⟩ := Prod.mk.inj (Option.some.inj h)
    rfl
  | cons op ops ih =>
    intro env env₁ st st₁ h hv
    rw [blockResults_cons, List.mem_append, not_or] at hv
    obtain ⟨env₂, st₂, hop, hops⟩ := evalOps_cons.mp h
    rw [ih hops hv.2, evalOp_frame hop hv.1]

/-! ### Scopes -/

mutual

/-- Every operand of the operation is in scope. -/
def ScopedOp (scope : List ValueId) : Op → Prop
  | .leaf op => ∀ v ∈ op.operands, v ∈ scope
  | .loop h body => (∀ v ∈ h.operands, v ∈ scope) ∧ ScopedOps (h.blockArgs ++ scope) body ∧
      ∀ v ∈ h.yields, v ∈ blockResults body ++ (h.blockArgs ++ scope)

/-- Every operand of the block is in scope: in `scope`, or bound before it. -/
def ScopedOps (scope : List ValueId) : List Op → Prop
  | [] => True
  | op :: ops => ScopedOp scope op ∧ ScopedOps (opResults op ++ scope) ops

end

mutual

/-- The lists of values of a loop have one length. -/
def ArityOp : Op → Prop
  | .leaf _ => True
  | .loop h body => h.inits.length = h.args.length ∧ h.yields.length = h.args.length ∧
      h.results.length = h.args.length ∧ ArityOps body

/-- See `ArityOp`. -/
def ArityOps : List Op → Prop
  | [] => True
  | op :: ops => ArityOp op ∧ ArityOps ops

end

mutual

/-- A scope may be replaced by one that has the values in use. -/
theorem ScopedOp.of_uses {scope scope' : List ValueId} :
    ∀ op : Op, ScopedOp scope op → (∀ v ∈ usesOp op, v ∈ scope → v ∈ scope') → ScopedOp scope' op
  | .leaf op, h, huses => by
    rw [ScopedOp] at h ⊢
    rw [usesOp] at huses
    exact fun v hv => huses v hv (h v hv)
  | .loop header body, h, huses => by
    rw [ScopedOp] at h ⊢
    rw [usesOp] at huses
    obtain ⟨hoperands, hbody, hyields⟩ := h
    refine ⟨fun v hv => ?_, ScopedOps.of_uses body hbody fun v hv hmem => ?_, fun v hv => ?_⟩
    · exact huses v (List.mem_append_left _ (List.mem_append_left _ hv)) (hoperands v hv)
    · have := huses v (List.mem_append_left _ (List.mem_append_right _ hv))
      rw [List.mem_append] at hmem ⊢
      exact hmem.imp_right this
    · have := huses v (List.mem_append_right _ hv)
      have hmem := hyields v hv
      simp only [List.mem_append] at hmem ⊢
      tauto

/-- **A smaller scope**, with the values that are used. -/
theorem ScopedOps.of_uses {scope scope' : List ValueId} :
    ∀ ops : List Op, ScopedOps scope ops → (∀ v ∈ usesOps ops, v ∈ scope → v ∈ scope') →
      ScopedOps scope' ops
  | [], _, _ => by rw [ScopedOps]; trivial
  | op :: ops, h, huses => by
    rw [ScopedOps] at h ⊢
    rw [usesOps] at huses
    refine ⟨ScopedOp.of_uses op h.1 fun v hv => huses v (List.mem_append_left _ hv),
      ScopedOps.of_uses ops h.2 fun v hv hmem => ?_⟩
    have := huses v (List.mem_append_right _ hv)
    rw [List.mem_append] at hmem ⊢
    exact hmem.imp_right this

end

mutual

/-- What an operation uses is in scope, or defined inside of it. -/
theorem mem_of_scopedOp {scope : List ValueId} :
    ∀ op : Op, ScopedOp scope op → ∀ v ∈ usesOp op, v ∈ scope ∨ v ∈ definedIds [op]
  | .leaf op, h, v, hv => by
    rw [ScopedOp] at h
    rw [usesOp] at hv
    exact .inl (h v hv)
  | .loop header body, h, v, hv => by
    rw [ScopedOp] at h
    obtain ⟨hoperands, hbody, hyields⟩ := h
    rw [usesOp] at hv
    rw [definedIds_loop]
    simp only [List.mem_append] at hv hyields ⊢
    rcases hv with (hv | hv) | hv
    · exact .inl (hoperands v hv)
    · have := mem_of_scopedOps body hbody v hv
      rw [List.mem_append] at this
      tauto
    · have := hyields v hv
      have hresult : v ∈ blockResults body → v ∈ definedIds body := mem_definedIds_of_blockResults
      tauto

/-- Every operand of a block is in scope or defined in the block. -/
theorem mem_of_scopedOps {scope : List ValueId} :
    ∀ ops : List Op, ScopedOps scope ops → ∀ v ∈ usesOps ops, v ∈ scope ∨ v ∈ definedIds ops
  | [], _, v, hv => by
    rw [usesOps] at hv
    cases hv
  | op :: ops, h, v, hv => by
    rw [ScopedOps] at h
    rw [usesOps] at hv
    rw [definedIds_cons, List.mem_append]
    rcases List.mem_append.mp hv with hv | hv
    · exact (mem_of_scopedOp op h.1 v hv).imp_right .inl
    · rcases mem_of_scopedOps ops h.2 v hv with hmem | hmem
      · rcases List.mem_append.mp hmem with hmem | hmem
        · exact .inr (.inl (mem_definedIds_of_opResults hmem))
        · exact .inl hmem
      · exact .inr (.inr hmem)

end

/-! ### Blocks with an execution -/

/-- The iterations of a loop whose body has an execution in every environment of an iteration. -/
theorem evalLoop_isSome {body : Env Val → State Val Mem → Option (Env Val × State Val Mem)}
    {h : LoopHeader} {env : Env Val} (iv : Nat → Val) (n : Nat) :
    ∀ (k : Nat) {vals : List Val} (st : State Val Mem), vals.length = h.args.length →
      (∀ iv vals st, vals.length = h.args.length →
        ∃ env₁ st₁ vals₁, body (h.bindArgs env iv vals) st = some (env₁, st₁) ∧
          h.yields.mapM env₁ = some vals₁ ∧ vals₁.length = h.args.length) →
      ∃ vals₁ st₁, evalLoop body h env iv n k vals st = some (vals₁, st₁) ∧
        vals₁.length = h.args.length := by
  induction n with
  | zero => exact fun _ _ _ hlength _ => ⟨_, _, rfl, hlength⟩
  | succ n ih =>
    intro k vals st hlength hbody
    obtain ⟨env₁, st₁, vals₁, h₁, hyields, hlength₁⟩ := hbody (iv k) vals st hlength
    obtain ⟨vals₂, st₂, h₂, hlength₂⟩ := ih (k + 1) st₁ hlength₁ hbody
    exact ⟨vals₂, st₂, evalLoop_succ.mpr ⟨env₁, st₁, vals₁, h₁, hyields, h₂⟩, hlength₂⟩

/-- The environment of an iteration has a value for every block argument. -/
theorem bindArgs_isSome {h : LoopHeader} {env : Env Val} (iv : Val) {vals : List Val}
    (hlength : vals.length = h.args.length) {scope : List ValueId}
    (henv : ∀ v ∈ scope, (env v).isSome) :
    ∀ v ∈ h.blockArgs ++ scope, (h.bindArgs env iv vals v).isSome := by
  intro v hv
  by_cases hmem : v ∈ h.blockArgs
  · obtain ⟨k, hk, heq⟩ := Env.bind_of_mem env (fun k => (iv :: vals)[k]?) hmem
    rw [LoopHeader.bindArgs, heq, isSome_getElem?]
    rw [LoopHeader.blockArgs, List.length_cons] at hk
    rw [List.length_cons]
    omega
  · rw [LoopHeader.bindArgs, Env.bind_of_not_mem hmem]
    exact henv v ((List.mem_append.mp hv).resolve_left hmem)

mutual

/-- **An operation in scope has a result**, if the values in scope do. -/
theorem evalOp_isSome {scope : List ValueId} :
    ∀ (op : Op) {env : Env Val}, ScopedOp scope op → ArityOp op →
      (∀ v ∈ scope, (env v).isSome) → ∀ st : State Val Mem,
      ∃ env₁ st₁, evalOp I op env st = some (env₁, st₁) ∧
        ∀ v ∈ opResults op ++ scope, (env₁ v).isSome
  | .leaf op, env, hscoped, _, henv, st => by
    rw [ScopedOp] at hscoped
    obtain ⟨vals, hvals⟩ := exists_mapM_eq_some fun v hv => henv v (hscoped v hv)
    refine ⟨_, _, evalOp_leaf.mpr ⟨vals, hvals, rfl⟩, fun v hv => ?_⟩
    by_cases hmem : v ∈ op.results
    · obtain ⟨k, -, heq⟩ := Env.bind_of_mem env
        (fun k => some (I.result op vals st.mem k)) hmem
      rw [heq]
      rfl
    · rw [Env.bind_of_not_mem hmem]
      exact henv v ((List.mem_append.mp hv).resolve_left hmem)
  | .loop h body, env, hscoped, harity, henv, st => by
    rw [ScopedOp] at hscoped
    rw [ArityOp] at harity
    obtain ⟨hoperands, hbody, hyields⟩ := hscoped
    obtain ⟨hinits, hyieldsLength, hresults, harity⟩ := harity
    have hoperand : ∀ v ∈ h.operands, (env v).isSome := fun v hv => henv v (hoperands v hv)
    obtain ⟨lb, hlb⟩ := Option.isSome_iff_exists.mp (hoperand h.lowerBound (by simp [LoopHeader.operands]))
    obtain ⟨ub, hub⟩ := Option.isSome_iff_exists.mp (hoperand h.upperBound (by simp [LoopHeader.operands]))
    obtain ⟨step, hstep⟩ := Option.isSome_iff_exists.mp (hoperand h.step (by simp [LoopHeader.operands]))
    have hinit : ∀ v ∈ h.inits, (env v).isSome :=
      fun v hv => hoperand v (by simp [LoopHeader.operands, hv])
    obtain ⟨vals, hvals⟩ := exists_mapM_eq_some hinit
    have hlength : vals.length = h.args.length := by
      rw [(exists_of_mapM_eq_some hvals).1, hinits]
    have hiteration : ∀ iv vals st, vals.length = h.args.length →
        ∃ env₁ st₁ vals₁, evalOps I body (h.bindArgs env iv vals) st = some (env₁, st₁) ∧
          h.yields.mapM env₁ = some vals₁ ∧ vals₁.length = h.args.length := by
      intro iv vals st hlength
      obtain ⟨env₁, st₁, h₁, henv₁⟩ :=
        evalOps_isSome body hbody harity (bindArgs_isSome iv hlength henv) st
      obtain ⟨vals₁, hvals₁⟩ := exists_mapM_eq_some fun v hv => henv₁ v (hyields v hv)
      exact ⟨env₁, st₁, vals₁, h₁, hvals₁, (exists_of_mapM_eq_some hvals₁).1.trans hyieldsLength⟩
    obtain ⟨vals₁, st₁, hloop, hlength₁⟩ := evalLoop_isSome (I.induction lb step)
      (I.tripCount lb ub step) 0 st hlength hiteration
    refine ⟨_, _, evalOp_loop.mpr ⟨lb, ub, step, vals, vals₁, st₁, hlb, hub, hstep, hvals, hloop, rfl⟩,
      fun v hv => ?_⟩
    by_cases hmem : v ∈ h.results
    · obtain ⟨k, hk, heq⟩ := Env.bind_of_mem env (fun k => vals₁[k]?) hmem
      rw [heq, isSome_getElem?]
      omega
    · rw [Env.bind_of_not_mem hmem]
      exact henv v ((List.mem_append.mp hv).resolve_left hmem)

/-- **A block whose operands are in scope has an execution.** -/
theorem evalOps_isSome {scope : List ValueId} :
    ∀ (ops : List Op) {env : Env Val}, ScopedOps scope ops → ArityOps ops →
      (∀ v ∈ scope, (env v).isSome) → ∀ st : State Val Mem,
      ∃ env₁ st₁, evalOps I ops env st = some (env₁, st₁) ∧
        ∀ v ∈ blockResults ops ++ scope, (env₁ v).isSome
  | [], env, _, _, henv, st => ⟨env, st, evalOps_nil, henv⟩
  | op :: ops, env, hscoped, harity, henv, st => by
    rw [ScopedOps] at hscoped
    rw [ArityOps] at harity
    obtain ⟨env₁, st₁, h₁, henv₁⟩ := evalOp_isSome op hscoped.1 harity.1 henv st
    obtain ⟨env₂, st₂, h₂, henv₂⟩ := evalOps_isSome ops hscoped.2 harity.2 henv₁ st₁
    refine ⟨env₂, st₂, evalOps_cons.mpr ⟨env₁, st₁, h₁, h₂⟩, fun v hv => henv₂ v ?_⟩
    rw [blockResults_cons] at hv
    simp only [List.mem_append] at hv ⊢
    tauto

end

/-! ### Blocks without an execution -/

mutual

/-- Conversely, if every loop runs, an operation that has a result is in scope. -/
theorem scopedOp_of_eval (htrips : ∀ lb ub step, 0 < I.tripCount lb ub step)
    {scope : List ValueId} :
    ∀ (op : Op) {env env₁ : Env Val} {st st₁ : State Val Mem},
      evalOp I op env st = some (env₁, st₁) → (∀ v, (env v).isSome → v ∈ scope) →
      ScopedOp scope op
  | .leaf op, env, env₁, st, st₁, h, hscope => by
    obtain ⟨vals, hvals, -⟩ := evalOp_leaf.mp h
    rw [ScopedOp]
    exact fun v hv => hscope v ((exists_of_mapM_eq_some hvals).2 v hv)
  | .loop header body, env, env₁, st, st₁, h, hscope => by
    obtain ⟨lb, ub, step, vals, vals', st₂, hlb, hub, hstep, hvals, hloop, -⟩ := evalOp_loop.mp h
    -- the first iteration
    obtain ⟨n, hn⟩ : ∃ n, I.tripCount lb ub step = n + 1 :=
      ⟨_, (Nat.succ_pred_eq_of_pos (htrips lb ub step)).symm⟩
    rw [hn] at hloop
    obtain ⟨env₂, st₃, vals₂, hbody, hyields, -⟩ := evalLoop_succ.mp hloop
    have hargs : ∀ v, (header.bindArgs env (I.induction lb step 0) vals v).isSome →
        v ∈ header.blockArgs ++ scope := by
      intro v hv
      by_cases hmem : v ∈ header.blockArgs
      · exact List.mem_append_left _ hmem
      · rw [LoopHeader.bindArgs, Env.bind_of_not_mem hmem] at hv
        exact List.mem_append_right _ (hscope v hv)
    rw [ScopedOp]
    refine ⟨fun v hv => hscope v ?_, scopedOps_of_eval htrips body hbody hargs, fun v hv => ?_⟩
    · simp only [LoopHeader.operands, List.mem_cons] at hv
      rcases hv with rfl | rfl | rfl | hv
      · rw [hlb]; rfl
      · rw [hub]; rfl
      · rw [hstep]; rfl
      · exact (exists_of_mapM_eq_some hvals).2 v hv
    · rw [List.mem_append]
      by_cases hmem : v ∈ blockResults body
      · exact .inl hmem
      · have hsome := (exists_of_mapM_eq_some hyields).2 v hv
        rw [evalOps_frame hbody hmem] at hsome
        exact .inr (hargs v hsome)

/-- **A block that reads a value out of scope has no execution**, where every loop is run. -/
theorem scopedOps_of_eval (htrips : ∀ lb ub step, 0 < I.tripCount lb ub step)
    {scope : List ValueId} :
    ∀ (ops : List Op) {env env₁ : Env Val} {st st₁ : State Val Mem},
      evalOps I ops env st = some (env₁, st₁) → (∀ v, (env v).isSome → v ∈ scope) →
      ScopedOps scope ops
  | [], _, _, _, _, _, _ => by rw [ScopedOps]; trivial
  | op :: ops, env, env₁, st, st₁, h, hscope => by
    obtain ⟨env₂, st₂, hop, hops⟩ := evalOps_cons.mp h
    rw [ScopedOps]
    refine ⟨scopedOp_of_eval htrips op hop hscope, scopedOps_of_eval htrips ops hops ?_⟩
    intro v hv
    rw [List.mem_append]
    by_cases hmem : v ∈ opResults op
    · exact .inl hmem
    · rw [evalOp_frame hop hmem] at hv
      exact .inr (hscope v hv)

end

end CoralNPU.Matrix
