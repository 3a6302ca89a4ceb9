import CoralNPU.Matrix.Leaves
import CoralNPU.Matrix.Scope

namespace CoralNPU.Matrix

open Lib

/-!
# Matrix — clones compute the same values

* `evalLoop_sim` — the rule for two loops in lockstep.
* `evalOps_clone` — the clone of a block computes the values of the block, under the names of
  the clone, and has the same effect.
* `ClonableBody` — what the new body of a loop reads is in scope; `evalOps_cloneBody` — it then
  computes the values of the old body except for the updates, which it multiplies into the tile.
-/

variable {Val Mem : Type} {I : Interp Val Mem} {off : Nat} {ρ : ValueId → ValueId}

/-! ### Renamings -/

/-- The renaming keeps values below `off` apart. -/
def Renaming (off : Nat) (ρ : ValueId → ValueId) : Prop :=
  ∀ v w, v < off → w < off → ρ v = ρ w → v = w

/-- Values that have been cloned are renamed above `off`, and the others keep their names. -/
theorem renaming_lookupOrDefault (off : Nat) (mapped : List ValueId) :
    Renaming off (lookupOrDefault off mapped) := by
  intro v w hv hw h
  unfold lookupOrDefault at h
  split at h
  · split at h
    · exact Nat.add_right_cancel h
    · exact absurd (h ▸ Nat.le_add_left off v) (Nat.not_le.mpr hw)
  · split at h
    · exact absurd (h ▸ Nat.le_add_left off w) (Nat.not_le.mpr hv)
    · exact h

/-- A renamed name has the place of the name. -/
theorem idxOf?_map (hρ : Renaming off ρ) {names : List ValueId} {v : ValueId} (hv : v < off)
    (hnames : ∀ n ∈ names, n < off) : (names.map ρ).idxOf? (ρ v) = names.idxOf? v := by
  induction names with
  | nil => rfl
  | cons n names ih =>
    have hbeq : (ρ n == ρ v) = (n == v) := by
      rw [Bool.eq_iff_iff, beq_iff_eq, beq_iff_eq]
      exact ⟨hρ n v (hnames n List.mem_cons_self) hv, congrArg ρ⟩
    rw [List.map_cons, List.idxOf?_cons, List.idxOf?_cons, hbeq,
      ih fun n' hn' => hnames n' (List.mem_cons_of_mem _ hn')]

/-- A renamed name has the value of the name. -/
theorem Env.bind_map (hρ : Renaming off ρ) {env env' : Env Val} {names : List ValueId}
    {vals : Nat → Option Val} {v : ValueId} (hv : v < off) (hnames : ∀ n ∈ names, n < off)
    (henv : v ∉ names → env' (ρ v) = env v) :
    env'.bind (names.map ρ) vals (ρ v) = env.bind names vals v := by
  rw [bind, bind, idxOf?_map hρ hv hnames]
  cases hk : names.idxOf? v with
  | none => exact henv (List.idxOf?_eq_none_iff.mp hk)
  | some k => rfl

/-! ### Operations without a region -/

/-- A clone has the renamed operands. -/
theorem Leaf.operands_clone (op : Leaf) : (op.clone off ρ).operands = op.operands.map ρ := by
  cases op <;> rfl

/-- A clone has the renamed results. -/
theorem Leaf.results_clone (op : Leaf) : (op.clone off ρ).results = op.results.map ρ := by
  cases op <;> rfl

/-- A clone computes the same results from the values of its operands. -/
theorem Interp.result_clone (op : Leaf) : I.result (op.clone off ρ) = I.result op := by
  cases op <;> rfl

/-- A clone has the same effect. -/
theorem Interp.effect_clone (op : Leaf) : I.effect (op.clone off ρ) = I.effect op := by
  cases op <;> rfl

/-- The states have one memory, and the same tiles except for one. -/
structure AgreeExcept (tile : Nat) (st st' : State Val Mem) : Prop where
  mem : st'.mem = st.mem
  tiles : ∀ t, t ≠ tile → st'.tiles t = st.tiles t

/-- A state agrees with itself. -/
theorem AgreeExcept.refl (tile : Nat) (st : State Val Mem) : AgreeExcept tile st st :=
  ⟨rfl, fun _ _ => rfl⟩

/-- The tile may be set to any value. -/
theorem AgreeExcept.setTile {tile : Nat} {st st' : State Val Mem} (h : AgreeExcept tile st st')
    (val : Val) : AgreeExcept tile st (st'.setTile tile val) :=
  ⟨h.mem, fun t ht => (Function.update_of_ne ht _ _).trans (h.tiles t ht)⟩

/-- Two states in which every other tile is set to one value. -/
theorem AgreeExcept.setOther {tile t : Nat} {st st' : State Val Mem} (h : AgreeExcept tile st st')
    (ht : t ≠ tile) (val : Val) :
    AgreeExcept tile (st.setTile t val) (st'.setTile t val) ∧
      (st'.setTile t val).tiles tile = st'.tiles tile := by
  refine ⟨⟨h.mem, fun t' ht' => ?_⟩, Function.update_of_ne ht.symm _ _⟩
  show Function.update st'.tiles t val t' = Function.update st.tiles t val t'
  rw [Function.update_apply, Function.update_apply, h.tiles t' ht']

/-- An operation on other tiles does the same in both states, and keeps the tile. -/
theorem Interp.effect_agreeExcept {op : Leaf} {tile : Nat} (hop : op.tile? ≠ some tile)
    (vals : List Val) {st st' : State Val Mem} (h : AgreeExcept tile st st') :
    AgreeExcept tile (I.effect op vals st) (I.effect op vals st') ∧
      (I.effect op vals st').tiles tile = st'.tiles tile := by
  cases op with
  | transferWrite id kind access vector =>
    exact ⟨⟨by simp only [effect, h.mem], h.tiles⟩, rfl⟩
  | other id results operands => exact ⟨⟨by simp only [effect, h.mem], h.tiles⟩, rfl⟩
  | vtzero t => exact h.setOther (fun heq => hop (congrArg some heq)) _
  | load t access rows columns =>
    simp only [effect, h.mem]
    exact h.setOther (fun heq => hop (congrArg some heq)) _
  | multiply intrinsic t lhs rhs =>
    have ht : t ≠ tile := fun heq => hop (congrArg some heq)
    simp only [effect, h.tiles t ht]
    exact h.setOther ht _
  | writeback t access rows columns =>
    have ht : t ≠ tile := fun heq => hop (congrArg some heq)
    exact ⟨⟨by simp only [effect, h.mem, h.tiles t ht], h.tiles⟩, rfl⟩
  | _ => exact ⟨h, rfl⟩

/-! ### Names -/

mutual

/-- A clone defines the clones of the values. -/
theorem definedIds_cloneOp : ∀ op : Op, definedIds [cloneOp off ρ op] = (definedIds [op]).map ρ
  | .leaf op => by rw [cloneOp, definedIds_leaf, definedIds_leaf, Leaf.results_clone]
  | .loop header body => by
    rw [cloneOp, definedIds_loop, definedIds_loop, definedIds_cloneOps body, List.map_append,
      List.map_append]
    rfl

/-- See `definedIds_cloneOp`. -/
theorem definedIds_cloneOps : ∀ ops : List Op,
    definedIds (cloneOps off ρ ops) = (definedIds ops).map ρ
  | [] => by rw [cloneOps, definedIds_nil, List.map_nil]
  | op :: ops => by
    rw [cloneOps, definedIds_cons, definedIds_cons op ops, definedIds_cloneOp op,
      definedIds_cloneOps ops, List.map_append]

end

mutual

/-- A clone uses the clones of the values. -/
theorem usesOp_cloneOp : ∀ op : Op, usesOp (cloneOp off ρ op) = (usesOp op).map ρ
  | .leaf op => by rw [cloneOp, usesOp, usesOp, Leaf.operands_clone]
  | .loop header body => by
    rw [cloneOp, usesOp, usesOp, usesOps_cloneOps body, List.map_append, List.map_append]
    rfl

/-- See `usesOp_cloneOp`. -/
theorem usesOps_cloneOps : ∀ ops : List Op, usesOps (cloneOps off ρ ops) = (usesOps ops).map ρ
  | [] => by rw [cloneOps, usesOps, List.map_nil]
  | op :: ops => by
    rw [cloneOps, usesOps, usesOps, usesOp_cloneOp op, usesOps_cloneOps ops, List.map_append]

end

/-- The names that a clone defines are new. -/
theorem le_of_mem_definedIds_cloneOp {mapped : List ValueId} {op : Op} {v : ValueId}
    (hv : v ∈ definedIds [cloneOp off (lookupOrDefault off (mapped ++ definedIds [op])) op]) :
    off ≤ v := by
  rw [definedIds_cloneOp, List.mem_map] at hv
  obtain ⟨w, hw, rfl⟩ := hv
  rw [lookupOrDefault, if_pos (List.mem_append_right _ hw)]
  exact Nat.le_add_left off w

/-! ### Loops in lockstep -/

/-- **The rule for two loops**: a relation that every iteration keeps holds at the end. -/
theorem evalLoop_sim {body body' : Env Val → State Val Mem → Option (Env Val × State Val Mem)}
    {h h' : LoopHeader} {env env' : Env Val} {iv : Nat → Val}
    (R : List Val → State Val Mem → List Val → State Val Mem → Prop)
    (hstep : ∀ iv vals st vals' st' env₁ st₁ vals₁, R vals st vals' st' →
      body (h.bindArgs env iv vals) st = some (env₁, st₁) → h.yields.mapM env₁ = some vals₁ →
      ∃ env₁' st₁' vals₁', body' (h'.bindArgs env' iv vals') st' = some (env₁', st₁') ∧
        h'.yields.mapM env₁' = some vals₁' ∧ R vals₁ st₁ vals₁' st₁') {n : Nat} :
    ∀ {k : Nat} {vals vals' vals₁ : List Val} {st st' st₁ : State Val Mem}, R vals st vals' st' →
      evalLoop body h env iv n k vals st = some (vals₁, st₁) →
      ∃ vals₁' st₁', evalLoop body' h' env' iv n k vals' st' = some (vals₁', st₁') ∧
        R vals₁ st₁ vals₁' st₁' := by
  induction n with
  | zero =>
    intro k vals vals' vals₁ st st' st₁ hR h
    obtain ⟨rfl, rfl⟩ := Prod.mk.inj (Option.some.inj h)
    exact ⟨vals', st', rfl, hR⟩
  | succ n ih =>
    intro k vals vals' vals₁ st st' st₁ hR h
    obtain ⟨env₁, st₂, vals₂, hbody, hyields, hrest⟩ := evalLoop_succ.mp h
    obtain ⟨env₁', st₂', vals₂', hbody', hyields', hR₂⟩ :=
      hstep (iv k) vals st vals' st' env₁ st₂ vals₂ hR hbody hyields
    obtain ⟨vals₁', st₁', hrest', hR₁⟩ := ih hR₂ hrest
    exact ⟨vals₁', st₁', evalLoop_succ.mpr ⟨env₁', st₂', vals₂', hbody', hyields', hrest'⟩, hR₁⟩

/-! ### Clones of blocks -/

/-- The clone of a loop has the renamed block arguments. -/
theorem LoopHeader.blockArgs_clone (h : LoopHeader) :
    (h.clone ρ).blockArgs = h.blockArgs.map ρ := rfl

mutual

/-- The clone of an operation: see `evalOps_clone`. -/
theorem evalOp_clone (hρ : Renaming off ρ) {tile : Nat} {scope : List ValueId}
    (hoff : ∀ v ∈ scope, v < off) :
    ∀ (op : Op) {env env' env₁ : Env Val} {st st' st₁ : State Val Mem}, ScopedOp scope op →
      (∀ v ∈ definedIds [op], v < off) → (∀ l ∈ leavesOp op, l.tile? ≠ some tile) →
      (∀ v ∈ scope, env' (ρ v) = env v) → AgreeExcept tile st st' →
      evalOp I op env st = some (env₁, st₁) →
      ∃ env₁' st₁', evalOp I (cloneOp off ρ op) env' st' = some (env₁', st₁') ∧
        (∀ v ∈ opResults op ++ scope, env₁' (ρ v) = env₁ v) ∧
        AgreeExcept tile st₁ st₁' ∧ st₁'.tiles tile = st'.tiles tile
  | .leaf op, env, env', env₁, st, st', st₁, hscoped, hids, htiles, hrel, hst, h => by
    rw [ScopedOp] at hscoped
    rw [definedIds_leaf] at hids
    have htile : op.tile? ≠ some tile := htiles op (by simp)
    obtain ⟨vals, hvals, heq⟩ := evalOp_leaf.mp h
    obtain ⟨rfl, rfl⟩ := Prod.mk.inj heq
    obtain ⟨hst₁, hkept⟩ := Interp.effect_agreeExcept (I := I) htile vals hst
    have heffect : I.effect (op.clone off ρ) vals st' = I.effect op vals st' := by
      rw [Interp.effect_clone]
    rw [← heffect] at hst₁ hkept
    rw [cloneOp]
    refine ⟨_, _, evalOp_leaf.mpr ⟨vals, ?_, rfl⟩, fun v hv => ?_, hst₁, hkept⟩
    · rw [Leaf.operands_clone, mapM_map_congr fun v hv => hrel v (hscoped v hv), hvals]
    · rw [Leaf.results_clone, Interp.result_clone, hst.mem]
      have hv' : v < off := (List.mem_append.mp hv).elim (hids v) (hoff v)
      apply Env.bind_map hρ hv' hids
      exact fun hnot => hrel v ((List.mem_append.mp hv).resolve_left hnot)
  | .loop header body, env, env', env₁, st, st', st₁, hscoped, hids, htiles, hrel, hst, h => by
    rw [ScopedOp] at hscoped
    obtain ⟨hoperands, hbody, hyields⟩ := hscoped
    simp only [definedIds_loop, List.mem_append] at hids
    rw [leavesOp_loop] at htiles
    have hargs : ∀ v ∈ header.blockArgs ++ scope, v < off := by
      intro v hv
      exact (List.mem_append.mp hv).elim (fun hv => hids v (.inl hv)) (hoff v)
    obtain ⟨lb, ub, step, vals, vals₁, st₂, hlb, hub, hstep, hvals, hloop, heq⟩ := evalOp_loop.mp h
    obtain ⟨rfl, rfl⟩ := Prod.mk.inj heq
    have hoperand : ∀ v ∈ header.operands, env' (ρ v) = env v :=
      fun v hv => hrel v (hoperands v hv)
    -- the two loops carry the same values
    obtain ⟨vals₁', st₂', hloop', rfl, hst₂, hkept⟩ := evalLoop_sim
      (fun vals₁ st₁ vals₁' st₁' =>
        vals₁' = vals₁ ∧ AgreeExcept tile st₁ st₁' ∧ st₁'.tiles tile = st'.tiles tile)
      (by
        rintro iv _ st₁ vals₁ st₁' env₂ st₂ vals₂ ⟨rfl, hst₁, hkept₁⟩ hbody₁ hyields₁
        have hrel₁ : ∀ v ∈ header.blockArgs ++ scope,
            (header.clone ρ).bindArgs env' iv vals₁ (ρ v) = header.bindArgs env iv vals₁ v := by
          intro v hv
          rw [LoopHeader.bindArgs, LoopHeader.bindArgs, LoopHeader.blockArgs_clone]
          apply Env.bind_map hρ (hargs v hv) fun n hn => hids n (.inl hn)
          exact fun hnot => hrel v ((List.mem_append.mp hv).resolve_left hnot)
        obtain ⟨env₂', st₂', hbody₁', hrel₂, hst₂, hkept₂⟩ := evalOps_clone hρ hargs body hbody
          (fun v hv => hids v (.inr (.inl hv))) htiles hrel₁ hst₁ hbody₁
        refine ⟨env₂', st₂', vals₂, hbody₁', ?_, rfl, hst₂, hkept₂.trans hkept₁⟩
        show (header.yields.map ρ).mapM env₂' = some vals₂
        rw [mapM_map_congr fun v hv => hrel₂ v (hyields v hv), hyields₁]) ⟨rfl, hst, rfl⟩ hloop
    rw [cloneOp]
    refine ⟨_, _, evalOp_loop.mpr ⟨lb, ub, step, vals, vals₁', st₂', ?_, ?_, ?_, ?_, hloop', rfl⟩,
      fun v hv => ?_, hst₂, hkept⟩
    · exact (hoperand _ (by simp [LoopHeader.operands])).trans hlb
    · exact (hoperand _ (by simp [LoopHeader.operands])).trans hub
    · exact (hoperand _ (by simp [LoopHeader.operands])).trans hstep
    · show (header.inits.map ρ).mapM env' = some vals
      rw [mapM_map_congr fun v hv => hoperand v (by simp [LoopHeader.operands, hv]), hvals]
    · have hres : ∀ v ∈ header.results, v < off := fun v hv => hids v (.inr (.inr hv))
      have hv' : v < off := (List.mem_append.mp hv).elim (hres v) (hoff v)
      show env'.bind (header.results.map ρ) _ (ρ v) = _
      apply Env.bind_map hρ hv' hres
      exact fun hnot => hrel v ((List.mem_append.mp hv).resolve_left hnot)

/-- **The clone of a block** computes the values of the block, under the names of the clone, has
    the same effect, and keeps a tile that the block does not work on. -/
theorem evalOps_clone (hρ : Renaming off ρ) {tile : Nat} {scope : List ValueId}
    (hoff : ∀ v ∈ scope, v < off) :
    ∀ (ops : List Op) {env env' env₁ : Env Val} {st st' st₁ : State Val Mem}, ScopedOps scope ops →
      (∀ v ∈ definedIds ops, v < off) → (∀ l ∈ leavesOps ops, l.tile? ≠ some tile) →
      (∀ v ∈ scope, env' (ρ v) = env v) → AgreeExcept tile st st' →
      evalOps I ops env st = some (env₁, st₁) →
      ∃ env₁' st₁', evalOps I (cloneOps off ρ ops) env' st' = some (env₁', st₁') ∧
        (∀ v ∈ blockResults ops ++ scope, env₁' (ρ v) = env₁ v) ∧
        AgreeExcept tile st₁ st₁' ∧ st₁'.tiles tile = st'.tiles tile
  | [], env, env', env₁, st, st', st₁, _, _, _, hrel, hst, h => by
    rw [evalOps_nil] at h
    obtain ⟨rfl, rfl⟩ := Prod.mk.inj (Option.some.inj h)
    rw [cloneOps]
    exact ⟨env', st', evalOps_nil, hrel, hst, rfl⟩
  | op :: ops, env, env', env₁, st, st', st₁, hscoped, hids, htiles, hrel, hst, h => by
    rw [ScopedOps] at hscoped
    rw [definedIds_cons] at hids
    rw [leavesOps_cons] at htiles
    obtain ⟨env₂, st₂, hop, hops⟩ := evalOps_cons.mp h
    obtain ⟨env₂', st₂', hop', hrel₂, hst₂, hkept₂⟩ := evalOp_clone hρ hoff op hscoped.1
      (fun v hv => hids v (List.mem_append_left _ hv))
      (fun l hl => htiles l (List.mem_append_left _ hl)) hrel hst hop
    have hoff₂ : ∀ v ∈ opResults op ++ scope, v < off := by
      intro v hv
      exact (List.mem_append.mp hv).elim
        (fun hv => hids v (List.mem_append_left _ (mem_definedIds_of_opResults hv))) (hoff v)
    obtain ⟨env₃', st₃', hops', hrel₃, hst₃, hkept₃⟩ := evalOps_clone hρ hoff₂ ops hscoped.2
      (fun v hv => hids v (List.mem_append_right _ hv))
      (fun l hl => htiles l (List.mem_append_right _ hl)) hrel₂ hst₂ hops
    rw [cloneOps]
    refine ⟨env₃', st₃', evalOps_cons.mpr ⟨env₂', st₂', hop', hops'⟩, fun v hv => hrel₃ v ?_, hst₃,
      hkept₃.trans hkept₂⟩
    rw [blockResults_cons] at hv
    simp only [List.mem_append] at hv ⊢
    tauto

end

/-! ### The new body of a loop -/

/-- What the new body reads is in scope: the sources of the operands of the updates, and the
    operands of the other operations.  An update binds no value. -/
def ClonableBody (ops : List Op) (chain : AccumulatorChain) : List ValueId → List Op → Prop
  | _, [] => True
  | scope, op :: rest =>
    match updateOperands chain op with
    | some (lhs, rhs) => traceToSourceValue ops lhs ∈ scope ∧ traceToSourceValue ops rhs ∈ scope ∧
        ClonableBody ops chain scope rest
    | none => ScopedOp scope op ∧ ClonableBody ops chain (opResults op ++ scope) rest

/-- The values that are left of those that a body binds. -/
def keptResults (chain : AccumulatorChain) (body : List Op) : List ValueId :=
  blockResults (body.filter fun op => (updateOperands chain op).isNone)

/-- The sources of the operands of the updates. -/
def updatePairs (ops : List Op) (chain : AccumulatorChain) (body : List Op) :
    List (ValueId × ValueId) :=
  (body.filterMap (updateOperands chain)).map fun p =>
    (traceToSourceValue ops p.1, traceToSourceValue ops p.2)

/-- A tile, after pairs of operands have been multiplied into it. -/
def multiplyAll (I : Interp Val Mem) (intrinsic : Intrinsic) (env : Env Val) :
    List (ValueId × ValueId) → Val → Option Val
  | [], tile => some tile
  | (lhs, rhs) :: pairs, tile => do
    let x ← env lhs
    let y ← env rhs
    multiplyAll I intrinsic env pairs (I.multiply intrinsic x y tile)

section CloneBody

variable {ops : List Op} {chain : AccumulatorChain} {ctx : TileContext}

/-- At an update the new body reads the sources of its operands. -/
theorem clonableBody_update {scope : List ValueId} {op : Op} {rest : List Op} {lhs rhs : ValueId}
    (h : updateOperands chain op = some (lhs, rhs)) :
    ClonableBody ops chain scope (op :: rest) ↔ traceToSourceValue ops lhs ∈ scope ∧
      traceToSourceValue ops rhs ∈ scope ∧ ClonableBody ops chain scope rest := by
  rw [ClonableBody, h]

/-- At any other operation it reads the operands, and the results come into scope. -/
theorem clonableBody_other {scope : List ValueId} {op : Op} {rest : List Op}
    (h : updateOperands chain op = none) :
    ClonableBody ops chain scope (op :: rest) ↔
      ScopedOp scope op ∧ ClonableBody ops chain (opResults op ++ scope) rest := by
  rw [ClonableBody, h]

/-- In the new body a multiply on the sources stands in the place of an update. -/
theorem cloneBody_update {mapped : List ValueId} {op : Op} {rest : List Op} {lhs rhs : ValueId}
    (h : updateOperands chain op = some (lhs, rhs)) :
    cloneBody ops chain ctx off mapped (op :: rest)
      = .leaf (.multiply ctx.intrinsic ctx.tile
            (lookupOrDefault off mapped (traceToSourceValue ops lhs))
            (lookupOrDefault off mapped (traceToSourceValue ops rhs)))
          :: cloneBody ops chain ctx off mapped rest := by
  rw [cloneBody, h]

/-- Any other operation is cloned, and its values are mapped from there on. -/
theorem cloneBody_other {mapped : List ValueId} {op : Op} {rest : List Op}
    (h : updateOperands chain op = none) :
    cloneBody ops chain ctx off mapped (op :: rest)
      = cloneOp off (lookupOrDefault off (mapped ++ definedIds [op])) op
          :: cloneBody ops chain ctx off (mapped ++ definedIds [op]) rest := by
  rw [cloneBody, h]

/-- The values that the new body has mapped. -/
def mappedBy (chain : AccumulatorChain) (mapped : List ValueId) (body : List Op) : List ValueId :=
  mapped ++ (body.filter fun op => (updateOperands chain op).isNone).flatMap fun op => definedIds [op]

/-- An update maps nothing. -/
theorem mappedBy_update {mapped : List ValueId} {op : Op} {rest : List Op}
    {operands : ValueId × ValueId} (h : updateOperands chain op = some operands) :
    mappedBy chain mapped (op :: rest) = mappedBy chain mapped rest := by
  simp [mappedBy, h]

/-- Any other operation maps the values that it defines. -/
theorem mappedBy_other {mapped : List ValueId} {op : Op} {rest : List Op}
    (h : updateOperands chain op = none) :
    mappedBy chain mapped (op :: rest) = mappedBy chain (mapped ++ definedIds [op]) rest := by
  simp [mappedBy, h]

/-- The result of an update is not left. -/
theorem keptResults_update {op : Op} {rest : List Op} {operands : ValueId × ValueId}
    (h : updateOperands chain op = some operands) :
    keptResults chain (op :: rest) = keptResults chain rest := by
  simp [keptResults, h]

/-- The results of any other operation are. -/
theorem keptResults_other {op : Op} {rest : List Op} (h : updateOperands chain op = none) :
    keptResults chain (op :: rest) = opResults op ++ keptResults chain rest := by
  simp [keptResults, h]

/-- An update adds the sources of its operands. -/
theorem updatePairs_update {op : Op} {rest : List Op} {lhs rhs : ValueId}
    (h : updateOperands chain op = some (lhs, rhs)) :
    updatePairs ops chain (op :: rest)
      = (traceToSourceValue ops lhs, traceToSourceValue ops rhs) :: updatePairs ops chain rest := by
  simp [updatePairs, h]

/-- Any other operation adds no pair. -/
theorem updatePairs_other {op : Op} {rest : List Op} (h : updateOperands chain op = none) :
    updatePairs ops chain (op :: rest) = updatePairs ops chain rest := by
  simp [updatePairs, h]

/-- A value that is not among the newly mapped ones keeps its name. -/
theorem lookupOrDefault_append {mapped new : List ValueId} {v : ValueId} (h : v ∉ new) :
    lookupOrDefault off (mapped ++ new) v = lookupOrDefault off mapped v := by
  simp [lookupOrDefault, h]

/-- The clone of an operation that is no update: it computes the values of the operation under the
    new names, and keeps the tile. -/
theorem evalOp_cloneOther {scope mapped : List ValueId} {op : Op} {tile : Nat}
    {env env' env₂ : Env Val} {st st' st₂ : State Val Mem} (hscoped : ScopedOp scope op)
    (harity : ArityOp op) (hoff : ∀ v ∈ scope, v < off) (hids : ∀ v ∈ definedIds [op], v < off)
    (hfresh : ∀ v ∈ definedIds [op], v ∉ scope) (htiles : ∀ l ∈ leavesOp op, l.tile? ≠ some tile)
    (hrel : ∀ v ∈ scope, env' (lookupOrDefault off mapped v) = env v)
    (hsome : ∀ v ∈ scope, (env v).isSome) (hst : AgreeExcept tile st st')
    (hop : evalOp I op env st = some (env₂, st₂)) :
    ∃ env₂' st₂', evalOp I (cloneOp off (lookupOrDefault off (mapped ++ definedIds [op])) op) env' st'
        = some (env₂', st₂') ∧
      (∀ v ∈ opResults op ++ scope,
        env₂' (lookupOrDefault off (mapped ++ definedIds [op]) v) = env₂ v) ∧
      (∀ v ∈ opResults op ++ scope, (env₂ v).isSome) ∧
      AgreeExcept tile st₂ st₂' ∧ st₂'.tiles tile = st'.tiles tile := by
  have hrel' : ∀ v ∈ scope, env' (lookupOrDefault off (mapped ++ definedIds [op]) v) = env v := by
    intro v hv
    rw [lookupOrDefault_append fun hmem => hfresh v hmem hv]
    exact hrel v hv
  obtain ⟨env₂', st₂', hop', hrel₂, hst₂, hkept₂⟩ := evalOp_clone (renaming_lookupOrDefault off _)
    hoff op hscoped hids htiles hrel' hst hop
  obtain ⟨env₃, st₃, hop₃, hsome₃⟩ := evalOp_isSome (I := I) op hscoped harity hsome st
  obtain ⟨rfl, -⟩ := Prod.mk.inj (Option.some.inj (hop.symm.trans hop₃))
  exact ⟨env₂', st₂', hop', hrel₂, hsome₃, hst₂, hkept₂⟩

/-- The multiply that stands in the place of an update binds nothing. -/
theorem evalOp_multiply {intrinsic : Intrinsic} {tile : Nat} {lhs rhs : ValueId} {x y : Val}
    {env : Env Val} {st : State Val Mem} (hx : env lhs = some x) (hy : env rhs = some y) :
    evalOp I (.leaf (.multiply intrinsic tile lhs rhs)) env st
      = some (env, st.setTile tile (I.multiply intrinsic x y (st.tiles tile))) := by
  apply evalOp_leaf.mpr
  refine ⟨[x, y], ?_, rfl⟩
  show List.mapM env [_, _] = _
  rw [List.mapM_cons, List.mapM_cons, hx, hy]
  rfl

/-- The multiply in the place of an update whose sources are in scope: the update binds its result
    only, and the multiply takes the same sources into the tile. -/
theorem evalOp_cloneUpdate {scope mapped : List ValueId} {op : Op} {lhs rhs : ValueId}
    {env env' env₂ : Env Val} {st st' st₂ : State Val Mem}
    (hupdate : updateOperands chain op = some (lhs, rhs))
    (hlhs : traceToSourceValue ops lhs ∈ scope) (hrhs : traceToSourceValue ops rhs ∈ scope)
    (hrel : ∀ v ∈ scope, env' (lookupOrDefault off mapped v) = env v)
    (hsome : ∀ v ∈ scope, (env v).isSome) (hop : evalOp I op env st = some (env₂, st₂)) :
    st₂ = st ∧ ∃ x y, env (traceToSourceValue ops lhs) = some x ∧
      env (traceToSourceValue ops rhs) = some y ∧
      evalOp I (.leaf (.multiply ctx.intrinsic ctx.tile
          (lookupOrDefault off mapped (traceToSourceValue ops lhs))
          (lookupOrDefault off mapped (traceToSourceValue ops rhs)))) env' st'
        = some (env', st'.setTile ctx.tile (I.multiply ctx.intrinsic x y (st'.tiles ctx.tile))) := by
  obtain ⟨x, hx⟩ := Option.isSome_iff_exists.mp (hsome _ hlhs)
  obtain ⟨y, hy⟩ := Option.isSome_iff_exists.mp (hsome _ hrhs)
  obtain ⟨r, c, acc, rfl, -⟩ := updateOperands_eq_some hupdate
  obtain ⟨vals, -, heq⟩ := evalOp_leaf.mp hop
  obtain ⟨-, rfl⟩ := Prod.mk.inj heq
  exact ⟨rfl, x, y, hx, hy, evalOp_multiply ((hrel _ hlhs).trans hx) ((hrel _ hrhs).trans hy)⟩

/-- **The new body of a loop** computes the values of the old one, except for the updates, under
    the names of the clones; it has the same effect, except for the tile; and it multiplies the
    operands of the updates into the tile. -/
theorem evalOps_cloneBody {body : List Op} :
    ∀ {scope mapped : List ValueId} {env env' env₁ : Env Val} {st st' st₁ : State Val Mem},
      ClonableBody ops chain scope body → (∀ v ∈ scope, v < off) → (∀ v ∈ definedIds body, v < off) →
      (definedIds body).Nodup → (∀ v ∈ definedIds body, v ∉ scope) →
      (∀ l ∈ leavesOps body, l.tile? ≠ some ctx.tile) → ArityOps body →
      (∀ v ∈ scope, env' (lookupOrDefault off mapped v) = env v) →
      (∀ v ∈ scope, (env v).isSome) → AgreeExcept ctx.tile st st' →
      evalOps I body env st = some (env₁, st₁) →
      ∃ env₁' st₁', evalOps I (cloneBody ops chain ctx off mapped body) env' st'
          = some (env₁', st₁') ∧
        (∀ v ∈ keptResults chain body ++ scope,
          env₁' (lookupOrDefault off (mappedBy chain mapped body) v) = env₁ v ∧ (env₁ v).isSome) ∧
        AgreeExcept ctx.tile st₁ st₁' ∧
        multiplyAll I ctx.intrinsic env₁ (updatePairs ops chain body) (st'.tiles ctx.tile)
          = some (st₁'.tiles ctx.tile) := by
  induction body with
  | nil =>
    intro scope mapped env env' env₁ st st' st₁ _ _ _ _ _ _ _ hrel hsome hst h
    rw [evalOps_nil] at h
    obtain ⟨rfl, rfl⟩ := Prod.mk.inj (Option.some.inj h)
    rw [cloneBody]
    refine ⟨env', st', evalOps_nil, fun v hv => ?_, hst, rfl⟩
    rw [keptResults, List.filter_nil, blockResults_nil, List.nil_append] at hv
    rw [mappedBy, List.filter_nil, List.flatMap_nil, List.append_nil]
    exact ⟨hrel v hv, hsome v hv⟩
  | cons op rest ih =>
    intro scope mapped env env' env₁ st st' st₁ hclonable hoff hids hnodup hfresh htiles harity hrel
      hsome hst h
    rw [definedIds_cons] at hids hnodup hfresh
    rw [leavesOps_cons] at htiles
    obtain ⟨-, hnodup₂, hdisjoint⟩ := List.nodup_append.mp hnodup
    obtain ⟨env₂, st₂, hop, hrest⟩ := evalOps_cons.mp h
    have hids₂ : ∀ v ∈ definedIds rest, v < off := fun v hv => hids v (List.mem_append_right _ hv)
    have htiles₂ : ∀ l ∈ leavesOps rest, l.tile? ≠ some ctx.tile :=
      fun l hl => htiles l (List.mem_append_right _ hl)
    rw [ArityOps] at harity
    have hkeep : ∀ v ∈ scope, env₂ v = env v := by
      intro v hv
      apply evalOp_frame hop
      exact fun hmem => hfresh v (List.mem_append_left _ (mem_definedIds_of_opResults hmem)) hv
    have hframe : ∀ v ∈ scope, env₁ v = env v := by
      intro v hv
      rw [← hkeep v hv]
      apply evalOps_frame hrest
      exact fun hmem => hfresh v
        (List.mem_append_right _ (mem_definedIds_of_blockResults hmem)) hv
    rcases hupdate : updateOperands chain op with _ | ⟨lhs, rhs⟩
    · -- a clone
      obtain ⟨hscoped, hclonable⟩ := (clonableBody_other hupdate).mp hclonable
      obtain ⟨env₂', st₂', hop', hrel₂, hsome₂, hst₂, hkept₂⟩ := evalOp_cloneOther hscoped harity.1
        hoff (fun v hv => hids v (List.mem_append_left _ hv))
        (fun v hv => hfresh v (List.mem_append_left _ hv))
        (fun l hl => htiles l (List.mem_append_left _ hl)) hrel hsome hst hop
      obtain ⟨env₁', st₁', hrest', hrel₁, hst₁, htile⟩ := ih hclonable
        (fun v hv => (List.mem_append.mp hv).elim
          (fun hv => hids v (List.mem_append_left _ (mem_definedIds_of_opResults hv))) (hoff v))
        hids₂ hnodup₂
        (fun v hv hmem => (List.mem_append.mp hmem).elim
          (fun hmem => hdisjoint v (mem_definedIds_of_opResults hmem) v hv rfl)
          (hfresh v (List.mem_append_right _ hv)))
        htiles₂ harity.2 hrel₂ hsome₂ hst₂ hrest
      rw [cloneBody_other hupdate, keptResults_other hupdate, mappedBy_other hupdate,
        updatePairs_other hupdate]
      rw [hkept₂] at htile
      refine ⟨env₁', st₁', evalOps_cons.mpr ⟨_, _, hop', hrest'⟩, fun v hv => hrel₁ v ?_, hst₁,
        htile⟩
      simp only [List.mem_append] at hv ⊢
      tauto
    · -- an update is multiplied into the tile, and binds nothing
      obtain ⟨hlhs, hrhs, hclonable₂⟩ := (clonableBody_update hupdate).mp hclonable
      obtain ⟨rfl, x, y, hx, hy, hop'⟩ := evalOp_cloneUpdate hupdate hlhs hrhs hrel hsome hop
      obtain ⟨env₁', st₁', hrest', hrel₁, hst₁, htile⟩ := ih hclonable₂ hoff hids₂ hnodup₂
        (fun v hv => hfresh v (List.mem_append_right _ hv)) htiles₂ harity.2
        (fun v hv => (hrel v hv).trans (hkeep v hv).symm)
        (fun v hv => by rw [hkeep v hv]; exact hsome v hv)
        (hst.setTile (I.multiply ctx.intrinsic x y (st'.tiles ctx.tile))) hrest
      rw [cloneBody_update hupdate, keptResults_update hupdate, mappedBy_update hupdate,
        updatePairs_update hupdate]
      refine ⟨env₁', st₁', evalOps_cons.mpr ⟨_, _, hop', hrest'⟩, hrel₁, hst₁, ?_⟩
      rw [multiplyAll, hframe _ hlhs, hframe _ hrhs, hx, hy]
      rw [State.setTile_tiles_self] at htile
      exact htile

end CloneBody

end CoralNPU.Matrix
