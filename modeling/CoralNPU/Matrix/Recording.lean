import CoralNPU.Matrix.ChainMemory

namespace CoralNPU.Matrix

open Lib

/-!
# Matrix — recording the updates of a chain

A matrix unit that records what is accumulated: it tells a chain that lost an update, or whose
operands were exchanged, from one that was kept.

* `recording` — the interpretation: a value records what the casts did to it, and an accumulator what
  was done to the operands of its updates; `recording_matrixUnit`.  The memory is a log of what was
  written.
* `recording_run` — an execution adds an entry to the log for every write of the block.
* `Links.length_eq`, `Casts.recorded` — the links of a chain and the casts of an operand, recorded.
* `SingleChain.exists_written` — what the chain writes; `Split.entry_eq` — what the tile has to record
  to write the same.
-/

/-! ### The interpretation -/

/-- What the casts did to the operands of an update. -/
abbrev Update := List CastMark × List CastMark

/-- A value: what the casts did to its elements, and the updates accumulated in it. -/
structure Record where
  casts : List CastMark
  updates : List Update

/-- An accumulator with one more update. -/
def Record.update (x y acc : Record) : Record := ⟨[], acc.updates ++ [(x.casts, y.casts)]⟩

/-- The value after a cast. -/
def Record.cast (marks : List CastMark) (x : Record) : Record := ⟨marks ++ x.casts, x.updates⟩

/-- What says nothing. -/
def Record.empty : Record := ⟨[], []⟩

/-- The interpretation that records.  The negative zero counts as an update. -/
def recording : Interp Record (List (List Update)) where
  constant
    | .splat (.floatZero true) _ => ⟨[], [([], [])]⟩
    | _ => .empty
  transferRead _ _ _ _ _ := .empty
  cast kind srcType type := .cast (kind.marks srcType type)
  contract _ := .update
  outerProduct _ _ _ := .empty
  transferWrite _ val _ _ m := m ++ [val.updates]
  otherResult _ _ _ _ := .empty
  otherEffect _ _ m := m
  tripCount _ _ _ := 1
  induction _ _ _ := .empty
  vtzero := .empty
  load _ _ _ _ _ := .empty
  multiply intrinsic x y := .update (x.cast intrinsic.marks) (y.cast intrinsic.marks)
  writeback _ _ tile _ _ m := m ++ [tile.updates]

/-- A cast that keeps the elements leaves no mark. -/
theorem marks_of_isFlat {kind : CastKind} {srcType type : VectorType}
    (h : kind.isFlat srcType type = true) : kind.marks srcType type = [] := if_pos h

/-- An extension is recorded. -/
theorem marks_of_isWidening {kind : CastKind} {srcType type : VectorType}
    (h : kind.isWidening srcType type = true) : kind.marks srcType type = [.widen] := by
  have hflat : ¬ kind.isFlat srcType type = true := by
    simp only [CastKind.isWidening, Bool.and_eq_true, decide_eq_true_eq] at h
    rw [h.1.1]
    exact Bool.false_ne_true
  rw [CastKind.marks, if_neg hflat, if_pos h]

/-- The records satisfy the laws of the matrix unit. -/
theorem recording_matrixUnit : recording.MatrixUnit where
  zero := rfl
  load _ _ _ := rfl
  writeback _ _ _ _ := rfl
  multiply _ _ _ _ _ := rfl
  widen kind srcType type kind' srcType' type' x y acc h h' := by
    simp only [recording, marks_of_isWidening h, marks_of_isWidening h']
    rfl
  flat_left intrinsic kind srcType type x y acc hflat := by
    simp only [recording, marks_of_isFlat hflat]
    rfl
  flat_right intrinsic kind srcType type x y acc hflat := by
    simp only [recording, marks_of_isFlat hflat]
    rfl

/-- What the other operations do to the memory does not matter: nothing is read from it. -/
theorem recording_undisturbed {f : Function} {chain : AccumulatorChain} {env : Env Record}
    {st : State Record (List (List Update))} {final : Env Record} :
    Undisturbed recording f chain env st final :=
  fun _ _ _ _ _ _ _ _ _ _ _ => rfl

/-! ### The log -/

/-- The operation writes to the memory. -/
def Leaf.writes : Leaf → Bool
  | .transferWrite _ _ _ _ | .writeback _ _ _ _ => true
  | .constant _ _ | .transferRead _ _ _ _ | .cast _ _ _ _ _ | .contract _ _ _ _ _
  | .outerProduct _ _ _ _ | .other _ _ _ | .vtzero _ | .load _ _ _ _ | .multiply _ _ _ _
  | .configure _ => false

/-- The writes of a block. -/
def writeCount (ops : List Op) : Nat := (leavesOps ops).countP Leaf.writes

/-- Two blocks, one after the other. -/
theorem writeCount_append (ops ops' : List Op) :
    writeCount (ops ++ ops') = writeCount ops + writeCount ops' := by
  rw [writeCount, leavesOps_append, List.countP_append]
  rfl

/-- A block, by its first operation. -/
theorem writeCount_cons (op : Op) (ops : List Op) :
    writeCount (op :: ops) = writeCount [op] + writeCount ops := writeCount_append [op] ops

/-- An operation writes once, or not at all. -/
theorem writeCount_leaf (l : Leaf) : writeCount [.leaf l] = if l.writes then 1 else 0 := by
  rw [writeCount, leavesOps_cons, leavesOp_leaf, leavesOps_nil, List.append_nil,
    List.countP_singleton]

/-- A loop, in one iteration. -/
theorem writeCount_loop (h : LoopHeader) (body : List Op) :
    writeCount [.loop h body] = writeCount body := by
  rw [writeCount, leavesOps_cons, leavesOp_loop, leavesOps_nil, List.append_nil]
  rfl

/-- A write adds an entry to the log. -/
theorem recording_effect (l : Leaf) (vals : List Record) (st : State Record (List (List Update))) :
    ∃ new, (recording.effect l vals st).mem = st.mem ++ new ∧
      new.length = if l.writes then 1 else 0 := by
  cases l with
  | transferWrite | writeback => exact ⟨[_], rfl, rfl⟩
  | _ => exact ⟨[], (List.append_nil _).symm, rfl⟩

mutual

/-- An operation appends as many records as it writes. -/
theorem recording_run_op :
    ∀ (op : Op) {env env₁ : Env Record} {st st₁ : State Record (List (List Update))},
      evalOp recording op env st = some (env₁, st₁) →
      ∃ new, st₁.mem = st.mem ++ new ∧ new.length = writeCount [op]
  | .leaf l, env, env₁, st, st₁, h => by
    obtain ⟨vals, -, heq⟩ := evalOp_leaf.mp h
    obtain ⟨-, rfl⟩ := Prod.mk.inj heq
    rw [writeCount_leaf]
    exact recording_effect l vals st
  | .loop header body, env, env₁, st, st₁, h => by
    obtain ⟨lb, ub, step, vals, vals₁, st₂, -, -, -, -, hloop, heq⟩ := evalOp_loop.mp h
    obtain ⟨-, rfl⟩ := Prod.mk.inj heq
    -- there is one iteration
    obtain ⟨env₂, st₃, vals₂, hbody, -, hend⟩ := evalLoop_succ.mp hloop
    obtain ⟨-, rfl⟩ := Prod.mk.inj (Option.some.inj hend)
    rw [writeCount_loop]
    exact recording_run body hbody

/-- **An execution adds to the log** an entry for every write of the block. -/
theorem recording_run :
    ∀ (ops : List Op) {env env₁ : Env Record} {st st₁ : State Record (List (List Update))},
      evalOps recording ops env st = some (env₁, st₁) →
      ∃ new, st₁.mem = st.mem ++ new ∧ new.length = writeCount ops
  | [], env, env₁, st, st₁, h => by
    rw [evalOps_nil] at h
    obtain ⟨-, rfl⟩ := Prod.mk.inj (Option.some.inj h)
    exact ⟨[], (List.append_nil _).symm, by rw [writeCount, leavesOps_nil]; rfl⟩
  | op :: ops, env, env₁, st, st₁, h => by
    obtain ⟨env₂, st₂, hop, hops⟩ := evalOps_cons.mp h
    obtain ⟨new, hmem, hlength⟩ := recording_run_op op hop
    obtain ⟨new', hmem', hlength'⟩ := recording_run ops hops
    refine ⟨new ++ new', by rw [hmem', hmem, List.append_assoc], ?_⟩
    rw [List.length_append, hlength, hlength', writeCount_cons op ops]

end

/-- What is written before a block stays in the log. -/
theorem recording_entry {ops : List Op} {env env₁ : Env Record} {m : List (List Update)}
    {t : List Update} {tiles : Nat → Record} {st₁ : State Record (List (List Update))}
    (h : evalOps recording ops env ⟨m ++ [t], tiles⟩ = some (env₁, st₁)) :
    st₁.mem[m.length]? = some t := by
  obtain ⟨new, hmem, -⟩ := recording_run ops h
  rw [hmem, List.append_assoc, List.getElem?_append_right (Nat.le_refl _), Nat.sub_self]
  rfl

/-- The values and the memory before a run. -/
def emptyEnv : Env Record := fun _ => some .empty

/-- See `emptyEnv`. -/
def emptyState : State Record (List (List Update)) := ⟨[], fun _ => .empty⟩

/-- So does the whole block. -/
theorem recording_length {ops : List Op} {env env₁ : Env Record}
    {st₁ : State Record (List (List Update))}
    (h : evalOps recording ops env emptyState = some (env₁, st₁)) :
    st₁.mem.length = writeCount ops := by
  obtain ⟨new, hmem, hlength⟩ := recording_run ops h
  rw [hmem, ← hlength]
  rfl

mutual

/-- Rewriting keeps the number of writes, if the replacements do. -/
theorem writeCount_rewriteOp {edit : Op → Option (List Op)}
    (hedit : ∀ op new, edit op = some new → writeCount new = writeCount [op]) :
    ∀ op : Op, writeCount (rewriteOp edit op) = writeCount [op]
  | .leaf l => by
    rw [rewriteOp]
    cases hnew : edit (.leaf l) with
    | none => rw [Option.getD_none]
    | some new => exact hedit _ new hnew
  | .loop h body => by
    rw [rewriteOp]
    split
    next new hnew => exact hedit _ new hnew
    next => rw [writeCount_loop, writeCount_loop, writeCount_rewriteOps hedit body]

/-- An edited block has the writes that it had, if an edited operation has. -/
theorem writeCount_rewriteOps {edit : Op → Option (List Op)}
    (hedit : ∀ op new, edit op = some new → writeCount new = writeCount [op]) :
    ∀ ops : List Op, writeCount (rewriteOps edit ops) = writeCount ops
  | [] => by rw [rewriteOps]
  | op :: ops => by
    rw [rewriteOps, writeCount_append, writeCount_rewriteOp hedit op, writeCount_rewriteOps hedit ops,
      writeCount_cons op ops]

end

/-! ### The links -/

/-- **The links of a chain, recorded.** -/
theorem Links.length_eq {ops : List Op} {scope : List ValueId} {env : Env Record}
    (hclosed : Closed ops scope) (hholds : Holds recording ops env scope)
    {us : List ValueId} : ∀ {a y : ValueId} {vy : Record}, Links ops a us y → y ∈ scope →
      env y = some vy →
      ∃ va, env a = some va ∧ va.updates.length + us.length = vy.updates.length := by
  induction us with
  | nil =>
    intro a y vy h _ hvy
    obtain rfl : a = y := h
    exact ⟨vy, hvy, rfl⟩
  | cons r us ih =>
    intro a y vy h hy hvy
    obtain ⟨⟨c, lhs, rhs, hdef⟩, h⟩ := h
    obtain ⟨vr, hvr, hle⟩ := ih h hy hvy
    obtain ⟨-, x, y', va, -, -, hva, hval⟩ :=
      hholds.contract hclosed (h.mem_of_closed hclosed hy).1 hdef
    obtain rfl : vr = .update x y' va := Option.some.inj (hvr.symm.trans hval)
    refine ⟨va, hva, ?_⟩
    simp only [Record.update, List.length_append, List.length_cons, List.length_nil] at hle ⊢
    omega

/-- An operand records what the casts did to its source. -/
theorem Casts.recorded {ops : List Op} {scope : List ValueId} {env : Env Record}
    (hclosed : Closed ops scope) (hholds : Holds recording ops env scope) {v w : ValueId}
    {marks : List CastMark} (h : Casts ops v marks w) : v ∈ scope → ∀ {x}, env v = some x →
      ∃ x', env w = some x' ∧ x = x'.cast marks := by
  induction h with
  | refl v => exact fun _ x hx => ⟨x, hx, rfl⟩
  | @cast v r src w kind srcType type marks hdef _ ih =>
    intro hv x hx
    obtain ⟨hsrc, x₀, hx₀, hval⟩ := hholds.cast hclosed hv hdef
    obtain ⟨x', hx', rfl⟩ := ih hsrc hx₀
    refine ⟨x', hx', (Option.some.inj (hx.symm.trans hval)).trans ?_⟩
    simp only [recording, Record.cast, List.append_assoc]

/-! ### What is written -/

variable {f : Function} {chain : AccumulatorChain} {vector : ValueId}

/-- The function runs to its end. -/
theorem SingleChain.exists_run (hs : SingleChain f chain vector) :
    ∃ env₁ st₁, evalOps recording f.body emptyEnv emptyState = some (env₁, st₁) := by
  have hargs : ∀ v ∈ f.arguments, (emptyEnv v).isSome := fun _ _ => rfl
  obtain ⟨env₁, st₁, hrun, -⟩ := evalOps_isSome f.body hs.ssa.inScope hs.ssa.arity hargs emptyState
  exact ⟨env₁, st₁, hrun⟩

/-- A negative zero counts as an update. -/
theorem updates_init {scope : List ValueId} {env : Env Record}
    (hholds : Holds recording f.body env scope) (hmem : chain.initVal ∈ scope)
    {v : Record} (hv : env chain.initVal = some v)
    (hneg : ¬ chain.StartsPositive f) : v.updates = [([], [])] := by
  have hdef := not_not.mp hneg
  obtain ⟨vals, m, -, hval⟩ := hholds _ hmem _ hdef rfl
  obtain rfl := Option.some.inj (hv.symm.trans hval)
  rfl

/-- A loop that carries one value is run once. -/
theorem recording_loop {ops : List Op} {scope : List ValueId} {h : LoopHeader} {body : List Op}
    {init arg yielded result : ValueId} (site : Site ops scope [.loop h body])
    (hinits : h.inits = [init]) (hargs : h.args = [arg]) (hyields : h.yields = [yielded])
    (hresults : h.results = [result]) {env env₁ : Env Record}
    {st st₁ : State Record (List (List Update))}
    (hholds : Holds recording ops env scope)
    (heval : evalOp recording (.loop h body) env st = some (env₁, st₁)) :
    ∃ env₂, Holds recording ops env₂ (blockResults body ++ (h.blockArgs ++ scope)) ∧
      env₂ arg = env init ∧ env₁ result = env₂ yielded := by
  obtain ⟨lb, ub, step, vals, vals₁, st₂, -, -, -, hvals, hloop, heq⟩ := evalOp_loop.mp heval
  obtain ⟨rfl, rfl⟩ := Prod.mk.inj heq
  obtain ⟨va, hva⟩ := Option.isSome_iff_exists.mp
    ((exists_of_mapM_eq_some hvals).2 init (by simp [hinits]))
  rw [hinits, List.mapM_cons, hva] at hvals
  obtain rfl : vals = [va] := (Option.some.inj hvals).symm
  obtain ⟨env₂, st₃, vals₂, hbody, hyield, hend⟩ := evalLoop_succ.mp hloop
  obtain ⟨rfl, rfl⟩ := Prod.mk.inj (Option.some.inj hend)
  refine ⟨env₂, evalOps_holds site.body (hholds.bindArgs site _ [va]) hbody,
    (evalOps_arg site hargs hbody).trans hva.symm, ?_⟩
  obtain ⟨vy, hvy⟩ := Option.isSome_iff_exists.mp
    ((exists_of_mapM_eq_some hyield).2 yielded (by simp [hyields]))
  rw [hyields, List.mapM_cons, hvy] at hyield
  obtain rfl : vals₂ = [vy] := (Option.some.inj hyield).symm
  rw [hresults, hvy]
  exact Env.bind_getElem (List.nodup_singleton _) (k := 0) rfl

/-- **The chain writes the number of its updates**, and one more for a negative zero. -/
theorem SingleChain.exists_written (hs : SingleChain f chain vector) :
    ∃ pre access post, f.body = pre ++
      .leaf (.transferWrite chain.writeback .minorIdentity access vector) :: post ∧
      ∀ {env env₁ : Env Record} {st st₁ : State Record (List (List Update))} {va : Record},
        evalOps recording pre env st = some (env₁, st₁) → env₁ vector = some va →
        chain.updates.length ≤ va.updates.length ∧
          (¬ chain.StartsPositive f → chain.updates.length < va.updates.length) := by
  obtain ⟨access, hwrite, -⟩ := hs.write
  have hvector : vector ∈ Leaf.operands
      (.transferWrite chain.writeback .minorIdentity access vector) := List.mem_cons_self
  suffices hcount : ∃ pre post, f.body = pre ++
      .leaf (.transferWrite chain.writeback .minorIdentity access vector) :: post ∧
      ∀ {env env₁ : Env Record} {st st₁ : State Record (List (List Update))} {va : Record},
        evalOps recording pre env st = some (env₁, st₁) → env₁ vector = some va →
        ∃ scope env₂ v, Holds recording f.body env₂ scope ∧ chain.initVal ∈ scope ∧
          env₂ chain.initVal = some v ∧
          v.updates.length + chain.updates.length = va.updates.length by
    obtain ⟨pre, post, heq, hcount⟩ := hcount
    refine ⟨pre, access, post, heq, fun hpre hva => ?_⟩
    obtain ⟨scope, env₂, v, hholds, hmem, hv, hle⟩ := hcount hpre hva
    refine ⟨by omega, fun hneg => ?_⟩
    rw [updates_init hholds hmem hv hneg, List.length_singleton] at hle
    omega
  rcases hs.straight_or_looped with ⟨hstraight, hlinks⟩ | ⟨pre, h', body, post, init, arg, yielded,
    result, us₁, us₂, us₃, lc⟩
  · obtain ⟨pre, post, heq⟩ := hstraight.exists_split hwrite
    refine ⟨pre, post, heq, @fun env env₂ st st₂ va hpre hva => ?_⟩
    have hsite := hs.ssa.site_of_eq heq
    obtain ⟨scope, hscope, site⟩ := hsite.append_right
    have hscoped := site.scopedOp
    rw [ScopedOp] at hscoped
    have hholds := evalOps_holds hsite.append_left (hs.ssa.holds env) hpre
    have hmem : vector ∈ blockResults pre ++ f.arguments :=
      List.mem_append.mpr ((hscope _).mp (hscoped vector hvector))
    have hclosed := hsite.append_left.closed_end
    obtain ⟨v, hv, hle⟩ := hlinks.length_eq hclosed hholds hmem hva
    exact ⟨_, env₂, v, hholds, (hlinks.mem_of_closed hclosed hmem).1, hv, hle⟩
  · -- the transfer write stands after the loop
    obtain ⟨mid, rest, hpost⟩ := lc.post.exists_split
      (lc.leaf_mem_post hs.ssa (lc.after_mem hs.ssa).2 hwrite hvector)
    have heq : f.body = (pre ++ .loop h' body :: mid) ++
        .leaf (.transferWrite chain.writeback .minorIdentity access vector) :: rest := by
      rw [lc.eq, hpost, List.append_assoc, List.cons_append]
    refine ⟨_, rest, heq, @fun env env₂ st st₂ va hbefore hva => ?_⟩
    have hsite := hs.ssa.site_of_eq heq
    obtain ⟨scope, hscope, site⟩ := hsite.append_right
    have hscoped := site.scopedOp
    rw [ScopedOp] at hscoped
    -- after the loop
    have hholds := evalOps_holds hsite.append_left (hs.ssa.holds env) hbefore
    obtain ⟨vr, hvr, hle₃⟩ := lc.after.length_eq hsite.append_left.closed_end hholds
      (List.mem_append.mpr ((hscope _).mp (hscoped vector hvector))) hva
    obtain ⟨env₃, st₃, hpre, hrest⟩ := evalOps_append.mp hbefore
    obtain ⟨env₄, st₄, hloop, hmid⟩ := evalOps_cons.mp hrest
    obtain ⟨inner, hinner, site'⟩ := hsite.append_left.append_right
    have hresult : env₂ result = env₄ result := by
      apply evalOps_frame hmid
      apply site'.tail.not_bound
      simp [opResults, lc.results]
    -- in the loop
    have hholds₃ : Holds recording f.body env₃ inner := by
      have := evalOps_holds hsite.append_left.append_left (hs.ssa.holds env) hpre
      exact fun v hv => this v (List.mem_append.mpr ((hinner v).mp hv))
    obtain ⟨env₅, hholds₅, harg, hyield⟩ := recording_loop site'.head lc.inits lc.args lc.yields
      lc.results hholds₃ hloop
    have hscoped' := site'.scopedOp
    rw [ScopedOp] at hscoped'
    obtain ⟨varg, hvarg, hle₂⟩ := lc.inside.length_eq site'.head.body.closed_end hholds₅
      (hscoped'.2.2 yielded (by simp [lc.yields])) (hyield ▸ hresult ▸ hvr)
    -- before the loop
    have hinit : init ∈ inner := hscoped'.1 init (by simp [LoopHeader.operands, lc.inits])
    obtain ⟨v, hv, hle₁⟩ := lc.before.length_eq site'.closed hholds₃ hinit (harg ▸ hvarg)
    refine ⟨_, env₃, v, hholds₃, (lc.before.mem_of_closed site'.closed hinit).1, hv, ?_⟩
    rw [lc.updates, List.length_append, List.length_append]
    omega

/-- **The tile and the written value record the same**, if the same is written. -/
theorem Split.entry_eq {pre mid post : List Op} {op : Op} {access : Access}
    (sp : Split f chain vector pre op mid post access) (hs : SingleChain f chain vector)
    {env env' env₁ env₁' : Env Record} {st st' st₁ st₁' : State Record (List (List Update))}
    {va : Record} (hvector : env vector = some va) (henv : ∀ u, u ≠ vector → env' u = env u)
    (hst : AgreeExcept 0 st st')
    (h : evalOps recording (mid ++
      .leaf (.transferWrite chain.writeback .minorIdentity access vector) :: post) env st
        = some (env₁, st₁))
    (h' : evalOps recording (mid ++ .leaf (.writeback 0 access 4 4) :: post) env' st'
      = some (env₁', st₁')) (hmem : st₁'.mem = st₁.mem) : va.updates = (st'.tiles 0).updates := by
  obtain ⟨base, indices, env₂, env₂', st₂, st₂', hpost, hwrite, -, -⟩ :=
    sp.evalOps_writeback hs 4 4 hvector henv hst h
  rw [← List.singleton_append, ← List.append_assoc] at h'
  obtain ⟨env₃, st₃, hwrite', hpost'⟩ := evalOps_append.mp h'
  obtain ⟨rfl, rfl⟩ := Prod.mk.inj (Option.some.inj (hwrite.symm.trans hwrite'))
  -- the entries of the two logs
  have hentry : st₁.mem[st₂.mem.length]? = some va.updates := recording_entry hpost
  have hentry' : st₁'.mem[st₂.mem.length]? = some (st'.tiles 0).updates := recording_entry hpost'
  rw [hmem, hentry] at hentry'
  exact Option.some.inj hentry'

end CoralNPU.Matrix
