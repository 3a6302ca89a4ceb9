import CoralNPU.Matrix.Rewrite

namespace CoralNPU.Matrix

/-!
# Matrix — what a block computes

Executions of a block, over any meaning of its operations.

* `Interp` — the meaning of the operations: of vectors, of the memory, and of the matrix unit.
  The dialects and the hardware are not part of the repository, so it is a parameter.
* `Env`, `State` — the values in scope, and the memory with the tiles.
* `evalOp`, `evalOps` — the execution of an operation and of a block.  One that reads a value that
  is not in scope has none.
-/

/-- The meaning of the operations.  A tile holds a vector value. -/
structure Interp (Val Mem : Type) where
  constant : ConstAttr → Val
  transferRead : TransferKind → VectorType → Val → List Val → Mem → Val
  cast : CastKind → VectorType → VectorType → Val → Val
  contract : ContractionOp → Val → Val → Val → Val
  outerProduct : Val → Val → Val → Val
  transferWrite : TransferKind → Val → Val → List Val → Mem → Mem
  /-- The `k`-th result and the effect of any other operation. -/
  otherResult : Nat → List Val → Mem → Nat → Val
  otherEffect : Nat → List Val → Mem → Mem
  /-- How often a loop runs, and the value of its induction variable. -/
  tripCount : Val → Val → Val → Nat
  induction : Val → Val → Nat → Val
  vtzero : Val
  load : Int → Int → Val → List Val → Mem → Val
  multiply : Intrinsic → Val → Val → Val → Val
  writeback : Int → Int → Val → Val → List Val → Mem → Mem

/-- The values in scope. -/
abbrev Env (Val : Type) := ValueId → Option Val

/-- The memory and the tiles of the matrix unit. -/
@[ext]
structure State (Val Mem : Type) where
  mem : Mem
  tiles : Nat → Val

variable {Val Mem : Type}

/-- The state with a tile set to a value. -/
def State.setTile (st : State Val Mem) (tile : Nat) (val : Val) : State Val Mem :=
  { st with tiles := Function.update st.tiles tile val }

/-- The tile has the new value. -/
@[simp] theorem State.setTile_tiles_self (st : State Val Mem) (tile : Nat) (val : Val) :
    (st.setTile tile val).tiles tile = val := Function.update_self ..

/-- The environment with the names bound to values. -/
def Env.bind (env : Env Val) (names : List ValueId) (vals : Nat → Option Val) : Env Val :=
  fun v => match names.idxOf? v with
    | some k => vals k
    | none => env v

namespace Interp

variable (I : Interp Val Mem)

/-- The value of an operand.  An operation has as many values as operands, so there is one. -/
def operand (vals : List Val) (i : Nat) : Val := vals.getD i I.vtzero

/-- The `k`-th result of an operation, from the values of its operands and the memory. -/
def result : Leaf → List Val → Mem → Nat → Val
  | .constant _ value, _, _, _ => I.constant value
  | .transferRead _ kind _ type, vals, m, _ =>
    I.transferRead kind type (I.operand vals 0) (vals.drop 1) m
  | .cast _ kind _ srcType type, vals, _, _ => I.cast kind srcType type (I.operand vals 0)
  | .contract _ op _ _ _, vals, _, _ =>
    I.contract op (I.operand vals 0) (I.operand vals 1) (I.operand vals 2)
  | .outerProduct _ _ _ _, vals, _, _ =>
    I.outerProduct (I.operand vals 0) (I.operand vals 1) (I.operand vals 2)
  | .other id _ _, vals, m, k => I.otherResult id vals m k
  | .transferWrite _ _ _ _, _, _, _ | .vtzero _, _, _, _ | .load _ _ _ _, _, _, _
  | .multiply _ _ _ _, _, _, _ | .writeback _ _ _ _, _, _, _ | .configure _, _, _, _ => I.vtzero

/-- The effect of an operation. -/
def effect : Leaf → List Val → State Val Mem → State Val Mem
  | .transferWrite _ kind _ _, vals, st =>
    { st with mem := I.transferWrite kind (I.operand vals 0) (I.operand vals 1) (vals.drop 2) st.mem }
  | .other id _ _, vals, st => { st with mem := I.otherEffect id vals st.mem }
  | .vtzero tile, _, st => st.setTile tile I.vtzero
  | .load tile _ rows columns, vals, st =>
    st.setTile tile (I.load rows columns (I.operand vals 0) (vals.drop 1) st.mem)
  | .multiply intrinsic tile _ _, vals, st =>
    st.setTile tile (I.multiply intrinsic (I.operand vals 0) (I.operand vals 1) (st.tiles tile))
  | .writeback tile _ rows columns, vals, st =>
    { st with
      mem := I.writeback rows columns (st.tiles tile) (I.operand vals 0) (vals.drop 1) st.mem }
  | .constant _ _, _, st | .transferRead _ _ _ _, _, st | .cast _ _ _ _ _, _, st
  | .contract _ _ _ _ _, _, st | .outerProduct _ _ _ _, _, st | .configure _, _, st => st

end Interp

/-- The execution of an operation without a region. -/
def evalLeaf (I : Interp Val Mem) (op : Leaf) (env : Env Val) (st : State Val Mem) :
    Option (Env Val × State Val Mem) := do
  let vals ← op.operands.mapM env
  return (env.bind op.results fun k => some (I.result op vals st.mem k), I.effect op vals st)

/-- The environment of an iteration of a loop. -/
def LoopHeader.bindArgs (h : LoopHeader) (env : Env Val) (iv : Val) (vals : List Val) : Env Val :=
  env.bind h.blockArgs fun k => (iv :: vals)[k]?

/-- The iterations of a loop, from iteration `k` on, with `n` to go. -/
def evalLoop (body : Env Val → State Val Mem → Option (Env Val × State Val Mem)) (h : LoopHeader)
    (env : Env Val) (iv : Nat → Val) :
    Nat → Nat → List Val → State Val Mem → Option (List Val × State Val Mem)
  | 0, _, vals, st => some (vals, st)
  | n + 1, k, vals, st => do
    let (env', st) ← body (h.bindArgs env (iv k) vals) st
    let vals ← h.yields.mapM env'
    evalLoop body h env iv n (k + 1) vals st

mutual

/-- The execution of an operation. -/
def evalOp (I : Interp Val Mem) :
    Op → Env Val → State Val Mem → Option (Env Val × State Val Mem)
  | .leaf op, env, st => evalLeaf I op env st
  | .loop h body, env, st => do
    let lowerBound ← env h.lowerBound
    let upperBound ← env h.upperBound
    let step ← env h.step
    let vals ← h.inits.mapM env
    let (vals, st) ← evalLoop (evalOps I body) h env (I.induction lowerBound step)
      (I.tripCount lowerBound upperBound step) 0 vals st
    return (env.bind h.results fun k => vals[k]?, st)

/-- The execution of a block. -/
def evalOps (I : Interp Val Mem) :
    List Op → Env Val → State Val Mem → Option (Env Val × State Val Mem)
  | [], env, st => some (env, st)
  | op :: ops, env, st => do
    let (env, st) ← evalOp I op env st
    evalOps I ops env st

end

/-! ### One operation after the other -/

variable {I : Interp Val Mem} {env env₁ : Env Val} {st st₁ : State Val Mem}

/-- The empty block changes nothing. -/
theorem evalOps_nil : evalOps I [] env st = some (env, st) := by rw [evalOps]

/-- A block, by its first operation. -/
theorem evalOps_cons {op : Op} {ops : List Op} {final : Env Val × State Val Mem} :
    evalOps I (op :: ops) env st = some final ↔
      ∃ env₁ st₁, evalOp I op env st = some (env₁, st₁) ∧ evalOps I ops env₁ st₁ = some final := by
  rw [evalOps, Option.bind_eq_bind, Option.bind_eq_some_iff]
  constructor
  · rintro ⟨⟨env₁, st₁⟩, h₁, h⟩
    exact ⟨env₁, st₁, h₁, h⟩
  · rintro ⟨env₁, st₁, h₁, h⟩
    exact ⟨(env₁, st₁), h₁, h⟩

/-- Blocks are executed one after the other. -/
theorem evalOps_append {ops ops' : List Op} {final : Env Val × State Val Mem} :
    evalOps I (ops ++ ops') env st = some final ↔
      ∃ env₁ st₁, evalOps I ops env st = some (env₁, st₁) ∧
        evalOps I ops' env₁ st₁ = some final := by
  induction ops generalizing env st with
  | nil =>
    rw [List.nil_append]
    constructor
    · exact fun h => ⟨env, st, evalOps_nil, h⟩
    · rintro ⟨env₁, st₁, h₁, h⟩
      rw [evalOps_nil] at h₁
      obtain ⟨rfl, rfl⟩ := Prod.mk.inj (Option.some.inj h₁)
      exact h
  | cons op ops ih =>
    rw [List.cons_append, evalOps_cons]
    constructor
    · rintro ⟨env₁, st₁, h₁, h⟩
      obtain ⟨env₂, st₂, h₂, h⟩ := ih.mp h
      exact ⟨env₂, st₂, evalOps_cons.mpr ⟨env₁, st₁, h₁, h₂⟩, h⟩
    · rintro ⟨env₂, st₂, h₂, h⟩
      obtain ⟨env₁, st₁, h₁, h₂⟩ := evalOps_cons.mp h₂
      exact ⟨env₁, st₁, h₁, ih.mpr ⟨env₂, st₂, h₂, h⟩⟩

/-- An operation without a body: its operands, its results and its effect. -/
theorem evalOp_leaf {op : Leaf} {final : Env Val × State Val Mem} :
    evalOp I (.leaf op) env st = some final ↔
      ∃ vals, op.operands.mapM env = some vals ∧
        final = (env.bind op.results fun k => some (I.result op vals st.mem k),
          I.effect op vals st) := by
  rw [evalOp, evalLeaf, Option.bind_eq_bind, Option.bind_eq_some_iff]
  constructor
  · rintro ⟨vals, hvals, h⟩
    exact ⟨vals, hvals, (Option.some.inj h).symm⟩
  · rintro ⟨vals, hvals, rfl⟩
    exact ⟨vals, hvals, rfl⟩

/-- A loop: its bounds, its initial values, its iterations and what they yield. -/
theorem evalOp_loop {h : LoopHeader} {body : List Op} {final : Env Val × State Val Mem} :
    evalOp I (.loop h body) env st = some final ↔
      ∃ lowerBound upperBound step vals vals' st₁, env h.lowerBound = some lowerBound ∧
        env h.upperBound = some upperBound ∧ env h.step = some step ∧
        h.inits.mapM env = some vals ∧
        evalLoop (evalOps I body) h env (I.induction lowerBound step)
          (I.tripCount lowerBound upperBound step) 0 vals st = some (vals', st₁) ∧
        final = (env.bind h.results fun k => vals'[k]?, st₁) := by
  rw [evalOp]
  simp only [Option.bind_eq_bind, Option.bind_eq_some_iff]
  constructor
  · rintro ⟨lowerBound, hl, upperBound, hu, step, hs, vals, hvals, ⟨vals', st₁⟩, hloop, h⟩
    exact ⟨lowerBound, upperBound, step, vals, vals', st₁, hl, hu, hs, hvals, hloop,
      (Option.some.inj h).symm⟩
  · rintro ⟨lowerBound, upperBound, step, vals, vals', st₁, hl, hu, hs, hvals, hloop, rfl⟩
    exact ⟨lowerBound, hl, upperBound, hu, step, hs, vals, hvals, (vals', st₁), hloop, rfl⟩

/-- One iteration. -/
theorem evalLoop_succ {body : Env Val → State Val Mem → Option (Env Val × State Val Mem)}
    {h : LoopHeader} {iv : Nat → Val} {n k : Nat} {vals : List Val}
    {final : List Val × State Val Mem} :
    evalLoop body h env iv (n + 1) k vals st = some final ↔
      ∃ env₁ st₁ vals₁, body (h.bindArgs env (iv k) vals) st = some (env₁, st₁) ∧
        h.yields.mapM env₁ = some vals₁ ∧
        evalLoop body h env iv n (k + 1) vals₁ st₁ = some final := by
  rw [evalLoop]
  simp only [Option.bind_eq_bind, Option.bind_eq_some_iff]
  constructor
  · rintro ⟨⟨env₁, st₁⟩, hbody, vals₁, hvals₁, h⟩
    exact ⟨env₁, st₁, vals₁, hbody, hvals₁, h⟩
  · rintro ⟨env₁, st₁, vals₁, hbody, hvals₁, h⟩
    exact ⟨(env₁, st₁), hbody, vals₁, hvals₁, h⟩

end CoralNPU.Matrix
