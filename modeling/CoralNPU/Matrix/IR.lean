import Mathlib.Algebra.Group.Nat.Defs
import CoralNPU.Matrix.Contract

namespace CoralNPU.Matrix

/-!
# Matrix — the program representation

The part of MLIR that the vector-to-matrix pass reads and writes: blocks of operations in SSA
form, with `scf.for` as the operation that has a region.

* `Leaf` — the operations without a region.  What the pass does not look into is `other`: an
  operation with operands, results and an effect (a region it may have is part of it).
* `LoopHeader`, `Op` — a loop without its body, and an operation of a block.
* `Function` — what the pass runs on.
* `findDef` — `Value::getDefiningOp` and the owner of a block argument; `usesOps` — the operands
  of a block, nested ones included.

The operations that the pass emits are leaves as well.  The address computations around them
(space casts, subviews, the flattening of `castToScalable`) are part of them.
-/

/-- An SSA value. -/
abbrev ValueId := Nat

/-! ### Attributes -/

/-- The scalar of a splat constant.  Both zeros of a float type are zero. -/
inductive ScalarAttr
  | floatZero (negative : Bool)
  | intZero
  | nonzero (id : Nat)
  deriving DecidableEq, Repr

/-- The value of an `arith.constant`: a splat of `count` elements, a scalar, or any other
    attribute. -/
inductive ConstAttr
  | splat (value : ScalarAttr) (count : Nat)
  | scalar (value : ScalarAttr)
  | other (id : Nat)
  deriving DecidableEq, Repr

/-- The operations that `traceToSourceValue` looks through. -/
inductive CastKind
  | extF | extSI | extUI | broadcast | shapeCast
  deriving DecidableEq, Repr

/-- How a transfer maps the vector to the memory: an in-bounds minor identity, or some other
    map or mask. -/
inductive TransferKind
  | minorIdentity
  | other (id : Nat)
  deriving DecidableEq, Repr

/-- The base and the indices of a transfer. -/
structure Access where
  base : ValueId
  indices : List ValueId
  deriving DecidableEq, Repr

/-- The intrinsics that multiply into a tile: `vtfmm.tvv`, `vtfmm.alt.tvv`, `vtmms.tvv`. -/
inductive Intrinsic
  | vtfmm | vtfmmAlt | vtmms
  deriving DecidableEq, Repr

/-- The operands of `msetmtype` and `msettn`: the packed matrix type, the vector type and the
    number of columns. -/
structure MatrixConfig where
  mtype : BitVec 32
  vtype : BitVec 32
  tn : BitVec 32
  deriving DecidableEq, Repr

/-- The type of a value.  A memref, and any type the pass knows nothing about, is `other`. -/
inductive ValueType
  | vector (type : VectorType)
  | scalar (type : ElementType)
  | other
  deriving DecidableEq, Repr

/-- `VectorType::getNumElements`. -/
def VectorType.getNumElements (t : VectorType) : Nat := (t.shape.map Int.toNat).prod

/-! ### Operations -/

/-- An operation without a region. -/
inductive Leaf
  | constant (result : ValueId) (value : ConstAttr)
  | transferRead (result : ValueId) (kind : TransferKind) (access : Access) (type : VectorType)
  | cast (result : ValueId) (kind : CastKind) (src : ValueId) (srcType type : VectorType)
  | contract (result : ValueId) (op : ContractionOp) (lhs rhs acc : ValueId)
  | outerProduct (result lhs rhs acc : ValueId)
  | transferWrite (id : Nat) (kind : TransferKind) (access : Access) (vector : ValueId)
  | other (id : Nat) (results operands : List ValueId)
  /-- `llvm.riscv.zvt.vtzero`. -/
  | vtzero (tile : Nat)
  /-- `call @coralnpu.matrix.load` on a subview of `rows` rows and `columns` columns. -/
  | load (tile : Nat) (access : Access) (rows columns : Int)
  /-- The multiply-accumulate intrinsics. -/
  | multiply (intrinsic : Intrinsic) (tile : Nat) (lhs rhs : ValueId)
  /-- `call @coralnpu.matrix.writeback` on such a subview. -/
  | writeback (tile : Nat) (access : Access) (rows columns : Int)
  /-- `llvm.riscv.zvt.msetmtype` and `llvm.riscv.zvt.msettn`. -/
  | configure (config : MatrixConfig)
  deriving DecidableEq, Repr

/-- An `scf.for` without its body: results, bounds, initial values, block arguments and the
    operands of its `scf.yield`. -/
structure LoopHeader where
  results : List ValueId
  lowerBound : ValueId
  upperBound : ValueId
  step : ValueId
  inits : List ValueId
  iv : ValueId
  args : List ValueId
  yields : List ValueId
  deriving DecidableEq, Repr

/-- An operation of a block. -/
inductive Op
  | leaf (op : Leaf)
  | loop (header : LoopHeader) (body : List Op)

/-- A function that the pass runs on.  `cpuFeatures` is the feature string of its executable
    target, if it has one; `types` gives the types of its values. -/
structure Function where
  isFuncOp : Bool
  cpuFeatures : Option (List Char)
  types : ValueId → ValueType
  body : List Op

/-! ### Definitions and uses -/

namespace Leaf

/-- The results of an operation. -/
def results : Leaf → List ValueId
  | .constant r _ | .transferRead r _ _ _ | .cast r _ _ _ _ | .contract r _ _ _ _
  | .outerProduct r _ _ _ => [r]
  | .other _ rs _ => rs
  | .transferWrite _ _ _ _ | .vtzero _ | .load _ _ _ _ | .multiply _ _ _ _
  | .writeback _ _ _ _ | .configure _ => []

/-- The operands of an operation. -/
def operands : Leaf → List ValueId
  | .constant _ _ | .vtzero _ | .configure _ => []
  | .transferRead _ _ access _ | .load _ access _ _ | .writeback _ access _ _ =>
    access.base :: access.indices
  | .cast _ _ src _ _ => [src]
  | .contract _ _ lhs rhs acc | .outerProduct _ lhs rhs acc => [lhs, rhs, acc]
  | .transferWrite _ _ access vector => vector :: access.base :: access.indices
  | .other _ _ operands => operands
  | .multiply _ _ lhs rhs => [lhs, rhs]

/-- The tile that a matrix instruction works on. -/
def tile? : Leaf → Option Nat
  | .vtzero tile | .load tile _ _ _ | .multiply _ tile _ _ | .writeback tile _ _ _ => some tile
  | _ => none

end Leaf

/-- The operands of a loop itself. -/
def LoopHeader.operands (h : LoopHeader) : List ValueId :=
  h.lowerBound :: h.upperBound :: h.step :: h.inits

/-- The block arguments of a loop: the induction variable is argument 0. -/
def LoopHeader.blockArgs (h : LoopHeader) : List ValueId := h.iv :: h.args

/-- Where a value is defined. -/
inductive Def
  | leaf (op : Leaf)
  | loopResult (header : LoopHeader) (number : Nat)
  | blockArg (header : LoopHeader) (number : Nat)
  deriving DecidableEq

mutual

/-- The values that an operation defines, nested ones included, with their definitions.  The
    results of a loop stand after the values of its body: a value stands after the ones that it
    is computed from. -/
def defsOp : Op → List (ValueId × Def)
  | .leaf op => op.results.map fun r => (r, .leaf op)
  | .loop h body =>
    h.blockArgs.zipIdx.map (fun a => (a.1, .blockArg h a.2)) ++ (defsOps body
      ++ h.results.zipIdx.map fun r => (r.1, .loopResult h r.2))

/-- The values that a block defines. -/
def defsOps : List Op → List (ValueId × Def)
  | [] => []
  | op :: ops => defsOp op ++ defsOps ops

end

/-- The definition of a value; a function argument has none. -/
def findDef (ops : List Op) (v : ValueId) : Option Def := (defsOps ops).lookup v

/-- The values that a block defines. -/
def definedIds (ops : List Op) : List ValueId := (defsOps ops).map Prod.fst

mutual

/-- The operands of an operation, nested ones included. -/
def usesOp : Op → List ValueId
  | .leaf op => op.operands
  | .loop h body => h.operands ++ usesOps body ++ h.yields

/-- The operands of a block. -/
def usesOps : List Op → List ValueId
  | [] => []
  | op :: ops => usesOp op ++ usesOps ops

end

mutual

/-- The operations of a block without a region, nested ones included, in the order of a walk. -/
def leavesOp : Op → List Leaf
  | .leaf op => [op]
  | .loop _ body => leavesOps body

/-- See `leavesOp`. -/
def leavesOps : List Op → List Leaf
  | [] => []
  | op :: ops => leavesOp op ++ leavesOps ops

end

@[simp] theorem leavesOps_nil : leavesOps [] = [] := by rw [leavesOps]

@[simp] theorem leavesOps_cons (op : Op) (ops : List Op) :
    leavesOps (op :: ops) = leavesOp op ++ leavesOps ops := by rw [leavesOps]

@[simp] theorem leavesOp_leaf (op : Leaf) : leavesOp (.leaf op) = [op] := by rw [leavesOp]

@[simp] theorem leavesOp_loop (h : LoopHeader) (body : List Op) :
    leavesOp (.loop h body) = leavesOps body := by rw [leavesOp]

@[simp] theorem leavesOps_append (ops ops' : List Op) :
    leavesOps (ops ++ ops') = leavesOps ops ++ leavesOps ops' := by
  induction ops with
  | nil => rfl
  | cons op ops ih => simp [ih]

end CoralNPU.Matrix
