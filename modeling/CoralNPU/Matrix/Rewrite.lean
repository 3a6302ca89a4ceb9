import CoralNPU.Matrix.Chain
import Mathlib.Data.List.Infix

namespace CoralNPU.Matrix

/-!
# Matrix — the rewriting of the chains

`CoralNPUVectorToMatrixPass::runOnOperation`.  A chain becomes an initialization of its tile,
multiply intrinsics in place of its updates, and a writeback in place of its transfer write.

* `rewriteOps` — replace the operations of a block that an edit matches, nested ones included;
* `cloneBody` — the body of the new loop; `rewriteLoop` — the loop and what stands around it;
* `rewriteContract` — the chain without a loop;
* `rewriteChain`, `processChain`, `runOnOperation` — one chain, one round of the loop over the
  chains, and the pass.

`replaceAllUsesWith` is modelled by giving the new value the identifier of the old one.  The
clone of an operation gets fresh identifiers, `off` above the old ones, and the identifiers
of the operations that are erased with the old loop are then defined nowhere.
-/

/-! ### Editing a block -/

mutual

/-- Replace an operation that `edit` matches, or the operations of its body. -/
def rewriteOp (edit : Op → Option (List Op)) : Op → List Op
  | .leaf op => (edit (.leaf op)).getD [.leaf op]
  | .loop h body =>
    match edit (.loop h body) with
    | some ops => ops
    | none => [.loop h (rewriteOps edit body)]

/-- Replace the operations of a block that `edit` matches. -/
def rewriteOps (edit : Op → Option (List Op)) : List Op → List Op
  | [] => []
  | op :: ops => rewriteOp edit op ++ rewriteOps edit ops

end

/-! ### Cloning -/

/-- `IRMapping::lookupOrDefault`, for the values cloned so far. -/
def lookupOrDefault (off : Nat) (mapped : List ValueId) (v : ValueId) : ValueId :=
  if v ∈ mapped then v + off else v

/-- The access with its values renamed. -/
def Access.rename (ρ : ValueId → ValueId) (access : Access) : Access :=
  { base := ρ access.base, indices := access.indices.map ρ }

/-- The clone of an operation without a region.  The clone of a transfer write is an operation
    of its own. -/
def Leaf.clone (off : Nat) (ρ : ValueId → ValueId) : Leaf → Leaf
  | .constant r value => .constant (ρ r) value
  | .transferRead r kind access type => .transferRead (ρ r) kind (access.rename ρ) type
  | .cast r kind src srcType type => .cast (ρ r) kind (ρ src) srcType type
  | .contract r op lhs rhs acc => .contract (ρ r) op (ρ lhs) (ρ rhs) (ρ acc)
  | .outerProduct r lhs rhs acc => .outerProduct (ρ r) (ρ lhs) (ρ rhs) (ρ acc)
  | .transferWrite id kind access vector =>
    .transferWrite (id + off) kind (access.rename ρ) (ρ vector)
  | .other id results operands => .other id (results.map ρ) (operands.map ρ)
  | .vtzero tile => .vtzero tile
  | .load tile access rows columns => .load tile (access.rename ρ) rows columns
  | .multiply intrinsic tile lhs rhs => .multiply intrinsic tile (ρ lhs) (ρ rhs)
  | .writeback tile access rows columns => .writeback tile (access.rename ρ) rows columns
  | .configure config => .configure config

/-- The clone of a loop without its body. -/
def LoopHeader.clone (ρ : ValueId → ValueId) (h : LoopHeader) : LoopHeader :=
  { results := h.results.map ρ
    lowerBound := ρ h.lowerBound
    upperBound := ρ h.upperBound
    step := ρ h.step
    inits := h.inits.map ρ
    iv := ρ h.iv
    args := h.args.map ρ
    yields := h.yields.map ρ }

mutual

/-- The clone of an operation. -/
def cloneOp (off : Nat) (ρ : ValueId → ValueId) : Op → Op
  | .leaf op => .leaf (op.clone off ρ)
  | .loop h body => .loop (h.clone ρ) (cloneOps off ρ body)

/-- The clones of the operations of a block. -/
def cloneOps (off : Nat) (ρ : ValueId → ValueId) : List Op → List Op
  | [] => []
  | op :: ops => cloneOp off ρ op :: cloneOps off ρ ops

end

/-- An offset that leads above every identifier of a block.  The pass takes it above the
    identifiers of the function that it started from as well, erased ones included. -/
def freshOffset (ops : List Op) : Nat :=
  ((definedIds ops ++ usesOps ops ++ (transferWrites ops).map Prod.fst).foldl max 0) + 1

/-! ### One chain -/

/-- The intrinsic that multiplies inputs of a type. -/
def intrinsicFor (inputElTy : ElementType) : Except Failure Intrinsic :=
  if inputElTy.isF32 then .ok .vtfmm
  else if inputElTy.isF16 then .ok .vtfmm
  else if inputElTy.isBF16 then .ok .vtfmmAlt
  else if inputElTy.isInteger 8 then .ok .vtmms
  else .error (.assertion "an intrinsic without a name")

/-- The tile of a chain and what its instructions are made with. -/
structure TileContext where
  tile : Nat
  rows : Int
  columns : Int
  intrinsic : Intrinsic
  deriving DecidableEq, Repr

/-- The initialization of the tile: a load from where the initial value was read, or zeros. -/
def initOp (ctx : TileContext) : Option Access → Op
  | some access => .leaf (.load ctx.tile access ctx.rows ctx.columns)
  | none => .leaf (.vtzero ctx.tile)

/-- `getZeroAttr` of a type, which has none for a memref. -/
def getZeroAttr : ValueType → Except Failure ConstAttr
  | .vector type =>
    .ok (.splat (if type.elementType.isF32 then .floatZero false else .intZero)
      type.getNumElements)
  | .scalar type => .ok (.scalar (if type.isF32 then .floatZero false else .intZero))
  | .other => .error (.assertion "a constant without a value")

/-- The operands of an update of the chain; any other operation has none. -/
def updateOperands (chain : AccumulatorChain) : Op → Option (ValueId × ValueId)
  | .leaf (.contract r _ lhs rhs _) => if r ∈ chain.updates then some (lhs, rhs) else none
  | _ => none

/-- The body of the new loop.  An update of the chain becomes a multiply intrinsic on the sources
    of its operands, and its result is mapped to nothing; every other operation is cloned. -/
def cloneBody (ops : List Op) (chain : AccumulatorChain) (ctx : TileContext) (off : Nat) :
    List ValueId → List Op → List Op
  | _, [] => []
  | mapped, op :: rest =>
    match updateOperands chain op with
    | some (lhs, rhs) =>
      .leaf (.multiply ctx.intrinsic ctx.tile
          (lookupOrDefault off mapped (traceToSourceValue ops lhs))
          (lookupOrDefault off mapped (traceToSourceValue ops rhs)))
        :: cloneBody ops chain ctx off mapped rest
    | none =>
      cloneOp off (lookupOrDefault off (mapped ++ definedIds [op])) op
        :: cloneBody ops chain ctx off (mapped ++ definedIds [op]) rest

/-- The `iter_arg` that the pass takes for the accumulator: the first one that starts from the
    initial value of the chain, or else the first one. -/
def accIdx (h : LoopHeader) (initVal : ValueId) : Nat :=
  (h.inits.findIdx? (· = initVal)).getD 0

/-- The new loop without its body.  The operands of the yield are taken over as they are. -/
def LoopHeader.without (h : LoopHeader) (off accIdx : Nat) : LoopHeader :=
  { h with
    results := h.results.eraseIdx accIdx
    inits := h.inits.eraseIdx accIdx
    iv := h.iv + off
    args := (h.args.eraseIdx accIdx).map (· + off)
    yields := h.yields.eraseIdx accIdx }

/-- What stands in the place of the loop `h`: the initialization of the tile, the loop without
    the accumulator, and a zero for the users of its result. -/
def rewriteLoop (ops : List Op) (chain : AccumulatorChain) (ctx : TileContext) (off : Nat)
    (read : Option Access) (zero : ConstAttr) (h : LoopHeader) (body : List Op) : List Op :=
  let accIdx := accIdx h chain.initVal
  [initOp ctx read,
    .loop (h.without off accIdx)
      (cloneBody ops chain ctx off (h.iv :: h.args.eraseIdx accIdx) body),
    .leaf (.constant (h.results.getD accIdx 0) zero)]

/-- What stands in the place of a contraction: the initialization of the tile, the multiply
    intrinsic on the operands as they are, and a zero for the users of its result. -/
def rewriteContract (ctx : TileContext) (read : Option Access) (zero : ConstAttr)
    (result lhs rhs : ValueId) : List Op :=
  [initOp ctx read, .leaf (.multiply ctx.intrinsic ctx.tile lhs rhs),
    .leaf (.constant result zero)]

/-- The operand of a transfer write, if it is there. -/
def writtenValue (ops : List Op) (writeback : Nat) : Option ValueId :=
  (transferWrites ops).lookup writeback

mutual

/-- The loop that has a result. -/
def findLoopOp (result : ValueId) : Op → Option (LoopHeader × List Op)
  | .leaf _ => none
  | .loop h body => if result ∈ h.results then some (h, body) else findLoop result body

/-- `getDefiningOp<scf::ForOp>`. -/
def findLoop (result : ValueId) : List Op → Option (LoopHeader × List Op)
  | [] => none
  | op :: ops => (findLoopOp result op).or (findLoop result ops)

end

/-- The edit that replaces the loop with result `result`. -/
def replaceLoop (result : ValueId) (new : LoopHeader → List Op → List Op) :
    Op → Option (List Op)
  | .loop h body => if result ∈ h.results then some (new h body) else none
  | .leaf _ => none

/-- The edit that replaces the contraction with result `result`. -/
def replaceContract (result : ValueId) (new : ValueId → ValueId → List Op) :
    Op → Option (List Op)
  | .leaf (.contract r _ lhs rhs _) => if r = result then some (new lhs rhs) else none
  | _ => none

/-- The edit that replaces a transfer write by a writeback of the tile. -/
def replaceWrite (writeback : Nat) (ctx : TileContext) : Op → Option (List Op)
  | .leaf (.transferWrite id _ access _) =>
    if id = writeback then some [.leaf (.writeback ctx.tile access ctx.rows ctx.columns)] else none
  | _ => none

/-- The operations of a chain that an earlier rewriting erased. -/
def useAfterErase : Failure := .assertion "use of an erased operation"

/-- The assertions on the rank of a memref. -/
def checkRank (access : Access) : Except Failure Unit :=
  if 2 ≤ access.indices.length then .ok ()
  else .error (.assertion "expected memref rank to be at least 2")

/-- See `checkRank`; an initial value that is not read has no memref. -/
def checkReadRank : Option Access → Except Failure Unit
  | some access => checkRank access
  | none => .ok ()

/-- The access of a transfer write. -/
def writeAccess (ops : List Op) (writeback : Nat) : Option Access :=
  (leavesOps ops).findSome? fun op =>
    match op with
    | .transferWrite id _ access _ => if id = writeback then some access else none
    | _ => none

/-- The initialization and the updates of a chain: the loop or the first update is replaced. -/
def rewriteUpdates (f : Function) (ops : List Op) (chain : AccumulatorChain) (ctx : TileContext)
    (vector : ValueId) : Except Failure (List Op) := do
  let read := readOp (findDef f.body chain.initVal)
  checkReadRank read
  match findLoop vector ops with
  | some (h, _) =>
    let zero ← getZeroAttr (f.types (h.results.getD (accIdx h chain.initVal) 0))
    let off := freshOffset (f.body ++ ops)
    return rewriteOps (replaceLoop vector (rewriteLoop ops chain ctx off read zero)) ops
  | none =>
    match findDef ops (chain.updates.headD 0) with
    | some (.leaf (.contract result _ _ _ _)) =>
      let zero ← getZeroAttr (f.types result)
      return rewriteOps (replaceContract result fun lhs rhs =>
        rewriteContract ctx read zero result lhs rhs) ops
    | _ => throw useAfterErase

/-- The writeback of a chain in the place of its transfer write. -/
def rewriteWriteback (ops : List Op) (chain : AccumulatorChain) (ctx : TileContext) :
    Except Failure (List Op) :=
  match writeAccess ops chain.writeback with
  | some access => do
    checkRank access
    return rewriteOps (replaceWrite chain.writeback ctx) ops
  | none => throw useAfterErase

/-- One chain with a supported initial value. -/
def rewriteChain (f : Function) (ops : List Op) (chain : AccumulatorChain) (ctx : TileContext)
    (vector : ValueId) : Except Failure (List Op) := do
  let ops ← rewriteUpdates f ops chain ctx vector
  rewriteWriteback ops chain ctx

/-! ### The pass -/

/-- `hasZvtFeature`: the feature string contains the feature. -/
def hasZvtFeature (f : Function) : Bool :=
  match f.cpuFeatures with
  | none => false
  | some cpuFeatures => decide ("+zvtbase".toList <:+: cpuFeatures)

/-- The type words that `insertMatrixConfiguration` sets for an input type: `vtype` and
    `mtwiden`. -/
def configTypes (inputElTy : ElementType) : Except Failure (BitVec 32 × BitVec 32) :=
  if inputElTy.isF32 then .ok (16, 1)
  else if inputElTy.isBF16 then .ok (8, 2)
  else if inputElTy.isInteger 8 then .ok (0, 3)
  else .error (.assertion "unsupported input element type for Matrix")

/-- The configuration that `insertMatrixConfiguration` sets for a shape and an input type. -/
def matrixConfig (M N : Int) (inputElTy : ElementType) : Except Failure MatrixConfig := do
  let (vtype, mtwiden) ← configTypes inputElTy
  return { mtype := (BitVec.ofInt 32 M <<< 10) ||| ((1 : BitVec 32) <<< 5) ||| mtwiden
           vtype
           tn := BitVec.ofInt 32 N }

/-- `insertMatrixConfiguration`: only a `func.func` is configured, at its entry. -/
def insertMatrixConfiguration (f : Function) (M N : Int) (inputElTy : ElementType) :
    Except Failure Function :=
  if f.isFuncOp then do
    let config ← matrixConfig M N inputElTy
    return { f with body := .leaf (.configure config) :: f.body }
  else .ok f

/-- What the loop over the chains keeps. -/
structure PassState where
  ops : List Op
  rewritten : Bool
  nextTileId : Nat
  configM : Int
  configN : Int
  inputElTy : Option ElementType

/-- The state before the first chain. -/
def PassState.init (f : Function) : PassState :=
  { ops := f.body, rewritten := false, nextTileId := 0, configM := 4, configN := 4
    inputElTy := none }

/-- The type of a written vector. -/
def castVectorType : ValueType → Except Failure VectorType
  | .vector type => .ok type
  | _ => .error (.assertion "cast<VectorType>(chain.writeback.getVector().getType())")

/-- Was the operation that defines a value of the function erased? -/
def isErased (f : Function) (ops : List Op) (v : ValueId) : Bool :=
  v ∈ definedIds f.body && v ∉ definedIds ops

/-- One round of the loop over the chains.  The configuration and the tile counter move on for a
    chain that is skipped, too. -/
def processChain (f : Function) (s : PassState) (chain : AccumulatorChain) :
    Except Failure PassState := do
  match writtenValue s.ops chain.writeback with
  | none => throw useAfterErase
  | some vector =>
    let vecType ← castVectorType (f.types vector)
    let configM := vecType.getDimSize 0
    let configN := vecType.getDimSize 1
    let tileId := s.nextTileId
    let s := { s with
      nextTileId := tileId + 1, configM, configN, inputElTy := some chain.inputElTy }
    if tileId ≥ 16 then
      throw (.passFailure "Matrix only supports up to 16 tile registers")
    if isErased f s.ops chain.initVal then throw useAfterErase
    if isSupportedInit (findDef f.body chain.initVal) then
      let intrinsic ← intrinsicFor chain.inputElTy
      let ctx := { tile := tileId, rows := configM, columns := configN, intrinsic }
      let ops ← rewriteChain f s.ops chain ctx vector
      return { s with ops, rewritten := true }
    else return s

/-- `CoralNPUVectorToMatrixPass::runOnOperation`. -/
def runOnOperation (f : Function) : Except Failure Function :=
  if hasZvtFeature f then do
    let chains ← collectChains f
    let s ← chains.foldlM (processChain f) (PassState.init f)
    if s.rewritten then
      match s.inputElTy with
      | none => throw (.assertion "expected inputElTy to be set")
      | some inputElTy =>
        insertMatrixConfiguration { f with body := s.ops } s.configM s.configN inputElTy
    else return { f with body := s.ops }
  else .ok f

end CoralNPU.Matrix
