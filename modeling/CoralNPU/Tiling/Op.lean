import CoralNPU.Mlir.Types

namespace CoralNPU.Tiling

/-!
# Tiling — the root operation and its loops

The root operation of a dispatch as the tile-size-selection passes see it: a `linalg`
operation with its operands and indexing maps, a `linalg.pack`, a `linalg.unpack`, or
some other operation with a `TilingInterface`.  From it the passes read

* `getLoopIteratorTypes` and `getStaticLoopRanges` — the iteration domain;
* `classifyLoops` — the split of the loops into vector, unroll, batch and reduction
  loops, refined for `linalg` operations by `refineLinalgOpLoops`.
-/

/-- `utils::IteratorType`. -/
inductive IteratorType
  | parallel | reduction
  deriving DecidableEq, Repr

/-- An operand of a `linalg` operation with its indexing map. -/
structure LinalgOperand where
  type : ValueType
  indexingMap : AffineMap
  deriving DecidableEq, Repr

/-- The `linalg` operations the passes tell apart.  For a `linalg.generic` the two flags
    record what `isReverseOp` finds in its body: a `linalg.index`, and an `arith.subi`
    whose left operand is a constant, a `tensor.dim` or another `arith.subi`. -/
inductive LinalgKind
  | matmul | batchMatmul | mmt4D | batchMmt4D | conv2DNhwcHwcf
  | generic (hasIndex hasSubi : Bool)
  | otherNamed
  deriving DecidableEq, Repr

/-- A `linalg` operation: its iterators, its inputs and its inits (destination operands). -/
structure LinalgOp where
  kind : LinalgKind
  iteratorTypes : List IteratorType
  dpsInputs : List LinalgOperand
  dpsInits : List LinalgOperand
  deriving DecidableEq, Repr

/-- A `linalg.pack`.  `mixedTiles` holds the constant value of an inner tile, if it has one;
    `otherOperands` are the padding value and the dynamic inner tiles.  The last two fields
    are facts the operation's verifier checks. -/
structure PackOp where
  source : ValueType
  dest : ValueType
  outerDimsPerm : List Nat
  innerDimsPos : List Nat
  mixedTiles : List (Option Int)
  otherOperands : List ValueType
  rank_le : source.shape.length ≤ dest.shape.length
  innerTile_pos : ∀ tile ∈ mixedTiles, ∀ size ∈ tile, 1 ≤ size
  deriving DecidableEq, Repr

/-- A `linalg.unpack`. -/
structure UnPackOp where
  source : ValueType
  dest : ValueType
  outerDimsPerm : List Nat
  innerDimsPos : List Nat
  mixedTiles : List (Option Int)
  otherOperands : List ValueType
  innerTile_pos : ∀ tile ∈ mixedTiles, ∀ size ∈ tile, 1 ≤ size
  deriving DecidableEq, Repr

/-- Any other operation with a `TilingInterface`: its iteration domain is its own. -/
structure OtherTilingOp where
  iteratorTypes : List IteratorType
  iterationDomain : List Int
  operands : List ValueType
  domain_length : iterationDomain.length = iteratorTypes.length
  deriving DecidableEq, Repr

/-- The operation itself. -/
inductive RootKind
  | linalg (op : LinalgOp)
  | pack (op : PackOp)
  | unpack (op : UnPackOp)
  | other (op : OtherTilingOp)
  deriving DecidableEq, Repr

/-- The root operation of a dispatch, with the types of its results. -/
structure RootOp where
  op : RootKind
  resultTypes : List ValueType
  deriving DecidableEq, Repr

/-! ### The iteration domain -/

/-- All operands of a `linalg` operation, in order. -/
def LinalgOp.operands (op : LinalgOp) : List LinalgOperand := op.dpsInputs ++ op.dpsInits

/-- The operand dimensions that determine the range of loop `d`: the extents at which an
    indexing map has the plain result `d`. -/
def LinalgOp.loopExtents (op : LinalgOp) (d : Nat) : List Int :=
  op.operands.flatMap fun operand =>
    (operand.indexingMap.zip operand.type.shape).filterMap fun (expr, extent) =>
      if expr = .dim d then some extent else none

/-- `LinalgOp::getStaticLoopRanges`: the first extent found for each loop.  A loop no
    operand dimension determines has no static range. -/
def LinalgOp.getStaticLoopRanges (op : LinalgOp) : List Int :=
  (List.range op.iteratorTypes.length).map fun d => (op.loopExtents d).headD kDynamic

/-- `TilingInterface::getLoopIteratorTypes`.  A pack iterates over the outer dimensions of
    its destination, an unpack over its destination; all these loops are parallel. -/
def RootOp.getLoopIteratorTypes (root : RootOp) : List IteratorType :=
  match root.op with
  | .linalg op => op.iteratorTypes
  | .pack op => op.source.shape.map fun _ => .parallel
  | .unpack op => op.dest.shape.map fun _ => .parallel
  | .other op => op.iteratorTypes

/-- `getStaticLoopRanges` of a `TilingInterface` operation. -/
def RootOp.getStaticLoopRanges (root : RootOp) : List Int :=
  match root.op with
  | .linalg op => op.getStaticLoopRanges
  | .pack op => op.dest.shape.take op.source.shape.length
  | .unpack op => op.dest.shape
  | .other op => op.iterationDomain

/-- `isSupportedMatrixContraction(TilingInterface)`: the operations the matrix path takes. -/
def isSupportedMatrixContraction (root : RootOp) : Bool :=
  match root.op with
  | .linalg op =>
    match op.kind with
    | .matmul | .batchMatmul | .mmt4D | .batchMmt4D => true
    | _ => false
  | _ => false

/-- `isReverseOp`. -/
def isReverseOp (root : RootOp) : Bool :=
  match root.op with
  | .linalg op =>
    match op.kind with
    | .generic hasIndex hasSubi => hasIndex && hasSubi
    | _ => false
  | _ => false

/-! ### Loop classification -/

/-- Loop indices by category; see `classifyLoops`. -/
structure LoopClassification where
  vectorLoops : List Nat
  unrollLoops : List Nat
  reductionLoops : List Nat
  batchLoops : List Nat
  deriving DecidableEq, Repr

/-- The indexing map of the `i`-th operand of a list (`getMatchingIndexingMap`). -/
def mapOf (operands : List LinalgOperand) (i : Nat) : AffineMap :=
  (operands[i]?.map (·.indexingMap)).getD []

/-- `isDepthwiseConvLike`. -/
def isDepthwiseConvLike (op : LinalgOp) : Bool :=
  if op.dpsInputs.length ≠ 2 ∨ op.dpsInits.length ≠ 1 then false
  else
    let iterTypes := op.iteratorTypes
    let numParallel := iterTypes.count .parallel
    let numReduction := iterTypes.count .reduction
    if numParallel < 3 ∨ numReduction < 2 then false
    else
      let lhsMap := mapOf op.dpsInputs 0
      let rhsMap := mapOf op.dpsInputs 1
      let outMap := mapOf op.dpsInits 0
      let channelDim := numParallel - 1
      iterTypes[channelDim]? = some .parallel
        && (lhsMap.isFunctionOfDim channelDim && rhsMap.isFunctionOfDim channelDim
          && outMap.isFunctionOfDim channelDim)
        && rhsMap.all fun expr =>
          match expr with
          | .dim d => d = channelDim || iterTypes[d]? = some .reduction
          | _ => false

/-- Where `refineLinalgOpLoops` puts one parallel loop. -/
def refineLoop (isDepthwiseConv : Bool) (lhsMap rhsMap : AffineMap)
    (c : LoopClassification) (parallelLoop : Nat) : LoopClassification :=
  let inLHS := lhsMap.isFunctionOfDim parallelLoop
  let inRHS := rhsMap.isFunctionOfDim parallelLoop
  if inLHS && inRHS then
    if isDepthwiseConv then { c with vectorLoops := c.vectorLoops ++ [parallelLoop] }
    else { c with batchLoops := c.batchLoops ++ [parallelLoop] }
  else if inLHS then { c with vectorLoops := c.vectorLoops ++ [parallelLoop] }
  else if inRHS then { c with unrollLoops := c.unrollLoops ++ [parallelLoop] }
  else { c with vectorLoops := c.vectorLoops ++ [parallelLoop] }

/-- `refineLinalgOpLoops`: redistribute the parallel loops of an operation with at least
    two inputs by the operands they index. -/
def refineLinalgOpLoops (op : LinalgOp) (c : LoopClassification) : LoopClassification :=
  if op.dpsInputs.length < 2 then c
  else
    c.vectorLoops.foldl
      (refineLoop (isDepthwiseConvLike op) (mapOf op.dpsInputs 0) (mapOf op.dpsInputs 1))
      { c with vectorLoops := [] }

/-- The indices of the loops of one iterator type. -/
def loopsOfType (iterTypes : List IteratorType) (t : IteratorType) : List Nat :=
  (List.range iterTypes.length).filter fun i => iterTypes[i]? = some t

/-- `classifyLoops`. -/
def classifyLoops (root : RootOp) : LoopClassification :=
  let iterTypes := root.getLoopIteratorTypes
  let classification : LoopClassification :=
    { vectorLoops := loopsOfType iterTypes .parallel
      unrollLoops := []
      reductionLoops := loopsOfType iterTypes .reduction
      batchLoops := [] }
  match root.op with
  | .linalg op => refineLinalgOpLoops op classification
  | _ => classification

end CoralNPU.Tiling
