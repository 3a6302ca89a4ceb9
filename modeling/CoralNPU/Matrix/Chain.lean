import CoralNPU.Lib.Except
import CoralNPU.Lib.While
import CoralNPU.Matrix.IR

namespace CoralNPU.Matrix

/-!
# Matrix — accumulator chains

The analysis of the vector-to-matrix pass: from a transfer write back through the contractions
that accumulate into the written vector, to the value that the accumulation starts from.

* `traceToSourceValue` — through the casts of an operand;
* `analyzeStep`, `analyzeChain` — one round of the analysis loop, and the analysis;
* `collectChains` — the chains of a function;
* `isConstantZero` — the test of the initial value.

An operation is named by the value that it defines and a transfer write by its id.  Chains of
values end, so both loops get as much fuel as the function has values.
-/

/-! ### Tracing an operand -/

/-- One round of `traceToSourceValue`: an extension, a broadcast and a shape cast are looked
    through. -/
def traceStep (ops : List Op) (val : ValueId) : ValueId ⊕ ValueId :=
  match findDef ops val with
  | some (.leaf (.cast _ _ src _ _)) => .inl src
  | _ => .inr val

/-- The fuel of the loops over a chain of values. -/
def traceFuel (ops : List Op) : Nat := (definedIds ops).length + 1

/-- `traceToSourceValue`. -/
def traceToSourceValue (ops : List Op) (val : ValueId) : ValueId :=
  (Lib.iterate (traceStep ops) (traceFuel ops) val).getD val

/-! ### The analysis -/

/-- `AccumulatorChain`.  The tile is assigned later. -/
structure AccumulatorChain where
  initVal : ValueId
  updates : List ValueId
  writeback : Nat
  inputElTy : ElementType
  deriving DecidableEq, Repr

/-- What the analysis loop keeps: the value it is at, the loop that it is inside of, with the
    number of the result it came through, and the updates found so far, in execution order. -/
structure Trace where
  val : ValueId
  activeLoop : Option (LoopHeader × Nat)
  updates : List ValueId
  inputElTy : Option ElementType

/-- How the analysis loop ends: without a chain, or at a value, which is the initial value
    if it is outside of every loop the trace went through. -/
inductive TraceEnd
  | abort
  | stop (initVal : Option ValueId) (updates : List ValueId) (inputElTy : Option ElementType)

/-- The trace ends at its value. -/
def Trace.stop (t : Trace) : TraceEnd :=
  .stop (if t.activeLoop.isNone then some t.val else none) t.updates t.inputElTy

/-- The element type that a contraction has for the pass: that of the source of its left
    operand, which is cast to a vector type. -/
def traceToSourceElementType (f : Function) (lhs : ValueId) : Except Failure ElementType :=
  match f.types (traceToSourceValue f.body lhs) with
  | .vector type => .ok type.elementType
  | _ => .error (.assertion "cast<VectorType>(traceToSourceValue(lhs).getType())")

/-- One round of the loop of `analyzeChain`. -/
def analyzeStep (f : Function) (t : Trace) : Trace ⊕ Except Failure TraceEnd :=
  match findDef f.body t.val with
  -- An argument of the function.
  | none => .inr (.ok t.stop)
  | some (.blockArg header number) =>
    match t.activeLoop with
    | some (loop, resNum) =>
      if header = loop ∧ number = resNum + 1 then
        match loop.inits[resNum]? with
        | some init => .inl { t with val := init, activeLoop := none }
        | none => .inr (.ok .abort)
      else .inr (.ok t.stop)
    | none => .inr (.ok t.stop)
  | some (.loopResult header resNum) =>
    match t.activeLoop, header.yields[resNum]? with
    | none, some yielded => .inl { t with val := yielded, activeLoop := some (header, resNum) }
    | _, _ => .inr (.ok .abort)
  | some (.leaf (.contract result op lhs _ acc)) =>
    -- The type of the source is looked at only when the shapes fit.
    if (getMatrixSizes op).isNone then .inr (.ok .abort)
    else
      match traceToSourceElementType f lhs with
      | .error e => .inr (.error e)
      | .ok inputElTy =>
        if isSupportedMatrixContraction op inputElTy then
          .inl { t with val := acc, updates := result :: t.updates, inputElTy := some inputElTy }
        else .inr (.ok .abort)
  | some (.leaf (.constant _ _)) | some (.leaf (.transferRead _ _ _ _)) => .inr (.ok t.stop)
  | some (.leaf _) => .inr (.ok .abort)

/-- The types of a written vector that the analysis goes on with. -/
def isAccumulatorType : ValueType → Bool
  | .vector type => type.shape.length = 2
      && (type.elementType.isF32 || type.elementType.isInteger 32)
  | _ => false

/-- `analyzeChain` on the transfer write `writeback` of `vector`.  The first update sets the
    element type, so a trace without one found no update. -/
def analyzeChain (f : Function) (writeback : Nat) (vector : ValueId) :
    Except Failure (Option AccumulatorChain) :=
  if isAccumulatorType (f.types vector) then
    match Lib.iterate (analyzeStep f) (traceFuel f.body)
        { val := vector, activeLoop := none, updates := [], inputElTy := none } with
    | some (.error e) => .error e
    | some (.ok (.stop (some initVal) updates (some inputElTy))) =>
      .ok (some { initVal, updates, writeback, inputElTy })
    | _ => .ok none
  else .ok none

/-- The transfer writes of a block in the order of a walk, with the vectors they write. -/
def transferWrites (ops : List Op) : List (Nat × ValueId) :=
  (leavesOps ops).filterMap fun op =>
    match op with
    | .transferWrite id _ _ vector => some (id, vector)
    | _ => none

/-- The accumulator chains of a function. -/
def collectChains (f : Function) : Except Failure (List AccumulatorChain) := do
  let chains ← (transferWrites f.body).mapM fun w => analyzeChain f w.1 w.2
  return chains.filterMap id

/-- `isConstantZero`. -/
def isConstantZero : Option Def → Bool
  | some (.leaf (.constant _ (.splat (.floatZero _) _)))
  | some (.leaf (.constant _ (.splat .intZero _))) => true
  | _ => false

/-- The `transfer_read` that defines a value. -/
def readOp : Option Def → Option Access
  | some (.leaf (.transferRead _ _ access _)) => some access
  | _ => none

/-- The initial values that the pass can put into a tile. -/
def isSupportedInit (def? : Option Def) : Bool := (readOp def?).isSome || isConstantZero def?

end CoralNPU.Matrix
