namespace CoralNPU

/-!
# Types, affine expressions and failures shared by the compiler passes

* `ElementType`, `TensorType`, `ValueType` — the part of MLIR's type system the passes
  inspect; the passes' queries (`isF32`, `getIntOrFloatBitWidth`, …) are functions on them.
* `AffineExpr`, `AffineMap` — indexing maps.  A map is the list of its results.
* `Failure` — how a pass can end other than by succeeding.  A failed assertion and a
  division by zero are outcomes of the model, so that their absence can be proved.
-/

/-- How a compiler pass ends when it does not succeed. -/
inductive Failure
  /-- `signalPassFailure`, with the diagnostic the pass emits (if any). -/
  | passFailure (message : String)
  /-- A failed `assert`. -/
  | assertion (condition : String)
  /-- An integer division by zero. -/
  | divisionByZero (expression : String)
  deriving DecidableEq, Repr

/-! ### Element types -/

/-- The element types the passes distinguish. -/
inductive ElementType
  | integer (width : Nat)
  | f16 | bf16 | f32 | f64
  | index
  deriving DecidableEq, Repr

namespace ElementType

/-- `Type::isF32`. -/
def isF32 (t : ElementType) : Bool := t = .f32
/-- `Type::isF16`. -/
def isF16 (t : ElementType) : Bool := t = .f16
/-- `Type::isBF16`. -/
def isBF16 (t : ElementType) : Bool := t = .bf16
/-- `Type::isInteger`, for a width. -/
def isInteger (t : ElementType) (width : Nat) : Bool := t = .integer width

/-- `Type::isIntOrFloat`. -/
def isIntOrFloat : ElementType → Bool
  | .index => false
  | _ => true

/-- `Type::getIntOrFloatBitWidth`, which asserts that the type is an integer or a float. -/
def getIntOrFloatBitWidth : ElementType → Except Failure Int
  | .integer w => .ok w
  | .f16 => .ok 16
  | .bf16 => .ok 16
  | .f32 => .ok 32
  | .f64 => .ok 64
  | .index => .error (.assertion "only integers and floats have a bitwidth")

end ElementType

/-- `ShapedType::kDynamic`, the extent of a dynamic dimension. -/
def kDynamic : Int := -9223372036854775808

/-- A ranked tensor type. -/
structure TensorType where
  shape : List Int
  elementType : ElementType
  deriving DecidableEq, Repr

/-- The type of a value: a ranked tensor or a scalar. -/
inductive ValueType
  | tensor (type : TensorType)
  | scalar (type : ElementType)
  deriving DecidableEq, Repr

/-- The shape of a value; a scalar has none. -/
def ValueType.shape : ValueType → List Int
  | .tensor t => t.shape
  | .scalar _ => []

/-! ### Affine expressions and maps -/

/-- `AffineExpr` over loop dimensions (the passes build no symbols). -/
inductive AffineExpr
  | dim (position : Nat)
  | const (value : Int)
  | add (lhs rhs : AffineExpr)
  | mul (lhs rhs : AffineExpr)
  | floorDiv (lhs rhs : AffineExpr)
  | ceilDiv (lhs rhs : AffineExpr)
  | mod (lhs rhs : AffineExpr)
  deriving DecidableEq, Repr

namespace AffineExpr

/-- Does the expression mention loop dimension `d`? -/
def isFunctionOfDim : AffineExpr → Nat → Bool
  | .dim position, d => position == d
  | .const _, _ => false
  | .add a b, d | .mul a b, d | .floorDiv a b, d | .ceilDiv a b, d | .mod a b, d =>
    a.isFunctionOfDim d || b.isFunctionOfDim d

/-- The value of the expression at an iteration point. -/
def eval : AffineExpr → (Nat → Int) → Int
  | .dim position, p => p position
  | .const value, _ => value
  | .add a b, p => a.eval p + b.eval p
  | .mul a b, p => a.eval p * b.eval p
  | .floorDiv a b, p => Int.fdiv (a.eval p) (b.eval p)
  | .ceilDiv a b, p => -Int.fdiv (-a.eval p) (b.eval p)
  | .mod a b, p => Int.fmod (a.eval p) (b.eval p)

end AffineExpr

/-- An affine map, as the list of its results. -/
abbrev AffineMap := List AffineExpr

/-- `AffineMap::isFunctionOfDim`. -/
def AffineMap.isFunctionOfDim (map : AffineMap) (d : Nat) : Bool :=
  map.any (·.isFunctionOfDim d)

/-- The map whose results are the given loop dimensions. -/
def AffineMap.ofDims (dims : List Nat) : AffineMap := dims.map .dim

end CoralNPU
