import CoralNPU.Lib.Strided
import CoralNPU.Tiling.Config

namespace CoralNPU.Matrix

open CoralNPU.Tiling

/-!
# Matrix — the row-by-row lowering of tile loads and writebacks

After the conversion to the LLVM dialect a placeholder call has ten operands: the seven fields
of a memref descriptor of rank 2, two indices and the tile.  `lowerMatrixMemOp` replaces it by
one `vtle` or `vtse` for each row.

* `CallOp` — the call, as far as the lowering looks at it;
* `Value`, `CallIntrinsic` — what the lowering emits: expressions over the operands of the call,
  of the index type and of `i32`, and the intrinsics;
* `lowerMatrixMemOp` — the lowering;
* `lowerMatrixMemOp_eq` — the width in the name of the call does not reach the lowering: every
  call is lowered to accesses of 32 bits.
-/

/-! ### The calls -/

/-- `getOrDeclareLoadFunc`: the name of the load of elements of `width` bits. -/
def loadFuncName (width : Nat) : List Char :=
  "coralnpu.matrix.load.w".toList ++ Nat.toDigits 10 width

/-- `getOrDeclareWritebackFunc`: the name of the writeback of elements of `width` bits. -/
def writebackFuncName (width : Nat) : List Char :=
  "coralnpu.matrix.writeback.w".toList ++ Nat.toDigits 10 width

/-- A call: its callee, and for each operand its value if an integer constant defines it. -/
structure CallOp where
  callee : List Char
  operands : List (Option Int)
  deriving DecidableEq, Repr

/-! ### What is emitted -/

/-- A value of a type of `w` bits, over the operands of the call. -/
inductive Value (w : Nat)
  | operand (i : Nat)
  | constant (value : Int)
  | mul (a b : Value w)
  | add (a b : Value w)
  | shl (a b : Value w)
  | or (a b : Value w)
  deriving DecidableEq, Repr

/-- The element types of the accesses: `i8`, `i16`, `f32` and `i64`. -/
inductive GepElementType
  | i8 | i16 | f32 | i64
  deriving DecidableEq, Repr

/-- The bytes of an element. -/
def GepElementType.bytes : GepElementType → Nat
  | .i8 => 1
  | .i16 => 2
  | .f32 => 4
  | .i64 => 8

/-- The element type for the width in the name of a call. -/
def gepElementType (width : Nat) : Option GepElementType :=
  if width = 8 then some .i8
  else if width = 16 then some .i16
  else if width = 32 then some .f32
  else if width = 64 then some .i64
  else none

/-- A call of `vtle` or `vtse` for elements of `element`, on the row that `tss` selects and the
    address `alignedPtr + finalOffset`, the offset counted in elements. -/
structure CallIntrinsic (w : Nat) where
  isLoad : Bool
  element : GepElementType
  tss : Value 32
  alignedPtr : Nat
  finalOffset : Value w
  deriving DecidableEq, Repr

/-! ### The lowering -/

/-- `StringRef::getAsInteger(10, unsigned&)`. -/
def getAsUnsigned (text : List Char) : Option Nat := do
  let value ← parseDigits text
  if value < 4294967296 then some value.toNat else none

/-- `(tileId << 27) | row`. -/
def tssValue (row : Nat) : Value 32 :=
  .or (.shl (.operand 9) (.constant 27)) (.constant row)

/-- `offset + idx0 * stride0 + idx1 * stride1`. -/
def totalOffset (w : Nat) : Value w :=
  let offset := .operand 2
  let stride0 := .operand 5
  let stride1 := .operand 6
  let idx0 := .operand 7
  let idx1 := .operand 8
  .add (.add offset (.mul idx0 stride0)) (.mul idx1 stride1)

/-- `totalOffset + row * stride0`. -/
def rowOffset (w row : Nat) : Value w :=
  .add (totalOffset w) (.mul (.constant row) (.operand 5))

/-- The number of rows: `size0` if it is a constant, else 4. -/
def numRows (callOp : CallOp) : Int := (callOp.operands.getD 3 none).getD 4

/-- `StringRef::contains`. -/
def contains (text pattern : List Char) : Bool := (afterFirst pattern text).isSome

/-- `lowerMatrixMemOp`. -/
def lowerMatrixMemOp (w : Nat) (callOp : CallOp) : Except String (List (CallIntrinsic w)) :=
  if callOp.operands.length ≠ 10 then .error "expected 10 operands after LLVM conversion"
  else
    let isLoad := contains callOp.callee "load".toList
    -- the text from there on starts inside the word before the width
    let widthStr := callOp.callee.drop (if isLoad then 19 else 24)
    let width := (getAsUnsigned widthStr).getD 32
    match gepElementType width with
    | none => .error "unsupported width"
    | some element => .ok ((List.range (numRows callOp).toNat).map fun row =>
        { isLoad := isLoad, element := element, tss := tssValue row, alignedPtr := 1,
          finalOffset := rowOffset w row })

/-! ### What the name of the call decides -/

theorem afterFirst_eq_none {pattern text : List Char} {c : Char} (hc : pattern.head? = some c)
    (h : c ∉ text) : afterFirst pattern text = none := by
  obtain ⟨rest, rfl⟩ : ∃ rest, pattern = c :: rest := by
    cases pattern with
    | nil => cases hc
    | cons d rest => exact ⟨rest, by rw [← Option.some.inj hc]⟩
  induction text with
  | nil => rfl
  | cons d text ih =>
    rw [List.mem_cons, not_or] at h
    rw [afterFirst, if_neg (by simp [List.isPrefixOf, h.1]), ih h.2]

theorem l_notMem_toDigits (width : Nat) : 'l' ∉ Nat.toDigits 10 width := by
  intro h
  have hdigit := Nat.isDigit_of_mem_toDigits (by decide) (by decide) h
  exact absurd hdigit (by decide)

/-- "load" stands in a name that starts like that of the load. -/
theorem contains_load (text : List Char) :
    contains ("coralnpu.matrix.load.w".toList ++ text) "load".toList = true := by
  have hname : "coralnpu.matrix.load.w".toList
      = ['c', 'o', 'r', 'a', 'l', 'n', 'p', 'u', '.', 'm', 'a', 't', 'r', 'i', 'x', '.', 'l', 'o',
        'a', 'd', '.', 'w'] := by decide
  have hload : "load".toList = ['l', 'o', 'a', 'd'] := by decide
  rw [hname, hload]
  rfl

/-- It stands in a name that starts like that of the writeback only if it stands in the rest:
    the `l` of `coralnpu` is the only one. -/
theorem contains_writeback (text : List Char) :
    contains ("coralnpu.matrix.writeback.w".toList ++ text) "load".toList
      = contains text "load".toList := by
  have hname : "coralnpu.matrix.writeback.w".toList
      = ['c', 'o', 'r', 'a', 'l', 'n', 'p', 'u', '.', 'm', 'a', 't', 'r', 'i', 'x', '.', 'w', 'r',
        'i', 't', 'e', 'b', 'a', 'c', 'k', '.', 'w'] := by decide
  have hload : "load".toList = ['l', 'o', 'a', 'd'] := by decide
  rw [hname, hload]
  rfl

theorem contains_toDigits (width : Nat) :
    contains (Nat.toDigits 10 width) "load".toList = false := by
  have hload : "load".toList.head? = some 'l' := by decide
  rw [contains, afterFirst_eq_none hload (l_notMem_toDigits width)]
  rfl

/-- A text that starts with a letter is no number. -/
theorem getAsUnsigned_of_not_digit {c : Char} (hc : c.isDigit = false) (text : List Char) :
    getAsUnsigned (c :: text) = none := by
  simp [getAsUnsigned, parseDigits, List.foldlM_cons, hc]

/-- The name of the load, or of the writeback, of elements of `width` bits. -/
def funcName (isLoad : Bool) (width : Nat) : List Char :=
  if isLoad then loadFuncName width else writebackFuncName width

theorem contains_funcName (isLoad : Bool) (width : Nat) :
    contains (funcName isLoad width) "load".toList = isLoad := by
  cases isLoad with
  | true => exact contains_load (Nat.toDigits 10 width)
  | false => exact (contains_writeback _).trans (contains_toDigits width)

/-- The text that is parsed starts with a letter of the name. -/
theorem getAsUnsigned_funcName (isLoad : Bool) (width : Nat) :
    getAsUnsigned ((funcName isLoad width).drop (if isLoad then 19 else 24)) = none := by
  cases isLoad with
  | true => exact getAsUnsigned_of_not_digit (by decide) (".w".toList ++ Nat.toDigits 10 width)
  | false => exact getAsUnsigned_of_not_digit (by decide) (".w".toList ++ Nat.toDigits 10 width)

/-- **The lowering of a placeholder call**: whatever the width in its name, the text that is
    parsed is no number, and the width stays 32. -/
theorem lowerMatrixMemOp_eq (w : Nat) (isLoad : Bool) (width : Nat) {operands : List (Option Int)}
    (hoperands : operands.length = 10) :
    lowerMatrixMemOp w ⟨funcName isLoad width, operands⟩
      = .ok ((List.range (numRows ⟨funcName isLoad width, operands⟩).toNat).map fun row =>
          { isLoad := isLoad, element := .f32, tss := tssValue row, alignedPtr := 1,
            finalOffset := rowOffset w row }) := by
  unfold lowerMatrixMemOp
  rw [if_neg (not_not.mpr hoperands)]
  simp only [contains_funcName, getAsUnsigned_funcName, Option.getD_none]
  rfl

end CoralNPU.Matrix
