import CoralNPU.Matrix.ToLLVM

namespace CoralNPU.Matrix

/-!
# Matrix — the width in the name of a placeholder

One pass writes the width of the elements behind the name of the placeholder, another one reads it
from there.

* `decodedWidth` — what the lowering reads; `lowerMatrixMemOp_eq_decoded` says that it depends on
  the name through it only.
* `funcName_injective` — the name has the width in it.
* `decodedWidth_funcName` — the lowering reads 32, whatever the width.
* `WidthSurvives`, `widthSurvives_iff` — the lowering is for the width that was written exactly if
  that is 32.
-/

/-- The width that `lowerMatrixMemOp` reads from the name. -/
def decodedWidth (callee : List Char) : Nat :=
  let isLoad := contains callee "load".toList
  let widthStr := callee.drop (if isLoad then 19 else 24)
  -- the default stays if the text is no number
  (getAsUnsigned widthStr).getD 32

/-- The lowering of a call whose name gives the width. -/
theorem lowerMatrixMemOp_eq_decoded (w : Nat) {callOp : CallOp} (h : callOp.operands.length = 10) :
    lowerMatrixMemOp w callOp =
      match gepElementType (decodedWidth callOp.callee) with
      | none => .error "unsupported width"
      | some element => .ok ((List.range (numRows callOp).toNat).map fun row =>
          { isLoad := contains callOp.callee "load".toList, element := element, tss := tssValue row,
            alignedPtr := 1, finalOffset := rowOffset w row }) := by
  rw [lowerMatrixMemOp, if_neg (not_not.mpr h)]
  rfl

/-! ### The instructions -/

/-- `intrinsicName` -/
def CallIntrinsic.intrinsicName {w : Nat} (op : CallIntrinsic w) : String :=
  match op.element with
  | .i8 => if op.isLoad then "llvm.riscv.zvt.vtle8" else "llvm.riscv.zvt.vtse8"
  | .i16 => if op.isLoad then "llvm.riscv.zvt.vtle16" else "llvm.riscv.zvt.vtse16"
  | .f32 => if op.isLoad then "llvm.riscv.zvt.vtle32" else "llvm.riscv.zvt.vtse32"
  | .i64 => if op.isLoad then "llvm.riscv.zvt.vtle64" else "llvm.riscv.zvt.vtse64"

/-- The widths that there are instructions for. -/
def supportedWidths : List Nat := [8, 16, 32, 64]

/-- The instruction, and the scaling of its address, are those for elements of `width` bits. -/
structure CallIntrinsic.ForWidth {w : Nat} (op : CallIntrinsic w) (isLoad : Bool) (width : Nat) :
    Prop where
  direction : op.isLoad = isLoad
  name : op.intrinsicName
    = (if isLoad then "llvm.riscv.zvt.vtle" else "llvm.riscv.zvt.vtse") ++ toString width
  scale : 8 * op.element.bytes = width

/-- **The width survives**: the lowering reads it from the name, and lowers every call of the
    placeholder to accesses of that width, or rejects it if there are none. -/
structure WidthSurvives (isLoad : Bool) (width : Nat) : Prop where
  decoded : decodedWidth (funcName isLoad width) = width
  supported : width ∈ supportedWidths → ∀ (w : Nat) (operands : List (Option Int)),
    operands.length = 10 → ∃ code,
      lowerMatrixMemOp w ⟨funcName isLoad width, operands⟩ = .ok code ∧
      code.length = (numRows ⟨funcName isLoad width, operands⟩).toNat ∧
      ∀ op ∈ code, op.ForWidth isLoad width
  unsupported : width ∉ supportedWidths → ∀ (w : Nat) (operands : List (Option Int)),
    operands.length = 10 →
      lowerMatrixMemOp w ⟨funcName isLoad width, operands⟩ = .error "unsupported width"

/-! ### What is read from the name -/

/-- The name tells a load from a writeback, and has the width in it. -/
theorem funcName_injective {isLoad isLoad' : Bool} {width width' : Nat}
    (h : funcName isLoad width = funcName isLoad' width') : isLoad = isLoad' ∧ width = width' := by
  have hload : isLoad = isLoad' := by rw [← contains_funcName isLoad width, h, contains_funcName]
  subst hload
  have hdigits : Nat.toDigits 10 width = Nat.toDigits 10 width' := by
    cases isLoad with
    | true => exact List.append_cancel_left h
    | false => exact List.append_cancel_left h
  refine ⟨rfl, ?_⟩
  calc width = Nat.ofDigitChars 10 (Nat.toDigits 10 width) 0 :=
        Nat.ofDigitChars_ten_toDigits.symm
    _ = Nat.ofDigitChars 10 (Nat.toDigits 10 width') 0 := by rw [hdigits]
    _ = width' := Nat.ofDigitChars_ten_toDigits

/-- **The lowering reads 32**, whatever the width is. -/
theorem decodedWidth_funcName (isLoad : Bool) (width : Nat) :
    decodedWidth (funcName isLoad width) = 32 := by
  unfold decodedWidth
  simp only [contains_funcName, getAsUnsigned_funcName, Option.getD_none]

/-! ### When the width survives -/

theorem forWidth_of_gepElementType {w width : Nat} {op : CallIntrinsic w}
    (h : gepElementType width = some op.element) : op.ForWidth op.isLoad width := by
  have hcases : (width = 8 ∧ op.element = .i8) ∨ (width = 16 ∧ op.element = .i16) ∨
      (width = 32 ∧ op.element = .f32) ∨ (width = 64 ∧ op.element = .i64) := by
    unfold gepElementType at h
    split_ifs at h <;> simp_all
  rcases hcases with ⟨rfl, hop⟩ | ⟨rfl, hop⟩ | ⟨rfl, hop⟩ | ⟨rfl, hop⟩
  all_goals
    refine ⟨rfl, ?_, by rw [hop]; rfl⟩
    rw [CallIntrinsic.intrinsicName, hop]
    cases op.isLoad <;> rfl

/-- All that the lowering needs is the right width. -/
theorem widthSurvives_of_decoded {isLoad : Bool} {width : Nat}
    (h : decodedWidth (funcName isLoad width) = width) : WidthSurvives isLoad width where
  decoded := h
  supported := by
    intro hwidth w operands hoperands
    obtain ⟨element, helement⟩ : ∃ element, gepElementType width = some element := by
      simp only [supportedWidths, List.mem_cons, List.not_mem_nil, or_false] at hwidth
      rcases hwidth with rfl | rfl | rfl | rfl <;> exact ⟨_, rfl⟩
    rw [lowerMatrixMemOp_eq_decoded w hoperands, h, helement, contains_funcName]
    refine ⟨_, rfl, by rw [List.length_map, List.length_range], ?_⟩
    intro op hop
    obtain ⟨row, -, rfl⟩ := List.mem_map.mp hop
    exact forWidth_of_gepElementType helement
  unsupported := by
    intro hwidth w operands hoperands
    have hnone : gepElementType width = none := by
      simp only [supportedWidths, List.mem_cons, List.not_mem_nil, or_false, not_or] at hwidth
      unfold gepElementType
      rw [if_neg hwidth.1, if_neg hwidth.2.1, if_neg hwidth.2.2.1, if_neg hwidth.2.2.2]
    rw [lowerMatrixMemOp_eq_decoded w hoperands, h, hnone]

/-- **The width survives exactly if it is 32.** -/
theorem widthSurvives_iff (isLoad : Bool) (width : Nat) :
    WidthSurvives isLoad width ↔ width = 32 := by
  constructor
  · intro h
    rw [← h.decoded, decodedWidth_funcName]
  · rintro rfl
    exact widthSurvives_of_decoded (decodedWidth_funcName isLoad 32)

/-- The load of bytes is lowered to loads of words. -/
theorem load_w8_lost : ¬ WidthSurvives true 8 := by
  intro h
  exact absurd (h.decoded.symm.trans (decodedWidth_funcName true 8)) (by decide)

end CoralNPU.Matrix
