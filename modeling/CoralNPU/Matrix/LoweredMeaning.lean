import CoralNPU.Matrix.IntegerLanes
import CoralNPU.Matrix.FloatLanes

namespace CoralNPU.Matrix

open Lib

/-!
# Matrix — when an intrinsic means its contraction

* `meansIntrinsic_iff` — exactly for sums with the left operand on the rows, of passed vectors of
  four elements of the intrinsic's type, with no unsigned extension left out;
* `unsignedMatmul_not_means` — unsigned bytes are multiplied as signed ones.
-/

/-! ### The operands of a contraction -/

/-- What is passed is an integer operand. -/
theorem Operand.isInteger_of_type {o : Operand} (h : o.IsColumn) {w' : Nat}
    (htype : o.type.elementType = .integer w') (hle : w' ≤ 32) : ∃ w, o.IsInteger w w' := by
  obtain ⟨w, hw, -⟩ := integer_of_castsType h.valid htype
  exact ⟨w, h, hw, htype, hle⟩

namespace ChainContraction

variable {c : ChainContraction}

/-- The left operand is traced to a source of a supported type. -/
theorem source_cases (c : ChainContraction) :
    (c.lhs.source.elementType = .f32 ∨ c.lhs.source.elementType = .bf16)
        ∧ c.op.accType.elementType = .f32
      ∨ c.lhs.source.elementType = .integer 8 ∧ c.op.accType.elementType = .integer 32 :=
  supportedElementTypes_cases (isSupportedMatrixContraction_true c.accepted).1

/-- Integers that are passed on the left have at least 8 bits. -/
theorem eight_le_lhs {w w' : Nat} (h : c.passedLhs.IsInteger w w')
    (hacc : c.op.accType.elementType = .integer 32) : 8 ≤ w := by
  have hsource : c.lhs.source.elementType = .integer 8 := by
    rcases c.source_cases with ⟨-, hf32⟩ | ⟨hsource, -⟩
    · exact absurd (hf32.symm.trans hacc) (by decide)
    · exact hsource
  have hw := h.source
  unfold passedLhs passedOperand at hw
  split at hw
  · obtain rfl := ElementType.integer.inj (hsource.symm.trans hw)
    exact le_refl _
  · obtain ⟨w₀, hw₀, hle⟩ := integer_of_castsType c.lhs_valid hw
    obtain rfl := ElementType.integer.inj (hsource.symm.trans hw₀)
    exact hle

/-- Floats that are passed on the left are no `f16`. -/
theorem lhs_ne_f16 (c : ChainContraction) : c.passedLhs.source.elementType ≠ .f16 := by
  have hsource : c.lhs.source.elementType ≠ .f16 := by
    rcases c.source_cases with ⟨h | h, -⟩ | ⟨h, -⟩ <;> rw [h] <;> decide
  unfold passedLhs passedOperand
  split
  · exact hsource
  · exact fun h => hsource (f16_of_castsType c.lhs_valid h)

end ChainContraction

/-! ### The meaning of the lowered contraction -/

/-- **An intrinsic means its contraction** exactly for a sum with the left operand on the rows, when
    the passed vectors have four elements of the chain's input type and no unsigned extension is
    left out. -/
theorem meansIntrinsic_iff (F : FloatUnit) (c : ChainContraction) :
    MeansIntrinsic F c ↔ c.Lowers := by
  classical
  have hrows : decide c.op.RowsFirst = true ↔ c.op.RowsFirst := decide_eq_true_iff
  have hlowers : c.Lowers ↔ c.passedLhs.isVector = true ∧ c.passedRhs.isVector = true
      ∧ c.kind = .add ∧ decide c.op.RowsFirst = true ∧ c.passedLhs.Feeds c.inputElTy
      ∧ c.passedRhs.Feeds c.inputElTy := by
    constructor
    · exact fun h => ⟨h.lhs.vector, h.rhs.vector, h.kind, hrows.mpr h.rows, h.lhs, h.rhs⟩
    · rintro ⟨-, -, hkind, hfirst, hlhs, hrhs⟩
      exact ⟨hkind, hrows.mp hfirst, hlhs, hrhs⟩
  rw [c.meansIntrinsic_iff_agree F _ hrows, hlowers]
  refine and_congr_right fun hlhs => and_congr_right fun hrhs => ?_
  have hright : c.passedRhs.type.elementType = c.op.lhsType.elementType := by
    rw [c.type_rhs, c.verified.elementTypes]
  unfold ChainContraction.arith
  rcases c.chain_types with ⟨hinput, hacc⟩ | ⟨hinput, hacc⟩
  · -- an accumulator of floats
    obtain ⟨hnarrow, hkind⟩ := c.verified.float hacc
    rw [hacc]
    exact Operand.agree_float_iff ⟨c.isColumn_lhs, by rwa [c.type_lhs]⟩
      ⟨c.isColumn_rhs, by rwa [hright]⟩ hinput c.lhs_ne_f16 hkind hlhs hrhs
  · -- an accumulator of integers
    obtain ⟨⟨w', hw', -, hle⟩, hkind⟩ := c.verified.integer hacc
    obtain ⟨w, hinteger⟩ := Operand.isInteger_of_type c.isColumn_lhs
      ((congrArg _ c.type_lhs).trans hw') hle
    obtain ⟨v, hinteger'⟩ := Operand.isInteger_of_type c.isColumn_rhs (hright.trans hw') hle
    rw [hacc, hinput]
    exact Operand.agree_integer_iff hinteger hinteger' (ChainContraction.eight_le_lhs hinteger hacc)
      hkind hlhs hrhs

/-! ### Products of bytes -/

/-- Float arithmetic on what the laws name, for contractions of integers. -/
def unitFloat : FloatUnit where
  ext
    | .bf16, x => x * 2 ^ 16
    | _, x => if x = oneOf .f16 then oneF32 else 0
  mulAdd a b c := if a = oneF32 ∧ c = 0 then b else if a = 0 then c else 0
  combine _ _ _ _ := 0
  ext_zero := by rintro _ (rfl | rfl) <;> rfl
  ext_one := by rintro _ (rfl | rfl) <;> rfl
  ext_bf16 := rfl
  zero_mulAdd := rfl
  one_mulAdd := by rintro _ (rfl | rfl | rfl) <;> rfl
  mulAdd_zero := by rintro _ (rfl | rfl) <;> rfl
  combine_low := by intros; rfl
  combine_high := by intros; rfl

/-- A column of four elements, and a row. -/
def columnOf (type : ElementType) : VectorType := { shape := [4, 1], elementType := type }
/-- See `columnOf`. -/
def rowOf (type : ElementType) : VectorType := { shape := [1, 4], elementType := type }

/-- The product of a column and a row. -/
def outerProduct : ContractionOp where
  iteratorTypes := [.parallel, .parallel, .reduction]
  lhsMap := .ofDims [0, 2]
  rhsMap := .ofDims [2, 1]
  accMap := .ofDims [0, 1]
  lhsType := columnOf (.integer 32)
  rhsType := rowOf (.integer 32)
  accType := { shape := [4, 4], elementType := .integer 32 }

/-- The outer product of two operands is a verified contraction. -/
theorem verified_outerProduct : Verified .add outerProduct where
  lhsMap := ⟨[0, 2], rfl, by decide, rfl, by decide⟩
  rhsMap := ⟨[2, 1], rfl, by decide, rfl, by decide⟩
  accMap := ⟨[0, 1], rfl, by decide, rfl, by decide⟩
  covered := by decide
  parallel := by decide
  elementTypes := rfl
  float h := by cases h
  integer _ := ⟨⟨32, rfl, by decide, by decide⟩, rfl⟩

/-- The column has positive dimensions. -/
theorem column_pos (type : ElementType) : ∀ d ∈ (columnOf type).dims, 1 ≤ d :=
  (by decide : ∀ d ∈ [4, 1], 1 ≤ d)

/-- So has the row. -/
theorem row_pos (type : ElementType) : ∀ d ∈ (rowOf type).dims, 1 ≤ d :=
  (by decide : ∀ d ∈ [1, 4], 1 ≤ d)

/-- An extension of 8 bits to 32 is a valid cast. -/
theorem validCast_ext {ext : CastKind} (hext : ext = .extSI ∨ ext = .extUI) {t t' : VectorType}
    (hdims : t'.dims = t.dims) (ht : t.elementType = .integer 8 := by rfl)
    (ht' : t'.elementType = .integer 32 := by rfl) : ValidCast ext t t' := by
  rcases hext with rfl | rfl <;> exact ⟨hdims, 8, 32, ht, ht', by decide, by decide⟩

/-- The product of bytes, extended to 32 bits, in a loop. -/
def byteMatmul (ext : CastKind) (hext : ext = .extSI ∨ ext = .extUI) : ChainContraction where
  path := .loop
  inputElTy := .integer 8
  kind := .add
  op := outerProduct
  lhs := { isVector := true, source := columnOf (.integer 8),
           casts := [(ext, columnOf (.integer 32))] }
  rhs := { isVector := true, source := rowOf (.integer 8), casts := [(ext, rowOf (.integer 32))] }
  verified := verified_outerProduct
  lhs_valid := ⟨column_pos _, validCast_ext hext rfl, column_pos _⟩
  rhs_valid := ⟨row_pos _, validCast_ext hext rfl, row_pos _⟩
  lhs_type := rfl
  rhs_type := rfl
  lhs_vector := rfl
  accepted := (by decide : isSupportedMatrixContraction outerProduct (.integer 8) = true)
  chain_type := by decide
  first_update h := by cases h

/-- Signed bytes are multiplied as the contraction says. -/
theorem meansIntrinsic_iff_signed : MeansIntrinsic unitFloat (byteMatmul .extSI (.inl rfl)) :=
  (meansIntrinsic_iff unitFloat _).mpr
    { kind := rfl
      rows := ⟨.dim 0, by decide, rfl⟩
      lhs := ⟨rfl, rfl, rfl, by simp [byteMatmul, ChainContraction.passedLhs, passedOperand]⟩
      rhs := ⟨rfl, rfl, rfl, by simp [byteMatmul, ChainContraction.passedRhs, passedOperand]⟩ }

/-- Unsigned bytes are not: 128 · 1 is subtracted from the accumulator. -/
theorem unsignedMatmul_not_means : ¬ MeansIntrinsic unitFloat (byteMatmul .extUI (.inr rfl)) := by
  rintro ⟨call, hcall, hmeans⟩
  obtain rfl := Except.ok.inj hcall
  have hcell := hmeans (fun _ => 128) (fun _ => 1) (fun _ => (by decide : 128 < 2 ^ 8))
    (fun _ => (by decide : 1 < 2 ^ 8)) 0 0 (fun _ => 0) (fun _ => Nat.two_pow_pos 32) (0, 0)
    (by decide)
  exact absurd hcell (by decide +kernel)

end CoralNPU.Matrix
