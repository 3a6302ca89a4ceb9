import CoralNPU.Matrix.Lowered

namespace CoralNPU.Matrix

open Lib

/-!
# Matrix — floating-point products

When the products of `f32` or `bf16` lanes are those of a contraction of floats.  Operands that
hold 1.0 everywhere tell which lanes do not hold the elements.

* `Operand.lane_cases` — the lanes reach above the passed vector, or it has four elements of 16 or
  32 bits;
* `exists_lane_one`, `exists_lane_ne` — a lane that holds 1.0, and one that does not;
* `agree_float_iff` — the tile and the contraction agree exactly for sums of operands that feed the
  lanes, with the rows first.
-/

/-- A float operand of a contraction. -/
structure Operand.IsFloat (o : Operand) : Prop where
  column : o.IsColumn
  type : IsNarrowFloat o.type.elementType

namespace Operand

variable {F : FloatUnit} {o o' : Operand} {T : ElementType} {kind : CombiningKind} {rows : Bool}

/-! ### Elements -/

/-- Zero is promoted to zero. -/
theorem promote_zero {type : ElementType} (h : IsNarrowFloat type) :
    (floatArith F).promote type 0 = 0 := by
  rcases h with rfl | rfl | rfl
  · rfl
  · exact F.ext_zero .bf16 (.inl rfl)
  · exact F.ext_zero .f16 (.inr rfl)

/-- One is promoted to one. -/
theorem promote_one {type : ElementType} (h : IsNarrowFloat type) :
    (floatArith F).promote type (oneOf type) = oneF32 := by
  rcases h with rfl | rfl | rfl
  · rfl
  · exact F.ext_one .bf16 (.inl rfl)
  · exact F.ext_one .f16 (.inr rfl)

/-- One fits the element type. -/
theorem oneOf_lt {type : ElementType} (h : IsNarrowFloat type) :
    oneOf type < 2 ^ bitsOf type := by
  rcases h with rfl | rfl | rfl <;> decide

namespace IsFloat

/-- The operand holds narrow floats. -/
theorem source (h : o.IsFloat) : IsNarrowFloat o.source.elementType :=
  (narrowFloat_of_castsType h.column.valid h.type).1

/-- None of its casts is an unsigned extension. -/
theorem signed (h : o.IsFloat) : ∀ t, (.extUI, t) ∉ o.casts :=
  (narrowFloat_of_castsType h.column.valid h.type).2

/-- Its casts keep the elements, up to the promotion. -/
theorem keeps (h : o.IsFloat) : o.Keeps F (floatArith F) := fun x _ =>
  castsElement_float h.column.valid h.type x

/-- The elements are those of the source. -/
theorem elements_eq (h : o.IsFloat) (F : FloatUnit) (x i : Nat) :
    o.elements F (floatArith F) (fun _ => x) i
      = (floatArith F).promote o.source.elementType x :=
  (elements_const F _ o x i).trans (castsElement_float h.column.valid h.type x)

/-- A vector of ones is a vector of the operand's type. -/
theorem inRange_one (h : o.IsFloat) : o.InRange fun _ => oneOf o.source.elementType := fun _ =>
  oneOf_lt h.source

/-- So is a vector of zeros. -/
theorem inRange_zero (o : Operand) : o.InRange fun _ => 0 := fun _ => Nat.two_pow_pos _

end IsFloat

/-! ### What is accumulated -/

/-- Of no products at all, only sums leave 1 and -1 as they are. -/
theorem add_of_agree (h : o.IsFloat) (h' : o'.IsFloat) (hT : IsNarrowFloat T)
    (hkind : kind.isFloat = true) (hagree : Agree F (floatArith F) T kind rows o o') :
    kind = .add := by
  have hlane : ∀ (o : Operand) (i : Nat), o.lanes (floatArith F) T (fun _ => 0) 0 i = 0 := by
    intro o i
    unfold lanes Operand.register
    rw [lane_zeros]
    exact promote_zero hT
  have hzero : ∀ acc, acc = oneF32 ∨ acc = negOneF32 →
      acc = (floatArith F).accumulate kind 0 0 acc := by
    intro acc hacc
    have hlt : acc < 2 ^ 32 := by rcases hacc with rfl | rfl <;> decide
    have hcell := hagree _ _ (IsFloat.inRange_zero o) (IsFloat.inRange_zero o') 0 0 acc 0 0 hlt
      (by omega) (by omega)
    rw [hlane, hlane, h.elements_eq, h'.elements_eq, promote_zero h.source,
      promote_zero h'.source] at hcell
    exact (F.mulAdd_zero acc hacc).symm.trans hcell
  have hone := hzero oneF32 (.inl rfl)
  have hnegOne := hzero negOneF32 (.inr rfl)
  cases kind with
  | add => rfl
  | mul | minnumf | minimumf =>
    exact absurd (hone.trans (F.combine_low _ (by simp))) (by decide)
  | maxnumf | maximumf =>
    exact absurd (hnegOne.trans (F.combine_high _ (by simp))) (by decide)
  | minui | minsi | maxui | maxsi | and | or | xor => cases hkind

/-! ### Lanes -/

/-- The last lane is above the elements, or the elements are these. -/
theorem lane_cases (h : o.IsFloat) (hT : T = .f32 ∨ T = .bf16) :
    bitsOf o.source.elementType * o.source.dims.prod ≤ bitsOf T * 3
      ∨ (o.source.elementType = T ∧ o.source.dims.prod = 4)
      ∨ T = .bf16 ∧ (o.source.elementType = .f32
        ∨ o.source.elementType = .f16 ∧ o.source.dims.prod = 4) := by
  have hfour := h.column.le_four
  rcases hT with rfl | rfl <;> rcases h.source with hσ | hσ | hσ <;> rw [hσ] <;>
    simp only [bitsOf] <;> simp <;> omega

/-- A lane above the elements. -/
theorem exists_lanes (h : o.IsFloat) (A : Arith)
    (habove : bitsOf o.source.elementType * o.source.dims.prod ≤ bitsOf T * 3) {x : Nat}
    (hx : x < 2 ^ bitsOf T) :
    ∃ undef, o.lanes A T (fun _ => oneOf o.source.elementType) undef 3 = A.promote T x := by
  obtain ⟨undef, hundef⟩ := lane_undef h.inRange_one habove hx
  exact ⟨undef, congrArg _ hundef⟩

/-- **A lane that holds 1**, in a register of ones. -/
theorem exists_lane_one (h : o.IsFloat) (hT : T = .f32 ∨ T = .bf16)
    (hsource : o.source.elementType ≠ .f16) : ∃ undef i, i < 4 ∧
      o.lanes (floatArith F) T (fun _ => oneOf o.source.elementType) undef i = oneF32 := by
  have hnarrow : IsNarrowFloat T := by
    rcases hT with rfl | rfl
    · exact .inl rfl
    · exact .inr (.inl rfl)
  rcases lane_cases h hT with habove | ⟨htype, hcount⟩ | ⟨rfl, hwide | hf16⟩
  · obtain ⟨undef, hundef⟩ := exists_lanes h (floatArith F) habove (oneOf_lt hnarrow)
    exact ⟨undef, 3, by omega, hundef.trans (promote_one hnarrow)⟩
  · refine ⟨0, 0, by omega, ?_⟩
    rw [lanes_four hcount htype _ h.inRange_one 0 (by omega), htype]
    exact promote_one hnarrow
  · -- the upper half of 1.0 in `f32` is 1.0 in `bf16`
    refine ⟨0, 1, by omega, ?_⟩
    unfold lanes Operand.register
    rw [hwide, lane_first (by decide) h.column.one_le]
    exact F.ext_one .bf16 (.inl rfl)
  · exact absurd hf16.1 hsource

/-- **A lane that does not hold 1**, in a register of ones: it holds 0, or 2⁻⁷. -/
theorem exists_lane_ne (h : o.IsFloat) (hT : T = .f32 ∨ T = .bf16)
    (hother : ¬ (o.source.elementType = T ∧ o.source.dims.prod = 4)) : ∃ undef i, i < 4 ∧
      (o.lanes (floatArith F) T (fun _ => oneOf o.source.elementType) undef i = 0
        ∨ o.source.elementType = .f16
          ∧ o.lanes (floatArith F) T (fun _ => oneOf o.source.elementType) undef i
            = 0x3C000000) := by
  have hnarrow : IsNarrowFloat T := by
    rcases hT with rfl | rfl
    · exact .inl rfl
    · exact .inr (.inl rfl)
  rcases lane_cases h hT with habove | hfour | ⟨rfl, hwide | ⟨hf16, hcount⟩⟩
  · obtain ⟨undef, hundef⟩ := exists_lanes h (floatArith F) habove (Nat.two_pow_pos _)
    exact ⟨undef, 3, by omega, .inl (hundef.trans (promote_zero hnarrow))⟩
  · exact absurd hfour hother
  · -- the lower half of 1.0 in `f32` is 0
    refine ⟨0, 0, by omega, .inl ?_⟩
    unfold lanes Operand.register
    rw [hwide, lane_first (by decide) h.column.one_le]
    exact F.ext_zero .bf16 (.inl rfl)
  · refine ⟨0, 0, by omega, .inr ⟨hf16, ?_⟩⟩
    have hrange : ∀ _ : Nat, oneOf o.source.elementType < 2 ^ 16 := by
      intro _
      rw [hf16]
      decide
    unfold lanes Operand.register
    rw [show bitsOf o.source.elementType = 16 from by rw [hf16]; rfl]
    refine (congrArg _ (lane_register hrange (by omega) 0)).trans ?_
    rw [hf16]
    exact F.ext_bf16

/-! ### Agreement -/

/-- The lanes of both operands have to be the elements: right first, where 1 is the left factor,
    then left. -/
theorem fits_of_agree (h : o.IsFloat) (h' : o'.IsFloat) (hT : T = .f32 ∨ T = .bf16)
    (hsource : o.source.elementType ≠ .f16)
    (hagree : Agree F (floatArith F) T .add rows o o') :
    (o.source.elementType = T ∧ o.source.dims.prod = 4)
      ∧ o'.source.elementType = T ∧ o'.source.dims.prod = 4 := by
  have hcell : ∀ undef undef' i j, i < 4 → j < 4 →
      F.mulAdd (o.lanes (floatArith F) T (fun _ => oneOf o.source.elementType) undef i)
        (o'.lanes (floatArith F) T (fun _ => oneOf o'.source.elementType) undef' j) 0 = oneF32 := by
    intro undef undef' i j hi hj
    have hcell := hagree _ _ h.inRange_one h'.inRange_one undef undef' 0 i j (by decide) hi hj
    rw [h.elements_eq, h'.elements_eq, promote_one h.source, promote_one h'.source] at hcell
    exact hcell.trans (F.one_mulAdd _ (.inr (.inl rfl)))
  obtain ⟨undef, i, hi, hone⟩ := exists_lane_one (F := F) h hT hsource
  have hright : o'.source.elementType = T ∧ o'.source.dims.prod = 4 := by
    by_contra hother
    obtain ⟨undef', j, hj, hlane⟩ := exists_lane_ne (F := F) h' hT hother
    have hone' := hcell undef undef' i j hi hj
    rw [hone] at hone'
    rcases hlane with hlane | ⟨-, hlane⟩ <;> rw [hlane] at hone'
    · exact absurd ((F.one_mulAdd _ (.inl rfl)).symm.trans hone') (by decide)
    · exact absurd ((F.one_mulAdd _ (.inr (.inr rfl))).symm.trans hone') (by decide)
  refine ⟨?_, hright⟩
  by_contra hother
  have hsource' : o'.source.elementType ≠ .f16 := by
    rw [hright.1]
    rcases hT with rfl | rfl <;> decide
  obtain ⟨undef', j, hj, hone'⟩ := exists_lane_one (F := F) h' hT hsource'
  obtain ⟨undef, i, hi, hlane | ⟨hf16, -⟩⟩ := exists_lane_ne (F := F) h hT hother
  · have hzero := hcell undef undef' i j hi hj
    rw [hlane, hone'] at hzero
    exact absurd (F.zero_mulAdd.symm.trans hzero) (by decide)
  · exact hsource hf16

/-- **Floats agree** exactly in sums, with the left operand on the rows, of operands that feed the
    lanes. -/
theorem agree_float_iff (h : o.IsFloat) (h' : o'.IsFloat) (hT : T = .f32 ∨ T = .bf16)
    (hsource : o.source.elementType ≠ .f16) (hkind : kind.isFloat = true)
    (hvector : o.isVector = true) (hvector' : o'.isVector = true) :
    Agree F (floatArith F) T kind rows o o'
      ↔ kind = .add ∧ rows = true ∧ o.Feeds T ∧ o'.Feeds T := by
  have hnarrow : IsNarrowFloat T := by
    rcases hT with rfl | rfl
    · exact .inl rfl
    · exact .inr (.inl rfl)
  constructor
  · intro hagree
    obtain rfl := add_of_agree h h' hnarrow hkind hagree
    obtain ⟨⟨htype, hcount⟩, htype', hcount'⟩ := fits_of_agree h h' hT hsource hagree
    refine ⟨rfl, ?_, ⟨hvector, hcount, htype, h.signed⟩, ⟨hvector', hcount', htype', h'.signed⟩⟩
    -- a left operand with one element that is not 0
    by_contra hcolumns
    rw [Bool.not_eq_true] at hcolumns
    subst hcolumns
    have hrow : o.InRange fun e => if e = 0 then oneOf T else 0 := by
      intro e
      rw [htype]
      show (if e = 0 then oneOf T else 0) < 2 ^ bitsOf T
      split
      · exact oneOf_lt hnarrow
      · exact Nat.two_pow_pos _
    have hfeeds : o.Feeds T := ⟨hvector, hcount, htype, h.signed⟩
    have hcell := hagree _ _ hrow h'.inRange_one 0 0 0 0 1 (by decide) (by omega) (by omega)
    rw [if_neg (by decide), if_neg (by decide), h'.elements_eq, promote_one h'.source,
      ← lanes_eq_elements h.column hfeeds h.keeps hrow 0 (by omega),
      lanes_four hcount htype _ hrow 0 (by omega), lanes_four hcount htype _ hrow 0 (by omega),
      lanes_four hcount' htype' _ h'.inRange_one 0 (by omega), if_pos rfl, if_neg (by decide),
      htype', promote_one hnarrow, promote_zero hnarrow] at hcell
    have hone : F.mulAdd oneF32 oneF32 0 = oneF32 := F.one_mulAdd _ (.inr (.inl rfl))
    exact absurd (hone.symm.trans (hcell.trans F.zero_mulAdd)) (by decide)
  · rintro ⟨rfl, rfl, hfeeds, hfeeds'⟩
    exact agree_of_feeds h.column h'.column hfeeds hfeeds' h.keeps h'.keeps

end Operand

end CoralNPU.Matrix
