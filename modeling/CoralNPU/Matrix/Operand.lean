import CoralNPU.Lib.Lanes
import CoralNPU.Matrix.IR

namespace CoralNPU.Matrix

open Lib

/-!
# Matrix — the values of contraction operands

The bits of vector elements, and what the casts in front of a contraction do to them.  A vector
is a function from flat, row-major positions to the bits of an element.

* `FloatUnit` — the floating-point arithmetic, a parameter with what IEEE 754 says about it at 0,
  1 and -1;
* `Arith`, `intArith`, `floatArith` — the arithmetic of an accumulator: elements are promoted to
  32 bits, multiplied and accumulated;
* `castElement`, `castIndex` — a cast works on elements and on positions;
* `Operand` — an operand with the value it is traced to, and the casts in between;
  `castsValues_eq` takes its values apart.
-/

/-! ### Arithmetic -/

/-- `vector::CombiningKind`. -/
inductive CombiningKind
  | add | mul | minui | minsi | minnumf | maxui | maxsi | maxnumf
  | and | or | xor | maximumf | minimumf
  deriving DecidableEq, Repr

/-- The bits of 1.0 in `f32`. -/
def oneF32 : Nat := 0x3F800000

/-- The bits of -1.0 in `f32`. -/
def negOneF32 : Nat := 0xBF800000

/-- The bits of 1.0 in a float type of up to 32 bits. -/
def oneOf : ElementType → Nat
  | .f16 => 0x3C00
  | .bf16 => 0x3F80
  | _ => oneF32

/-- Floating-point arithmetic on bits: `extF` of a narrower type to `f32`, the multiply-add
    `a * b + c` of `f32`, and the other combining kinds on the product of `a` and `b` and an
    accumulator.  The laws are those of IEEE 754 at 0, 1, -1 and 2⁻⁷. -/
structure FloatUnit where
  ext : ElementType → Nat → Nat
  mulAdd : Nat → Nat → Nat → Nat
  combine : CombiningKind → Nat → Nat → Nat → Nat
  ext_zero : ∀ type, type = .bf16 ∨ type = .f16 → ext type 0 = 0
  ext_one : ∀ type, type = .bf16 ∨ type = .f16 → ext type (oneOf type) = oneF32
  /-- The bits of 1.0 in `f16` are those of 2⁻⁷ in `bf16`. -/
  ext_bf16 : ext .bf16 0x3C00 = 0x3C000000
  zero_mulAdd : mulAdd 0 oneF32 0 = 0
  one_mulAdd : ∀ b, b = 0 ∨ b = oneF32 ∨ b = 0x3C000000 → mulAdd oneF32 b 0 = b
  mulAdd_zero : ∀ c, c = oneF32 ∨ c = negOneF32 → mulAdd 0 0 c = c
  combine_low : ∀ kind, kind = .mul ∨ kind = .minnumf ∨ kind = .minimumf →
    combine kind 0 0 oneF32 = 0
  combine_high : ∀ kind, kind = .maxnumf ∨ kind = .maximumf → combine kind 0 0 negOneF32 = 0

/-- The arithmetic of an accumulator: promotion of an element of a type, and the accumulation of
    the product of two promoted elements. -/
structure Arith where
  promote : ElementType → Nat → Nat
  accumulate : CombiningKind → Nat → Nat → Nat → Nat

/-- Signed comparison of 32-bit numbers. -/
def slt32 (x y : Nat) : Bool := (x + 2 ^ 31) % 2 ^ 32 < (y + 2 ^ 31) % 2 ^ 32

/-- The accumulation of a product into a 32-bit integer. -/
def intCombine (kind : CombiningKind) (product acc : Nat) : Nat :=
  match kind with
  | .add => (product + acc) % 2 ^ 32
  | .mul => product * acc % 2 ^ 32
  | .minui => min product acc
  | .maxui => max product acc
  | .minsi => if slt32 product acc then product else acc
  | .maxsi => if slt32 product acc then acc else product
  | .and => product &&& acc
  | .or => product ||| acc
  | .xor => product ^^^ acc
  | .minnumf | .maxnumf | .minimumf | .maximumf => acc

/-- Integers of up to 32 bits are promoted by sign extension. -/
def intArith : Arith where
  promote
    | .integer w, x => signExtend w 32 x
    | _, x => x
  accumulate kind a b acc := intCombine kind (a * b % 2 ^ 32) acc

/-- Floats of up to 32 bits are promoted to `f32`. -/
def floatArith (F : FloatUnit) : Arith where
  promote
    | .f32, x => x
    | type, x => F.ext type x
  accumulate
    | .add, a, b, acc => F.mulAdd a b acc
    | kind, a, b, acc => F.combine kind a b acc

/-! ### Casts -/

/-- The dimensions of a vector. -/
def VectorType.dims (t : VectorType) : List Nat := t.shape.map Int.toNat

/-- The position that an element of a broadcast comes from, for shapes of one rank: along a
    dimension of size 1 the source does not move. -/
def broadcastIndex : List Nat → List Nat → Nat → Nat
  | s :: ss, _ :: ts, i =>
    (if s = 1 then 0 else i / ts.prod) * ss.prod + broadcastIndex ss ts (i % ts.prod)
  | _, _, _ => 0

/-- The position that an element of the result of a cast comes from.  A broadcast repeats its
    source along the leading dimensions. -/
def castIndex (kind : CastKind) (t t' : VectorType) (i : Nat) : Nat :=
  match kind with
  | .broadcast =>
    let trailing := t'.dims.drop (t'.dims.length - t.dims.length)
    broadcastIndex t.dims trailing (i % trailing.prod)
  | _ => i

/-- The bits of an element after a cast. -/
def castElement (F : FloatUnit) (kind : CastKind) (t t' : VectorType) (x : Nat) : Nat :=
  match kind, t.elementType, t'.elementType with
  | .extSI, .integer w, .integer w' => signExtend w w' x
  | .extF, type, _ => F.ext type x
  | _, _, _ => x

/-- A shape can be broadcast to another one. -/
def Broadcastable (s t : List Nat) : Prop :=
  ∃ leading trailing, t = leading ++ trailing ∧ List.Forall₂ (fun a b => a = b ∨ a = 1) s trailing

/-- What the verifier says about a cast; an extension of floats that ends in an accumulation in
    `f32` ends there. -/
def ValidCast : CastKind → VectorType → VectorType → Prop
  | .extSI, t, t' | .extUI, t, t' => t'.dims = t.dims ∧
    ∃ w w', t.elementType = .integer w ∧ t'.elementType = .integer w' ∧ 1 ≤ w ∧ w < w'
  | .extF, t, t' => t'.dims = t.dims ∧
    (t.elementType = .bf16 ∨ t.elementType = .f16) ∧ t'.elementType = .f32
  | .broadcast, t, t' => t'.elementType = t.elementType ∧ Broadcastable t.dims t'.dims
  | .shapeCast, t, t' => t'.elementType = t.elementType ∧ t'.dims.prod = t.dims.prod

/-! ### Chains of casts -/

/-- The type after the casts. -/
def castsType : VectorType → List (CastKind × VectorType) → VectorType
  | t, [] => t
  | _, (_, t') :: casts => castsType t' casts

/-- The values after the casts. -/
def castsValues (F : FloatUnit) :
    VectorType → List (CastKind × VectorType) → (Nat → Nat) → Nat → Nat
  | _, [], values => values
  | t, (kind, t') :: casts, values =>
    castsValues F t' casts fun i => castElement F kind t t' (values (castIndex kind t t' i))

/-- The verifier accepts the casts, and no vector is empty. -/
def ValidCasts : VectorType → List (CastKind × VectorType) → Prop
  | t, [] => ∀ d ∈ t.dims, 1 ≤ d
  | t, (kind, t') :: casts => (∀ d ∈ t.dims, 1 ≤ d) ∧ ValidCast kind t t' ∧ ValidCasts t' casts

/-- An operand of a contraction: the value that `traceToSourceValue` finds, a vector or a scalar,
    and the casts from there, in order. -/
structure Operand where
  isVector : Bool
  source : VectorType
  casts : List (CastKind × VectorType)
  deriving DecidableEq, Repr

namespace Operand

/-- The type of the operand. -/
def type (o : Operand) : VectorType := castsType o.source o.casts

/-- The values of the operand. -/
def values (F : FloatUnit) (o : Operand) (source : Nat → Nat) : Nat → Nat :=
  castsValues F o.source o.casts source

/-- The verifier accepts the casts. -/
def Valid (o : Operand) : Prop := ValidCasts o.source o.casts

/-- The operand itself, without a look through its casts. -/
def untraced (o : Operand) : Operand := { isVector := true, source := o.type, casts := [] }

end Operand

/-- The position in the source. -/
def castsIndex : VectorType → List (CastKind × VectorType) → Nat → Nat
  | _, [], i => i
  | t, (kind, t') :: casts, i => castIndex kind t t' (castsIndex t' casts i)

/-- The bits of an element after the casts. -/
def castsElement (F : FloatUnit) : VectorType → List (CastKind × VectorType) → Nat → Nat
  | _, [], x => x
  | t, (kind, t') :: casts, x => castsElement F t' casts (castElement F kind t t' x)

/-- **The values after casts**, taken apart: each is the cast of an element of the source. -/
theorem castsValues_eq (F : FloatUnit) (t : VectorType) (casts : List (CastKind × VectorType))
    (values : Nat → Nat) (i : Nat) :
    castsValues F t casts values i = castsElement F t casts (values (castsIndex t casts i)) := by
  induction casts generalizing t values with
  | nil => rfl
  | cons cast casts ih => exact ih cast.2 _

/-! ### Positions -/

theorem prod_le_of_forall₂ {s t : List Nat} (h : List.Forall₂ (fun a b => a = b ∨ a = 1) s t)
    (ht : ∀ d ∈ t, 1 ≤ d) : s.prod ≤ t.prod := by
  induction h with
  | nil => exact le_refl _
  | @cons a b ss ts hab _ ih =>
    obtain ⟨hb, hts⟩ := List.forall_mem_cons.mp ht
    rw [List.prod_cons, List.prod_cons]
    refine Nat.mul_le_mul ?_ (ih hts)
    rcases hab with rfl | rfl
    · exact le_refl _
    · exact hb

theorem one_le_prod {t : List Nat} (ht : ∀ d ∈ t, 1 ≤ d) : 1 ≤ t.prod := by
  induction t with
  | nil => exact le_refl _
  | cons a t ih =>
    obtain ⟨ha, ht⟩ := List.forall_mem_cons.mp ht
    rw [List.prod_cons]
    exact Nat.mul_pos ha (ih ht)

/-- Stretching nothing moves nothing. -/
theorem broadcastIndex_self {s t : List Nat} (h : List.Forall₂ (fun a b => a = b ∨ a = 1) s t)
    (ht : ∀ d ∈ t, 1 ≤ d) (hprod : s.prod = t.prod) {i : Nat} (hi : i < t.prod) :
    broadcastIndex s t i = i := by
  induction h generalizing i with
  | nil =>
    have hzero : i = 0 := by simpa using hi
    exact hzero.symm
  | @cons a b ss ts hab hrest ih =>
    obtain ⟨hb, hts⟩ := List.forall_mem_cons.mp ht
    have hle := prod_le_of_forall₂ hrest hts
    have hpos := one_le_prod hts
    rw [List.prod_cons, List.prod_cons] at hprod
    rw [List.prod_cons] at hi
    -- a dimension that is stretched would make the product larger
    have hsame : a = b ∧ ss.prod = ts.prod := by
      rcases hab with rfl | rfl
      · exact ⟨rfl, Nat.eq_of_mul_eq_mul_left hb hprod⟩
      · rw [Nat.one_mul] at hprod
        have hone : b * ts.prod ≤ 1 * ts.prod := by omega
        have hb1 : b ≤ 1 := Nat.le_of_mul_le_mul_right hone hpos
        have hb' : b = 1 := by omega
        rw [hb', Nat.one_mul] at hprod
        exact ⟨hb'.symm, hprod⟩
    obtain ⟨rfl, hprods⟩ := hsame
    rw [broadcastIndex, ih hts hprods (Nat.mod_lt _ hpos), hprods]
    have houter : (if a = 1 then 0 else i / ts.prod) = i / ts.prod := by
      split
      · next hone =>
        rw [hone, Nat.one_mul] at hi
        rw [Nat.div_eq_of_lt hi]
      · rfl
    rw [houter, Nat.mul_comm]
    exact Nat.div_add_mod i ts.prod

/-- A cast keeps the number of elements, or makes more of them; where it keeps it, it keeps the
    positions. -/
theorem castIndex_spec {kind : CastKind} {t t' : VectorType} (h : ValidCast kind t t')
    (ht' : ∀ d ∈ t'.dims, 1 ≤ d) : t.dims.prod ≤ t'.dims.prod ∧
      (t.dims.prod = t'.dims.prod → ∀ i < t'.dims.prod, castIndex kind t t' i = i) := by
  cases kind with
  | extF | extSI | extUI =>
    obtain ⟨hdims, -⟩ := h
    rw [hdims]
    exact ⟨le_refl _, fun _ _ _ => rfl⟩
  | shapeCast => exact ⟨h.2.ge, fun _ _ _ => rfl⟩
  | broadcast =>
    obtain ⟨-, leading, trailing, hdims, hforall⟩ := h
    rw [hdims] at ht'
    obtain ⟨hleading, htrailing⟩ := List.forall_mem_append.mp ht'
    have hle := prod_le_of_forall₂ hforall htrailing
    have hlead := one_le_prod hleading
    have hpos := one_le_prod htrailing
    have hall : trailing.prod ≤ t'.dims.prod := by
      rw [hdims, List.prod_append]
      exact Nat.le_mul_of_pos_left _ hlead
    refine ⟨hle.trans hall, fun heq i hi => ?_⟩
    have hlast : trailing.prod = t'.dims.prod := by omega
    have hdrop : t'.dims.drop (t'.dims.length - t.dims.length) = trailing := by
      rw [hdims, hforall.length_eq, List.length_append, Nat.add_sub_cancel, List.drop_left]
    simp only [castIndex, hdrop]
    rw [Nat.mod_eq_of_lt (by omega)]
    exact broadcastIndex_self hforall htrailing (by omega) (by omega)

/-- A chain of casts likewise. -/
theorem castsIndex_spec {t : VectorType} {casts : List (CastKind × VectorType)}
    (h : ValidCasts t casts) : t.dims.prod ≤ (castsType t casts).dims.prod ∧
      (t.dims.prod = (castsType t casts).dims.prod →
        ∀ i < (castsType t casts).dims.prod, castsIndex t casts i = i) := by
  induction casts generalizing t with
  | nil => exact ⟨le_refl _, fun _ _ _ => rfl⟩
  | cons cast casts ih =>
    obtain ⟨kind, t'⟩ := cast
    obtain ⟨-, hcast, hrest⟩ := h
    have ht' : ∀ d ∈ t'.dims, 1 ≤ d := by
      cases casts with
      | nil => exact hrest
      | cons _ _ => exact hrest.1
    obtain ⟨hle, hself⟩ := castIndex_spec hcast ht'
    obtain ⟨hle', hself'⟩ := ih hrest
    refine ⟨hle.trans hle', fun heq i hi => ?_⟩
    show castIndex kind t t' (castsIndex t' casts i) = i
    change t.dims.prod = (castsType t' casts).dims.prod at heq
    change i < (castsType t' casts).dims.prod at hi
    change t'.dims.prod ≤ (castsType t' casts).dims.prod at hle'
    rw [hself' (by omega) i hi]
    exact hself (by omega) i (by omega)

/-! ### Integer elements -/

section Integer

variable {F : FloatUnit} {t : VectorType} {casts : List (CastKind × VectorType)} {w w' : Nat}

/-- What is an integer after the casts was one before, and no wider. -/
theorem integer_of_castsType (h : ValidCasts t casts)
    (htype : (castsType t casts).elementType = .integer w') :
    ∃ w, t.elementType = .integer w ∧ w ≤ w' := by
  induction casts generalizing t with
  | nil => exact ⟨w', htype, le_refl _⟩
  | cons cast casts ih =>
    obtain ⟨kind, t'⟩ := cast
    obtain ⟨-, hcast, hrest⟩ := h
    obtain ⟨w₁, ht', hle⟩ := ih hrest htype
    cases kind with
    | extSI | extUI =>
      obtain ⟨-, w, w₂, ht, ht₂, -, hlt⟩ := hcast
      obtain rfl := ElementType.integer.inj (ht'.symm.trans ht₂)
      exact ⟨w, ht, by omega⟩
    | extF => exact absurd (ht'.symm.trans hcast.2.2) (by simp)
    | broadcast | shapeCast => exact ⟨w₁, hcast.1.symm.trans ht', hle⟩

/-- Non-negative numbers keep their value. -/
theorem castsElement_small (h : ValidCasts t casts) (ht : t.elementType = .integer w)
    (htype : (castsType t casts).elementType = .integer w') {x : Nat} (hx : x < 2 ^ (w - 1)) :
    castsElement F t casts x = x ∧ x < 2 ^ (w' - 1) := by
  induction casts generalizing t w with
  | nil =>
    obtain rfl := ElementType.integer.inj (ht.symm.trans htype)
    exact ⟨rfl, hx⟩
  | cons cast casts ih =>
    obtain ⟨kind, t'⟩ := cast
    obtain ⟨-, hcast, hrest⟩ := h
    cases kind with
    | extSI | extUI =>
      obtain ⟨-, w₀, w₁, ht₀, ht₁, -, hlt⟩ := hcast
      obtain rfl := ElementType.integer.inj (ht.symm.trans ht₀)
      have hx₁ : x < 2 ^ (w₁ - 1) := hx.trans_le (Nat.pow_le_pow_right (by omega) (by omega))
      have hkeep : ∀ kind, kind = .extSI ∨ kind = .extUI → castElement F kind t t' x = x := by
        rintro kind (rfl | rfl)
        · simp only [castElement, ht, ht₁, signExtend_of_lt hx]
        · rfl
      rw [castsElement, hkeep _ (by simp)]
      exact ih hrest ht₁ htype hx₁
    | extF => exact absurd hcast.2.1 (by simp [ht])
    | broadcast | shapeCast => exact ih hrest (hcast.1.trans ht) htype hx

/-- **Signed extensions only** make one signed extension. -/
theorem castsElement_signed (h : ValidCasts t casts) (hsigned : ∀ t', (.extUI, t') ∉ casts)
    (ht : t.elementType = .integer w) (htype : (castsType t casts).elementType = .integer w')
    (x : Nat) : castsElement F t casts x = signExtend w w' x := by
  induction casts generalizing t w x with
  | nil =>
    obtain rfl := ElementType.integer.inj (ht.symm.trans htype)
    rw [signExtend_self]
    rfl
  | cons cast casts ih =>
    obtain ⟨kind, t'⟩ := cast
    obtain ⟨-, hcast, hrest⟩ := h
    have hsigned' : ∀ t', (.extUI, t') ∉ casts := fun t₁ hmem =>
      hsigned t₁ (List.mem_cons_of_mem _ hmem)
    cases kind with
    | extSI =>
      obtain ⟨-, w₀, w₁, ht₀, ht₁, hone, hlt⟩ := hcast
      obtain rfl := ElementType.integer.inj (ht.symm.trans ht₀)
      obtain ⟨w₂, ht₂, hle⟩ := integer_of_castsType hrest htype
      obtain rfl := ElementType.integer.inj (ht₁.symm.trans ht₂)
      have hext : castElement F .extSI t t' x = signExtend w w₁ x := by
        simp only [castElement, ht, ht₁]
      rw [castsElement, hext, ih hrest hsigned' ht₁ htype, signExtend_signExtend hone hlt.le hle]
    | extUI => exact absurd List.mem_cons_self (hsigned t')
    | extF => exact absurd hcast.2.1 (by simp [ht])
    | broadcast | shapeCast => exact ih hrest hsigned' (hcast.1.trans ht) htype x

/-- **An unsigned extension** makes -128 a positive number. -/
theorem castsElement_unsigned (h : ValidCasts t casts) {t₀ : VectorType}
    (hunsigned : (.extUI, t₀) ∈ casts) (hw : 8 ≤ w) (ht : t.elementType = .integer w)
    (htype : (castsType t casts).elementType = .integer w') :
    ∃ v, v < w' ∧ castsElement F t casts (2 ^ w - 128) = 2 ^ v - 128 ∧
      2 ^ v - 128 < 2 ^ (w' - 1) := by
  induction casts generalizing t w with
  | nil => cases hunsigned
  | cons cast casts ih =>
    obtain ⟨kind, t'⟩ := cast
    obtain ⟨-, hcast, hrest⟩ := h
    have hhalf : 2 ^ w = 2 * 2 ^ (w - 1) := two_pow_pred (by omega)
    have hbig : 2 ^ 7 ≤ 2 ^ (w - 1) := Nat.pow_le_pow_right (by omega) (by omega)
    cases kind with
    | extUI =>
      obtain ⟨-, w₀, w₁, ht₀, ht₁, -, hlt⟩ := hcast
      obtain rfl := ElementType.integer.inj (ht.symm.trans ht₀)
      obtain ⟨w₂, ht₂, hle⟩ := integer_of_castsType hrest htype
      obtain rfl := ElementType.integer.inj (ht₁.symm.trans ht₂)
      -- from here on the number is small
      have hpow : 2 ^ w ≤ 2 ^ (w₁ - 1) := Nat.pow_le_pow_right (by omega) (by omega)
      have hsmall : 2 ^ w - 128 < 2 ^ (w₁ - 1) := by omega
      have hkeep : castElement F .extUI t t' (2 ^ w - 128) = 2 ^ w - 128 := by
        simp only [castElement]
      obtain ⟨hsame, hlast⟩ := castsElement_small (F := F) hrest ht₁ htype hsmall
      exact ⟨w, by omega, by rw [castsElement, hkeep, hsame], hlast⟩
    | extSI =>
      obtain ⟨-, w₀, w₁, ht₀, ht₁, -, hlt⟩ := hcast
      obtain rfl := ElementType.integer.inj (ht.symm.trans ht₀)
      have hpow : 2 ^ w ≤ 2 ^ w₁ := Nat.pow_le_pow_right (by omega) hlt.le
      have hext : castElement F .extSI t t' (2 ^ w - 128) = 2 ^ w₁ - 128 := by
        simp only [castElement, ht, ht₁]
        rw [signExtend_of_le (by omega)]
        omega
      have hmem : (.extUI, t₀) ∈ casts := by simpa using hunsigned
      obtain ⟨v, hv⟩ := ih hrest hmem (by omega) ht₁ htype
      exact ⟨v, hv.1, by rw [castsElement, hext]; exact hv.2.1, hv.2.2⟩
    | extF => exact absurd hcast.2.1 (by simp [ht])
    | broadcast | shapeCast =>
      have hmem : (.extUI, t₀) ∈ casts := by simpa using hunsigned
      exact ih hrest hmem hw (hcast.1.trans ht) htype

end Integer

/-! ### Float elements -/

section Float

variable {F : FloatUnit} {t : VectorType} {casts : List (CastKind × VectorType)}

/-- The float types that are promoted to `f32`. -/
def IsNarrowFloat (type : ElementType) : Prop := type = .f32 ∨ type = .bf16 ∨ type = .f16

/-- What is a float after the casts was one before, and no extension was unsigned. -/
theorem narrowFloat_of_castsType (h : ValidCasts t casts)
    (htype : IsNarrowFloat (castsType t casts).elementType) :
    IsNarrowFloat t.elementType ∧ ∀ t', (.extUI, t') ∉ casts := by
  induction casts generalizing t with
  | nil => exact ⟨htype, by simp⟩
  | cons cast casts ih =>
    obtain ⟨kind, t'⟩ := cast
    obtain ⟨-, hcast, hrest⟩ := h
    obtain ⟨ht', hsigned⟩ := ih hrest htype
    cases kind with
    | extSI | extUI =>
      obtain ⟨-, w, w', -, hinteger, -, -⟩ := hcast
      rw [hinteger] at ht'
      rcases ht' with h | h | h <;> cases h
    | extF => exact ⟨.inr hcast.2.1, by simpa using hsigned⟩
    | broadcast | shapeCast => exact ⟨hcast.1 ▸ ht', by simpa using hsigned⟩

/-- **Casts of floats** do not change what the elements are promoted to. -/
theorem castsElement_float (h : ValidCasts t casts)
    (htype : IsNarrowFloat (castsType t casts).elementType) (x : Nat) :
    (floatArith F).promote (castsType t casts).elementType (castsElement F t casts x)
      = (floatArith F).promote t.elementType x := by
  induction casts generalizing t x with
  | nil => rfl
  | cons cast casts ih =>
    obtain ⟨kind, t'⟩ := cast
    obtain ⟨-, hcast, hrest⟩ := h
    have hsame := ih hrest htype
    cases kind with
    | extSI | extUI =>
      obtain ⟨-, w, w', -, hinteger, -, -⟩ := hcast
      have ht' := (narrowFloat_of_castsType hrest htype).1
      rw [hinteger] at ht'
      rcases ht' with h | h | h <;> cases h
    | extF =>
      obtain ⟨-, hnarrow, hwide⟩ := hcast
      refine (hsame (F.ext t.elementType x)).trans ?_
      rw [hwide]
      rcases hnarrow with h | h <;> rw [h] <;> rfl
    | broadcast | shapeCast =>
      rw [← hcast.1]
      exact hsame x

/-- What is `f16` after the casts was so before. -/
theorem f16_of_castsType (h : ValidCasts t casts)
    (htype : (castsType t casts).elementType = .f16) : t.elementType = .f16 := by
  induction casts generalizing t with
  | nil => exact htype
  | cons cast casts ih =>
    obtain ⟨kind, t'⟩ := cast
    obtain ⟨-, hcast, hrest⟩ := h
    have ht' := ih hrest htype
    cases kind with
    | extSI | extUI =>
      obtain ⟨-, w, w', -, hinteger, -, -⟩ := hcast
      exact absurd (hinteger.symm.trans ht') (by simp)
    | extF => exact absurd (hcast.2.2.symm.trans ht') (by simp)
    | broadcast | shapeCast => exact hcast.1.symm.trans ht'

end Float

end CoralNPU.Matrix
