import CoralNPU.Matrix.Lowered

namespace CoralNPU.Matrix

open Lib

/-!
# Matrix — signed 8-bit products

When the products of 8-bit lanes are those of a contraction of integers.  Operands that hold one
number everywhere tell what the contraction accumulates and how wide the passed elements are.

* `Operand.Products` — what agreement says about such operands, in either order;
* `eight_of_products`, `signed_of_products` — the passed vectors have four elements of 8 bits, and
  no unsigned extension is left out;
* `agree_integer_iff` — the tile and the contraction agree exactly for sums of such operands with
  the rows first.
-/

/-- An integer operand, of `w` bits at its source and `w'` bits in the contraction. -/
structure Operand.IsInteger (o : Operand) (w w' : Nat) : Prop where
  column : o.IsColumn
  source : o.source.elementType = .integer w
  type : o.type.elementType = .integer w'
  le : w' ≤ 32

namespace Operand

variable {F : FloatUnit} {o o' : Operand} {w w' v v' : Nat} {kind : CombiningKind} {rows : Bool}

/-- Nothing is promoted to nothing. -/
theorem lanes_zeros (o : Operand) (i : Nat) :
    o.lanes intArith (.integer 8) (fun _ => 0) 0 i = 0 := by
  unfold lanes Operand.register
  rw [lane_zeros]
  rfl

theorem inRange_const {x : Nat} (h : o.IsInteger w w') (hx : x < 2 ^ w) :
    o.InRange fun _ => x := by
  intro e
  rw [h.source]
  exact hx

namespace IsInteger

/-- Non-negative numbers keep their value. -/
theorem elements_small (h : o.IsInteger w w') (F : FloatUnit) {x : Nat} (hx : x < 2 ^ (w - 1))
    (i : Nat) : o.elements F intArith (fun _ => x) i = x := by
  obtain ⟨hsame, hlt⟩ := castsElement_small (F := F) h.column.valid h.source h.type hx
  rw [elements_const, hsame, h.type]
  exact signExtend_of_lt hlt

/-- A lane of 8 bits, of what the register holds. -/
theorem lanes_eq (h : o.IsInteger w w') (values : Nat → Nat) (undef i : Nat) :
    o.lanes intArith (.integer 8) values undef i
      = signExtend 8 32 (lane 8 (Lib.register w o.source.dims.prod values undef) i) := by
  unfold lanes Operand.register
  rw [h.source]
  rfl

/-- The lowest lane holds a small number if the elements are wide enough. -/
theorem lanes_zero (h : o.IsInteger w w') (hw : 8 ≤ w) {x : Nat} (hx : x < 2 ^ 7) (undef : Nat) :
    o.lanes intArith (.integer 8) (fun _ => x) undef 0 = x := by
  rw [h.lanes_eq, lane_first (by omega) h.column.one_le, Nat.mul_zero, pow_zero, Nat.div_one,
    Nat.mod_eq_of_lt (by omega)]
  exact signExtend_of_lt hx

/-- Sign extensions, up to the one that the intrinsic makes, are one. -/
theorem keeps (h : o.IsInteger 8 w') (hsigned : ∀ t, (.extUI, t) ∉ o.casts) :
    o.Keeps F intArith := by
  intro x hx
  obtain ⟨w, hw, hle⟩ := integer_of_castsType h.column.valid h.type
  obtain rfl := ElementType.integer.inj (h.source.symm.trans hw)
  rw [castsElement_signed h.column.valid hsigned h.source h.type, h.type, h.source]
  exact signExtend_signExtend (by omega) hle h.le

end IsInteger

/-! ### What is accumulated -/

/-- Of no products at all, only these leave every accumulator as it is. -/
theorem accumulates_of_agree (h : o.IsInteger w w') (h' : o'.IsInteger v v')
    (hkind : kind.isInteger = true)
    (hagree : Agree F intArith (.integer 8) kind rows o o') :
    kind = .add ∨ kind = .maxui ∨ kind = .or ∨ kind = .xor := by
  have hzero : ∀ acc, acc < 2 ^ 32 → acc = intCombine kind 0 acc := by
    intro acc hacc
    have hcell := hagree (fun _ => 0) (fun _ => 0) (inRange_const h (by positivity))
      (inRange_const h' (by positivity)) 0 0 acc 0 0 hacc (by omega) (by omega)
    rw [lanes_zeros, lanes_zeros, h.elements_small F (by positivity), h'.elements_small F (by positivity)]
      at hcell
    have hsum : intCombine .add (0 * 0 % 2 ^ 32) acc = acc := by
      show (0 * 0 % 2 ^ 32 + acc) % 2 ^ 32 = acc
      omega
    exact hsum.symm.trans hcell
  have hone := hzero 1 (by decide)
  have htop := hzero (2 ^ 32 - 1) (by decide)
  cases kind with
  | add | maxui | or | xor => simp
  | mul | minui | minsi | and => exact absurd hone (by decide)
  | maxsi => exact absurd htop (by decide)
  | minnumf | maxnumf | maximumf | minimumf => cases hkind

/-- The products of operands that hold one number everywhere. -/
def Products (F : FloatUnit) (o o' : Operand) (w v : Nat) : Prop :=
  ∀ x x', x < 2 ^ w → x' < 2 ^ v → ∀ undef undef' i j, i < 4 → j < 4 →
    o.lanes intArith (.integer 8) (fun _ => x) undef i
        * o'.lanes intArith (.integer 8) (fun _ => x') undef' j % 2 ^ 32
      = o.elements F intArith (fun _ => x) 0 * o'.elements F intArith (fun _ => x') 0 % 2 ^ 32

theorem Products.symm (h : Products F o o' w v) : Products F o' o v w := by
  intro x x' hx hx' undef undef' i j hi hj
  rw [Nat.mul_comm, h x' x hx' hx undef' undef j i hj hi, Nat.mul_comm]

theorem products_of_agree (h : o.IsInteger w w') (h' : o'.IsInteger v v')
    (hkind : kind = .add ∨ kind = .maxui ∨ kind = .or ∨ kind = .xor)
    (hagree : Agree F intArith (.integer 8) kind rows o o') : Products F o o' w v := by
  intro x x' hx hx' undef undef' i j hi hj
  have hcell := hagree _ _ (inRange_const h hx) (inRange_const h' hx') undef undef' 0 i j
    (by decide) hi hj
  have hconst : ∀ (o : Operand) (x i : Nat),
      o.elements F intArith (fun _ => x) i = o.elements F intArith (fun _ => x) 0 := fun o x i =>
    (elements_const F intArith o x i).trans (elements_const F intArith o x 0).symm
  rw [hconst o, hconst o'] at hcell
  have hself : ∀ p, intCombine kind (p % 2 ^ 32) 0 = p % 2 ^ 32 := by
    intro p
    rcases hkind with rfl | rfl | rfl | rfl <;> simp [intCombine]
  exact (Nat.mod_mod _ _).symm.trans (hcell.trans (hself _))

/-! ### The width of the elements -/

/-- **Four elements of 8 bits**: a lane that the elements do not reach holds anything, and in wider
    elements the second lane is not the second element. -/
theorem eight_of_products (h : o.IsInteger w w') (h' : o'.IsInteger v v') (hw : 8 ≤ w)
    (hproducts : Products F o o' w v) : v = 8 ∧ o'.source.dims.prod = 4 := by
  have hone : 1 < 2 ^ w := Nat.one_lt_two_pow (by omega)
  have hfour := h'.column.le_four
  have hfirst := h.lanes_zero hw (x := 1) (by decide) 0
  -- the elements reach the last lane
  have hreach : 32 ≤ v * o'.source.dims.prod := by
    by_contra hshort
    obtain ⟨undef, undef', hlow, hhigh⟩ : ∃ undef undef',
        lane 8 (Lib.register v o'.source.dims.prod (fun _ => 0) undef) 3 < 2 ^ 7
          ∧ 2 ^ 7 ≤ lane 8 (Lib.register v o'.source.dims.prod (fun _ => 0) undef') 3 :=
      lane_flip (fun _ => by positivity) (by omega)
    have hlow' := hproducts 1 0 hone (by positivity) 0 undef 0 3 (by omega) (by omega)
    have hhigh' := hproducts 1 0 hone (by positivity) 0 undef' 0 3 (by omega) (by omega)
    have hlane : lane 8 (Lib.register v o'.source.dims.prod (fun _ => 0) undef') 3 < 2 ^ 8 :=
      Nat.mod_lt _ (by decide)
    have heq := hlow'.trans hhigh'.symm
    rw [hfirst, h'.lanes_eq, h'.lanes_eq, signExtend_of_lt hlow, signExtend_of_le hhigh] at heq
    omega
  have hv : 8 ≤ v := by
    by_contra hlt
    have : v * o'.source.dims.prod ≤ 7 * 4 := Nat.mul_le_mul (by omega) hfour
    omega
  -- the second lane is 1
  have hone' : 1 < 2 ^ v := Nat.one_lt_two_pow (by omega)
  have hsecond : o'.lanes intArith (.integer 8) (fun _ => 1) 0 1 % 2 ^ 32 = 1 := by
    have hzero := hproducts 1 1 hone hone' 0 0 0 0 (by omega) (by omega)
    have hnext := hproducts 1 1 hone hone' 0 0 0 1 (by omega) (by omega)
    rw [hfirst, Nat.one_mul] at hzero hnext
    rw [hnext, ← hzero, h'.lanes_zero hv (by decide)]
    rfl
  have height : v = 8 := by
    by_contra hne
    have heven : lane 8 (Lib.register v o'.source.dims.prod (fun _ => 1) 0) 1 % 2 = 0 :=
      lane_one_even (by omega) (by omega) h'.column.one_le (by decide) 0
    rw [h'.lanes_eq, signExtend] at hsecond
    split at hsecond <;> omega
  refine ⟨height, ?_⟩
  subst height
  omega

/-- **No unsigned extension**: it makes -128 a positive number. -/
theorem signed_of_products (h : o.IsInteger 8 w') (h' : o'.IsInteger 8 v')
    (hcount : o'.source.dims.prod = 4) (hproducts : Products F o o' 8 8) :
    ∀ t, (.extUI, t) ∉ o'.casts := by
  intro t hmem
  obtain ⟨u, hu, hcast, hsmall⟩ := castsElement_unsigned (F := F) h'.column.valid hmem (le_refl 8)
    h'.source h'.type
  have hcell := hproducts 1 128 (by decide) (by decide) 0 0 0 0 (by omega) (by omega)
  have hrange : o'.InRange fun _ => 128 := inRange_const h' (by decide)
  have helements : o'.elements F intArith (fun _ => 128) 0 = 2 ^ u - 128 := by
    rw [elements_const]
    refine (congrArg _ hcast).trans ?_
    rw [h'.type]
    exact signExtend_of_lt hsmall
  rw [h.lanes_zero (le_refl 8) (by decide), h.elements_small F (by decide), helements,
    lanes_four hcount h'.source intArith hrange 0 (by omega)] at hcell
  have hle := h'.le
  have hpow : 2 ^ u ≤ 2 ^ 31 := Nat.pow_le_pow_right (by omega) (by omega)
  have hlane : intArith.promote (.integer 8) 128 = 2 ^ 32 - 128 := by decide
  rw [hlane] at hcell
  omega

/-! ### Agreement -/

/-- **Integers agree** exactly in sums, with the left operand on the rows, of operands that feed
    the lanes. -/
theorem agree_integer_iff (h : o.IsInteger w w') (h' : o'.IsInteger v v') (hw : 8 ≤ w)
    (hkind : kind.isInteger = true) (hvector : o.isVector = true) (hvector' : o'.isVector = true) :
    Agree F intArith (.integer 8) kind rows o o'
      ↔ kind = .add ∧ rows = true ∧ o.Feeds (.integer 8) ∧ o'.Feeds (.integer 8) := by
  constructor
  · intro hagree
    have hkinds := accumulates_of_agree h h' hkind hagree
    have hproducts := products_of_agree h h' hkinds hagree
    obtain ⟨rfl, hcount'⟩ := eight_of_products h h' hw hproducts
    obtain ⟨rfl, hcount⟩ := eight_of_products h' h (le_refl 8) hproducts.symm
    have hsigned' := signed_of_products h h' hcount' hproducts
    have hsigned := signed_of_products h' h hcount hproducts.symm
    have hfeeds : o.Feeds (.integer 8) := ⟨hvector, hcount, h.source, hsigned⟩
    have hfeeds' : o'.Feeds (.integer 8) := ⟨hvector', hcount', h'.source, hsigned'⟩
    have hones : o'.InRange fun _ => 1 := inRange_const h' (by decide)
    have hrange : o.InRange fun _ => 1 := inRange_const h (by decide)
    -- one product, on an accumulator that is not 0
    have hadd : kind = .add := by
      have hcell := hagree _ _ hrange hones 0 0 1 0 0 (by decide) (by omega) (by omega)
      rw [h.lanes_zero (le_refl 8) (by decide), h'.lanes_zero (le_refl 8) (by decide),
        h.elements_small F (by decide), h'.elements_small F (by decide)] at hcell
      rcases hkinds with rfl | rfl | rfl | rfl
      · rfl
      all_goals exact absurd hcell (by decide)
    subst hadd
    refine ⟨rfl, ?_, hfeeds, hfeeds'⟩
    -- a left operand with one element that is not 0
    by_contra hcolumns
    have hrow : o.InRange fun e => if e = 0 then 1 else 0 := by
      intro e
      rw [h.source]
      show (if e = 0 then 1 else 0) < 2 ^ 8
      split <;> decide
    have hcell := hagree _ _ hrow hones 0 0 0 0 1 (by decide) (by omega) (by omega)
    rw [Bool.not_eq_true] at hcolumns
    subst hcolumns
    rw [if_neg (by decide), if_neg (by decide), h'.elements_small F (by decide),
      ← lanes_eq_elements h.column hfeeds (h.keeps hsigned) hrow 0 (by omega),
      lanes_four hcount h.source intArith hrow 0 (by omega),
      lanes_four hcount h.source intArith hrow 0 (by omega),
      lanes_four hcount' h'.source intArith hones 0 (by omega)] at hcell
    exact absurd hcell (by decide)
  · rintro ⟨rfl, rfl, hfeeds, hfeeds'⟩
    obtain rfl := ElementType.integer.inj (h.source.symm.trans hfeeds.type)
    obtain rfl := ElementType.integer.inj (h'.source.symm.trans hfeeds'.type)
    exact agree_of_feeds h.column h'.column hfeeds hfeeds' (h.keeps hfeeds.signed)
      (h'.keeps hfeeds'.signed)

end Operand

end CoralNPU.Matrix
