import Mathlib.Algebra.Order.Ring.Nat
import Mathlib.Tactic.Ring
import Mathlib.Tactic.Positivity

namespace Lib

/-!
# Lanes of a vector register

A vector of `n` elements of `w` bits lies packed in the low bits of a register; what is above
them is undefined.  A lane is a field of the register, whatever the width of the elements.

* `register`, `lane` — the register as a number, and its fields;
* `lane_register` — a lane of the width of the elements is an element;
* `lane_undef`, `lane_flip` — a lane that reaches above the elements is not determined;
* `signExtend` — sign extension, which composes (`signExtend_signExtend`).
-/

/-! ### Registers -/

/-- The elements `0, …, n - 1`, of `w` bits each, the first one lowest. -/
def pack (w : Nat) (elements : Nat → Nat) : Nat → Nat
  | 0 => 0
  | n + 1 => pack w elements n + 2 ^ (w * n) * elements n

/-- A register with `n` elements of `w` bits, and `undef` above them. -/
def register (w n : Nat) (elements : Nat → Nat) (undef : Nat) : Nat :=
  pack w elements n + 2 ^ (w * n) * undef

/-- Lane `i` of `sew` bits. -/
def lane (sew reg i : Nat) : Nat := reg / 2 ^ (sew * i) % 2 ^ sew

variable {w n sew : Nat} {elements : Nat → Nat}

/-- The packed elements fit their lanes. -/
theorem pack_lt (h : ∀ e, elements e < 2 ^ w) (n : Nat) : pack w elements n < 2 ^ (w * n) := by
  induction n with
  | zero => exact Nat.one_pos
  | succ n ih =>
    have helement : elements n + 1 ≤ 2 ^ w := h n
    calc pack w elements n + 2 ^ (w * n) * elements n
        < 2 ^ (w * n) + 2 ^ (w * n) * elements n := Nat.add_lt_add_right ih _
      _ = 2 ^ (w * n) * (elements n + 1) := by ring
      _ ≤ 2 ^ (w * n) * 2 ^ w := Nat.mul_le_mul_left _ helement
      _ = 2 ^ (w * (n + 1)) := by rw [← pow_add, Nat.mul_succ]

/-- Nothing is in a register of zeros. -/
theorem lane_zeros (w n sew i : Nat) : lane sew (register w n (fun _ => 0) 0) i = 0 := by
  have hpack : pack w (fun _ => 0) n = 0 := by
    induction n with
    | zero => rfl
    | succ n ih => rw [pack, ih, Nat.mul_zero]
  rw [register, hpack, lane, Nat.mul_zero, Nat.zero_div, Nat.zero_mod]

/-- What is above the first `k` elements. -/
theorem register_split (w : Nat) (elements : Nat → Nat) {k : Nat} (hk : k ≤ n) (undef : Nat) :
    ∃ rest, register w n elements undef = register w k elements rest := by
  induction n, hk using Nat.le_induction generalizing undef with
  | base => exact ⟨undef, rfl⟩
  | succ n _ ih =>
    obtain ⟨rest, hrest⟩ := ih (elements n + 2 ^ w * undef)
    refine ⟨rest, ?_⟩
    rw [← hrest]
    unfold register
    rw [pack, Nat.mul_succ, pow_add]
    ring

/-- **A lane of the width of the elements** is an element. -/
theorem lane_register (h : ∀ e, elements e < 2 ^ w) {i : Nat} (hi : i < n) (undef : Nat) :
    lane w (register w n elements undef) i = elements i := by
  obtain ⟨rest, hrest⟩ := register_split w elements hi undef
  have hlow := pack_lt h i
  rw [hrest]
  unfold lane register
  rw [pack, Nat.mul_succ, pow_add]
  have hsum : pack w elements i + 2 ^ (w * i) * elements i + 2 ^ (w * i) * 2 ^ w * rest
      = pack w elements i + 2 ^ (w * i) * (elements i + 2 ^ w * rest) := by ring
  rw [hsum, Nat.add_mul_div_left _ _ (by positivity), Nat.div_eq_of_lt hlow, Nat.zero_add,
    Nat.add_mul_mod_self_left, Nat.mod_eq_of_lt (h i)]

/-- A lane within the lowest element. -/
theorem lane_first {i : Nat} (hw : sew * (i + 1) ≤ w) (hn : 0 < n) (undef : Nat) :
    lane sew (register w n elements undef) i = elements 0 / 2 ^ (sew * i) % 2 ^ sew := by
  obtain ⟨rest, hrest⟩ := register_split w elements hn undef
  obtain ⟨d, rfl⟩ := Nat.exists_eq_add_of_le hw
  rw [hrest]
  have hreg : register (sew * (i + 1) + d) 1 elements rest
      = elements 0 + 2 ^ (sew * i) * (2 ^ sew * (2 ^ d * rest)) := by
    unfold register pack pack
    rw [Nat.mul_zero, Nat.mul_one, pow_add, Nat.mul_succ, pow_add]
    ring
  rw [hreg, lane, Nat.add_mul_div_left _ _ (by positivity), Nat.add_mul_mod_self_left]

/-- The second lane, above a small element that is wider than a lane. -/
theorem lane_one_even (hsew : 0 < sew) (hw : sew < w) (hn : 0 < n) (h : elements 0 < 2 ^ sew)
    (undef : Nat) : lane sew (register w n elements undef) 1 % 2 = 0 := by
  obtain ⟨rest, hrest⟩ := register_split w elements hn undef
  obtain ⟨d, rfl⟩ := Nat.exists_eq_add_of_lt hw
  rw [hrest]
  have hreg : register (sew + d + 1) 1 elements rest
      = elements 0 + 2 ^ sew * (2 * (2 ^ d * rest)) := by
    unfold register pack pack
    rw [Nat.mul_zero, Nat.mul_one, pow_add, pow_add]
    ring
  have hdvd : 2 ∣ 2 ^ sew := dvd_pow_self 2 (by omega)
  rw [hreg, lane, Nat.mul_one, Nat.add_mul_div_left _ _ (by positivity), Nat.div_eq_of_lt h,
    Nat.zero_add, Nat.mod_mod_of_dvd _ hdvd, Nat.mul_mod_right]

/-- **A lane above the elements** holds anything. -/
theorem lane_undef (h : ∀ e, elements e < 2 ^ w) {i : Nat} (hi : w * n ≤ sew * i) {v : Nat}
    (hv : v < 2 ^ sew) : ∃ undef, lane sew (register w n elements undef) i = v := by
  obtain ⟨d, hd⟩ := Nat.exists_eq_add_of_le hi
  have hlow : pack w elements n < 2 ^ (sew * i) :=
    (pack_lt h n).trans_le (Nat.pow_le_pow_right (by omega) hi)
  refine ⟨2 ^ d * v, ?_⟩
  have hreg : register w n elements (2 ^ d * v) = pack w elements n + 2 ^ (sew * i) * v := by
    rw [register, hd, pow_add]
    ring
  rw [hreg, lane, Nat.add_mul_div_left _ _ (by positivity), Nat.div_eq_of_lt hlow, Nat.zero_add,
    Nat.mod_eq_of_lt hv]

/-- **A lane that reaches above the elements**: its sign is not determined. -/
theorem lane_flip (h : ∀ e, elements e < 2 ^ w) {i : Nat} (hi : w * n < sew * (i + 1)) :
    ∃ undef undef', lane sew (register w n elements undef) i < 2 ^ (sew - 1)
      ∧ 2 ^ (sew - 1) ≤ lane sew (register w n elements undef') i := by
  have hsew : sew ≠ 0 := fun h0 => by simp [h0] at hi
  obtain ⟨s, rfl⟩ : ∃ s, sew = s + 1 := ⟨sew - 1, by omega⟩
  have hle : w * n ≤ (s + 1) * i + s := by
    rw [Nat.mul_succ] at hi
    omega
  obtain ⟨d, hd⟩ := Nat.exists_eq_add_of_le hle
  have hlow : pack w elements n < 2 ^ ((s + 1) * i) * 2 ^ s := by
    rw [← pow_add]
    exact (pack_lt h n).trans_le (Nat.pow_le_pow_right (by omega) hle)
  have hdiv : pack w elements n / 2 ^ ((s + 1) * i) < 2 ^ s := Nat.div_lt_of_lt_mul hlow
  have htwo : 2 ^ (s + 1) = 2 ^ s + 2 ^ s := by rw [pow_succ, mul_two]
  have hmod : pack w elements n / 2 ^ ((s + 1) * i) < 2 ^ (s + 1) :=
    hdiv.trans_le (by rw [htwo]; exact Nat.le_add_right _ _)
  refine ⟨0, 2 ^ d, ?_, ?_⟩
  · -- nothing above: the top bit is clear
    show lane (s + 1) (register w n elements 0) i < 2 ^ s
    have hreg : register w n elements 0 = pack w elements n := by simp [register]
    rw [hreg, lane, Nat.mod_eq_of_lt hmod]
    exact hdiv
  · show 2 ^ s ≤ lane (s + 1) (register w n elements (2 ^ d)) i
    have hreg : register w n elements (2 ^ d)
        = pack w elements n + 2 ^ ((s + 1) * i) * 2 ^ s := by
      rw [register, ← pow_add, ← hd, pow_add]
    rw [hreg, lane, Nat.add_mul_div_left _ _ (by positivity), Nat.mod_eq_of_lt (by omega)]
    exact Nat.le_add_left _ _

/-! ### Sign extension -/

/-- The sign extension of a number of `w` bits to `w'` bits. -/
def signExtend (w w' x : Nat) : Nat := if x < 2 ^ (w - 1) then x else x + (2 ^ w' - 2 ^ w)

/-- A value below half of the range is kept. -/
theorem signExtend_of_lt {w' x : Nat} (h : x < 2 ^ (w - 1)) : signExtend w w' x = x := if_pos h

/-- Another one gets the high bits. -/
theorem signExtend_of_le {w' x : Nat} (h : 2 ^ (w - 1) ≤ x) :
    signExtend w w' x = x + (2 ^ w' - 2 ^ w) := if_neg (Nat.not_lt.mpr h)

/-- Both halves of the range are equal. -/
theorem two_pow_pred {w : Nat} (hw : 1 ≤ w) : 2 ^ w = 2 * 2 ^ (w - 1) := by
  obtain ⟨k, rfl⟩ := Nat.exists_eq_add_of_le hw
  rw [Nat.add_sub_cancel_left, pow_add, pow_one]

/-- Extending to the same width changes nothing. -/
@[simp] theorem signExtend_self (w x : Nat) : signExtend w w x = x := by
  simp [signExtend]

/-- **Sign extensions compose.** -/
theorem signExtend_signExtend {w' w'' x : Nat} (hw : 1 ≤ w) (hw' : w ≤ w') (hw'' : w' ≤ w'') :
    signExtend w' w'' (signExtend w w' x) = signExtend w w'' x := by
  have hpow : 2 ^ w ≤ 2 ^ w' := Nat.pow_le_pow_right (by omega) hw'
  have hpow' : 2 ^ w' ≤ 2 ^ w'' := Nat.pow_le_pow_right (by omega) hw''
  have hhalf := two_pow_pred hw
  have hhalf' := two_pow_pred (hw.trans hw')
  rcases Nat.lt_or_ge x (2 ^ (w - 1)) with hlt | hge
  · rw [signExtend_of_lt hlt, signExtend_of_lt hlt, signExtend_of_lt (by omega)]
  · rw [signExtend_of_le hge, signExtend_of_le hge, signExtend_of_le (by omega)]
    omega

end Lib
