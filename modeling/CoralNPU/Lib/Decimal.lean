import CoralNPU.Lib.Text
import Mathlib.Data.List.Induction

namespace Lib

/-!
# Decimal numerals in text

* `Numeral s v` — the characters `s` spell the integer `v`: an optional minus sign and at least one
  digit.  Leading zeros are allowed.
* `decimal v` — the shortest numeral of `v`: `numeral_decimal` and `Numeral.sameOrLonger`.
* `decimal_append_inj` — a numeral that no digit follows is read back in one way only.
-/

/-! ### Digits -/

/-- At least one digit, and nothing else. -/
def IsDigits (s : List Char) : Prop := s ≠ [] ∧ ∀ c ∈ s, c.isDigit = true

/-- It can be decided whether a text is one of digits. -/
instance decidableIsDigits (s : List Char) : Decidable (IsDigits s) :=
  decidable_of_iff (s ≠ [] ∧ s.all Char.isDigit = true) (and_congr_right fun _ => List.all_eq_true)

/-- The number that digits spell. -/
def digitsValue (s : List Char) : Nat := Nat.ofDigitChars 10 s 0

/-- The digits of a number are digits. -/
theorem isDigits_toDigits (n : Nat) : IsDigits (Nat.toDigits 10 n) :=
  ⟨List.ne_nil_of_length_pos Nat.length_toDigits_pos,
    fun _ hc => Nat.isDigit_of_mem_toDigits (by decide) (by decide) hc⟩

/-- They have its value. -/
@[simp] theorem digitsValue_toDigits (n : Nat) : digitsValue (Nat.toDigits 10 n) = n :=
  Nat.ofDigitChars_ten_toDigits

/-- A digit is the character of its value. -/
theorem exists_digitChar {c : Char} (h : c.isDigit = true) : ∃ d < 10, c = Nat.digitChar d := by
  obtain ⟨hlo, hhi⟩ : 48 ≤ c.toNat ∧ c.toNat ≤ 57 := by
    simp only [Char.isDigit, Bool.and_eq_true, decide_eq_true_eq, ge_iff_le] at h
    exact h
  refine ⟨c.toNat - 48, by omega, Char.toNat_inj.mp ?_⟩
  rw [Nat.toNat_digitChar_of_lt_ten (by omega)]
  omega

/-- Digits are the shortest spelling of their value, after zeros. -/
theorem exists_zeros {s : List Char} (h : IsDigits s) :
    ∃ k, s = List.replicate k '0' ++ Nat.toDigits 10 (digitsValue s) := by
  obtain ⟨hne, hdigits⟩ := h
  induction s using List.reverseRecOn with
  | nil => exact absurd rfl hne
  | append_singleton s c ih =>
    obtain ⟨d, hd, rfl⟩ := exists_digitChar (hdigits c (by simp))
    have hvalue : digitsValue (s ++ [Nat.digitChar d]) = 10 * digitsValue s + d := by
      rw [digitsValue, Nat.ofDigitChars_append, Nat.ofDigitChars_cons_digitChar_of_lt_ten hd,
        Nat.ofDigitChars_nil, digitsValue]
    rw [hvalue]
    -- the first digit, a digit after zeros only, and any other digit
    by_cases hs : s = []
    · subst hs
      refine ⟨0, ?_⟩
      rw [show 10 * digitsValue [] + d = d from Nat.zero_add d, Nat.toDigits_of_lt_base hd]
      rfl
    · obtain ⟨k, hk⟩ := ih hs fun c hc => hdigits c (List.mem_append_left _ hc)
      rcases Nat.eq_zero_or_pos (digitsValue s) with hzero | hpos
      · refine ⟨k + 1, ?_⟩
        rw [hzero, Nat.toDigits_zero, ← List.replicate_succ'] at hk
        rw [hzero, show 10 * 0 + d = d from Nat.zero_add d, Nat.toDigits_of_lt_base hd, ← hk]
      · refine ⟨k, ?_⟩
        rw [← Nat.toDigits_append_toDigits (by decide) hpos hd, ← List.append_assoc, ← hk,
          Nat.toDigits_of_lt_base hd]

/-! ### Numerals -/

/-- The characters spell the integer, with or without leading zeros. -/
inductive Numeral : List Char → Int → Prop
  | nonneg {s : List Char} (h : IsDigits s) : Numeral s (digitsValue s)
  | neg {s : List Char} (h : IsDigits s) : Numeral ('-' :: s) (-(digitsValue s : Int))

/-- The shortest numeral, as `std::to_string` and `str` write it. -/
def decimal (v : Int) : List Char :=
  if v < 0 then '-' :: Nat.toDigits 10 v.natAbs else Nat.toDigits 10 v.natAbs

/-- The decimal text of a number is a numeral for it. -/
theorem numeral_decimal (v : Int) : Numeral (decimal v) v := by
  unfold decimal
  split
  next h =>
    have hneg := Numeral.neg (isDigits_toDigits v.natAbs)
    rwa [digitsValue_toDigits, show -(v.natAbs : Int) = v by omega] at hneg
  next h =>
    have hnonneg := Numeral.nonneg (isDigits_toDigits v.natAbs)
    rwa [digitsValue_toDigits, show (v.natAbs : Int) = v by omega] at hnonneg

/-- A numeral has no characters but digits and the sign. -/
theorem Numeral.mem {s : List Char} {v : Int} (h : Numeral s v) {c : Char} (hc : c ∈ s) :
    c.isDigit = true ∨ c = '-' := by
  cases h with
  | nonneg h => exact Or.inl (h.2 c hc)
  | neg h =>
    rcases List.mem_cons.mp hc with rfl | hc
    · exact Or.inr rfl
    · exact Or.inl (h.2 c hc)

/-- A numeral is not empty. -/
theorem Numeral.ne_nil {s : List Char} {v : Int} (h : Numeral s v) : s ≠ [] := by
  cases h with
  | nonneg h => exact h.1
  | neg h => exact List.cons_ne_nil _ _

/-- **No numeral is shorter** than the shortest, and no other is as short. -/
theorem Numeral.sameOrLonger {s : List Char} {v : Int} (h : Numeral s v) :
    SameOrLonger s (decimal v) := by
  have hzeros : ∀ {s : List Char}, IsDigits s →
      SameOrLonger s (Nat.toDigits 10 (digitsValue s)) := by
    intro s h
    obtain ⟨k, hk⟩ := exists_zeros h
    have happend := (SameOrLonger.nil (List.replicate k '0')).append
      (.refl (Nat.toDigits 10 (digitsValue s)))
    rwa [← hk, List.nil_append] at happend
  cases h with
  | @nonneg s h =>
    rw [decimal, if_neg (by omega), Int.natAbs_natCast]
    exact hzeros h
  | @neg s h =>
    rcases Nat.eq_zero_or_pos (digitsValue s) with hzero | hpos
    · -- `-0`
      rw [hzero]
      have hpos := List.length_pos_iff.mpr h.1
      exact Or.inr (show 1 < s.length + 1 by omega)
    · rw [decimal, if_pos (by omega), Int.natAbs_neg, Int.natAbs_natCast]
      exact (SameOrLonger.refl ['-']).append (hzeros h)

/-! ### Reading a numeral back -/

/-- The rest of a text starts with no digit. -/
def NoDigit (rest : List Char) : Prop := ∀ c ∈ rest.head?, c.isDigit = false

/-- Where digits end can be told from what follows. -/
theorem digits_append_inj {s s' rest rest' : List Char} (hs : ∀ c ∈ s, c.isDigit = true)
    (hs' : ∀ c ∈ s', c.isDigit = true) (hrest : NoDigit rest) (hrest' : NoDigit rest')
    (h : s ++ rest = s' ++ rest') : s = s' ∧ rest = rest' := by
  have htake : ∀ {s rest : List Char}, (∀ c ∈ s, c.isDigit = true) → NoDigit rest →
      (s ++ rest).takeWhile Char.isDigit = s := by
    intro s rest hs hrest
    rw [List.takeWhile_append_of_pos hs]
    cases rest with
    | nil => rw [List.takeWhile_nil, List.append_nil]
    | cons c rest =>
      rw [List.takeWhile_cons_of_neg (by rw [hrest c rfl]; decide), List.append_nil]
  have heq : s = s' := by rw [← htake hs hrest, h, htake hs' hrest']
  subst heq
  exact ⟨rfl, List.append_cancel_left h⟩

/-- **Unique reading.** A numeral that no digit follows. -/
theorem decimal_append_inj {v w : Int} {rest rest' : List Char} (hrest : NoDigit rest)
    (hrest' : NoDigit rest') (h : decimal v ++ rest = decimal w ++ rest') : v = w ∧ rest = rest' := by
  have hdigits : ∀ n c, c ∈ Nat.toDigits 10 n → c.isDigit = true := fun n => (isDigits_toDigits n).2
  have hread : ∀ {m n : Nat}, Nat.toDigits 10 m ++ rest = Nat.toDigits 10 n ++ rest' →
      m = n ∧ rest = rest' := by
    intro m n h
    obtain ⟨heq, htail⟩ := digits_append_inj (hdigits m) (hdigits n) hrest hrest' h
    have hvalue := congrArg digitsValue heq
    rw [digitsValue_toDigits, digitsValue_toDigits] at hvalue
    exact ⟨hvalue, htail⟩
  -- a number without a sign does not start with one
  have hsign : ∀ {n : Nat} {t t' : List Char}, '-' :: t ≠ Nat.toDigits 10 n ++ t' := by
    intro n t t' h
    obtain ⟨c, s, hs⟩ := List.exists_cons_of_ne_nil (isDigits_toDigits n).1
    have hc := hdigits n c (by rw [hs]; exact List.mem_cons_self)
    rw [hs] at h
    rw [← (List.cons.inj h).1] at hc
    exact absurd hc (by decide)
  unfold decimal at h
  split at h
  next hv =>
    split at h
    next hw =>
      obtain ⟨heq, htail⟩ := hread (List.cons.inj h).2
      exact ⟨by omega, htail⟩
    next => exact absurd h hsign
  next hv =>
    split at h
    next hw => exact absurd h.symm hsign
    next hw =>
      obtain ⟨heq, htail⟩ := hread h
      exact ⟨by omega, htail⟩

end Lib
