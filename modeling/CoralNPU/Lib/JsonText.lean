import CoralNPU.Lib.Json
import Mathlib.Data.Bool.AllAny

namespace Lib

namespace Json

/-!
# Writing JSON texts

* `Plain` — the strings that are written without escapes; `readString_plain` reads them back.
* `Reads` — a text that is read as a value where the value of a member may stand.
* `reads_decimal`, `reads_bool` — numbers and the words for a condition are read back.
-/

/-! ### White space -/

/-- Space in front of a text is skipped. -/
theorem skipSpace_append {space : Bytes} (h : ∀ c ∈ space, isSpace c = true) (text : Bytes) :
    skipSpace (space ++ text) = skipSpace text := List.dropWhile_append_of_pos h

/-- Nothing is skipped before a byte that is no space. -/
theorem skipSpace_cons {c : UInt8} (h : isSpace c = false) (text : Bytes) :
    skipSpace (c :: text) = c :: text := List.dropWhile_cons_of_neg (by rw [h]; decide)

/-- Space in front of a token is skipped. -/
theorem token_append {space : Bytes} (h : ∀ c ∈ space, isSpace c = true) (c : UInt8) (text : Bytes) :
    token c (space ++ text) = token c text := by rw [token, skipSpace_append h, token]

/-- A token that comes at once. -/
theorem token_cons {c : UInt8} (h : isSpace c = false) (rest : Bytes) :
    token c (c :: rest) = some rest := by
  rw [token, skipSpace_cons h]
  exact if_pos rfl

/-- A text that begins otherwise does not begin with the token. -/
theorem token_cons_of_ne {b c : UInt8} (hb : isSpace b = false) (hne : b ≠ c) (rest : Bytes) :
    token c (b :: rest) = none := by
  rw [token, skipSpace_cons hb]
  exact if_neg hne

/-! ### Strings -/

/-- A byte that stands for itself in a string. -/
def PlainByte (c : UInt8) : Prop := 0x20 ≤ c ∧ c ≠ 0x22 ∧ c ≠ 0x5C

/-- A string that is written without escapes. -/
def Plain (s : Bytes) : Prop := IsUtf8 s ∧ ∀ c ∈ s, PlainByte c

/-- It can be decided whether a byte is plain. -/
instance decidablePlainByte (c : UInt8) : Decidable (PlainByte c) :=
  inferInstanceAs (Decidable (_ ∧ _))

/-- It can be decided whether a string is. -/
instance decidablePlain (s : Bytes) : Decidable (Plain s) :=
  decidable_of_iff (IsUtf8 s ∧ s.all fun c => PlainByte c)
    (and_congr_right fun _ => List.all_iff_forall_prop)

/-- Plain characters are read as they are, up to the quote. -/
theorem readChars_plain {s : Bytes} (h : ∀ c ∈ s, PlainByte c) (rest : Bytes) :
    ∀ {fuel : Nat}, s.length < fuel → readChars fuel (s ++ 0x22 :: rest) = some (s, rest) := by
  induction s with
  | nil =>
    intro fuel hfuel
    obtain ⟨fuel, rfl⟩ := Nat.exists_eq_add_one.mpr hfuel
    rw [List.nil_append, readChars, if_pos rfl]
  | cons c s ih =>
    intro fuel hfuel
    obtain ⟨fuel, rfl⟩ := Nat.exists_eq_add_one.mpr (Nat.zero_lt_of_lt hfuel)
    obtain ⟨hlow, hquote, hslash⟩ := h c List.mem_cons_self
    rw [List.cons_append, readChars, if_neg hquote, if_neg hslash, if_neg (UInt8.not_lt.mpr hlow),
      ih (fun c hc => h c (List.mem_cons_of_mem _ hc)) (Nat.lt_of_succ_lt_succ hfuel)]
    rfl

/-- **A plain string is read back.** -/
theorem readString_plain {s : Bytes} (h : Plain s) {fuel : Nat} (hfuel : s.length < fuel)
    (rest : Bytes) : readString fuel (s ++ 0x22 :: rest) = some (s, rest) := by
  rw [readString, readChars_plain h.2 rest hfuel]
  exact if_pos h.1

/-! ### Values -/

/-- A text after a value: it ends, or goes on with white space, a comma or a closing bracket. -/
def Ends (rest : Bytes) : Prop :=
  ∀ c ∈ rest.head?, isSpace c = true ∨ c = 0x2C ∨ c = 0x7D ∨ c = 0x5D

/-- The text is read as the value. -/
def Reads (text : Bytes) (value : Json) : Prop :=
  ∀ (fuel : Nat) (rest : Bytes), text.length < fuel → Ends rest →
    readValue fuel (text ++ rest) = some (value, rest)

/-- No digit follows. -/
theorem Ends.not_digit {rest : Bytes} (h : Ends rest) : rest.takeWhile isDigit = [] := by
  cases rest with
  | nil => rfl
  | cons c rest =>
    rw [List.takeWhile_cons_of_neg]
    rcases h c rfl with hc | rfl | rfl | rfl
    · simp only [isSpace, Bool.or_eq_true, decide_eq_true_eq] at hc
      rcases hc with ((rfl | rfl) | rfl) | rfl <;> decide
    all_goals decide

/-- Neither a point nor an exponent follows. -/
theorem Ends.ne {rest : Bytes} (h : Ends rest) {c : UInt8} (hc : c ∈ rest.head?) :
    c ≠ 0x2E ∧ c ≠ 0x65 ∧ c ≠ 0x45 := by
  rcases h c hc with hc | rfl | rfl | rfl
  · simp only [isSpace, Bool.or_eq_true, decide_eq_true_eq] at hc
    rcases hc with ((rfl | rfl) | rfl) | rfl <;> decide
  all_goals decide

/-- So there is no fraction. -/
theorem Ends.readFraction {rest : Bytes} (h : Ends rest) : readFraction rest = some ([], rest) := by
  cases rest with
  | nil => rfl
  | cons c rest => exact if_neg (h.ne rfl).1

/-- And no exponent. -/
theorem Ends.readExponent {rest : Bytes} (h : Ends rest) : readExponent rest = some (0, rest) := by
  cases rest with
  | nil => rfl
  | cons c rest => exact if_neg (not_or.mpr (h.ne rfl).2)

/-- Space in front of a value is skipped. -/
theorem readValue_append {space : Bytes} (h : ∀ c ∈ space, isSpace c = true) (fuel : Nat)
    (text : Bytes) : readValue fuel (space ++ text) = readValue fuel text := by
  cases fuel with
  | zero => rfl
  | succ fuel => rw [readValue, skipSpace_append h, readValue]

/-! ### Numbers -/

/-- Digits are encoded as one byte each. -/
theorem utf8_digits {s : List Char} (h : ∀ c ∈ s, c.isDigit = true) :
    utf8 s = s.map fun c => UInt8.ofNat c.toNat := by
  induction s with
  | nil => rfl
  | cons c s ih =>
    obtain ⟨d, hd, rfl⟩ := exists_digitChar (h c List.mem_cons_self)
    have hc : String.utf8EncodeChar (Nat.digitChar d) = [UInt8.ofNat (Nat.digitChar d).toNat] := by
      refine if_pos ?_
      show (Nat.digitChar d).toNat ≤ 0x7F
      rw [Nat.toNat_digitChar_of_lt_ten hd]
      omega
    rw [List.map_cons, ← ih fun c hc => h c (List.mem_cons_of_mem _ hc), utf8, List.flatMap_cons, hc]
    rfl

/-- The bytes of digits are digits, and spell the same number. -/
theorem digits_utf8 {s : List Char} (h : ∀ c ∈ s, c.isDigit = true) :
    (∀ c ∈ utf8 s, isDigit c = true) ∧ digitsNat (utf8 s) = digitsValue s := by
  have hbyte : ∀ c ∈ s, ∃ d < 10, c = Nat.digitChar d ∧ (UInt8.ofNat c.toNat).toNat = 48 + d := by
    intro c hc
    obtain ⟨d, hd, rfl⟩ := exists_digitChar (h c hc)
    refine ⟨d, hd, rfl, ?_⟩
    rw [Nat.toNat_digitChar_of_lt_ten hd, UInt8.toNat_ofNat']
    omega
  rw [utf8_digits h]
  constructor
  · intro b hb
    obtain ⟨c, hc, rfl⟩ := List.mem_map.mp hb
    obtain ⟨d, hd, -, hval⟩ := hbyte c hc
    have h30 : (0x30 : UInt8).toNat = 0x30 := rfl
    have h39 : (0x39 : UInt8).toNat = 0x39 := rfl
    simp only [isDigit, Bool.and_eq_true, decide_eq_true_eq, UInt8.le_iff_toNat_le]
    omega
  · rw [digitsNat, List.foldl_map, digitsValue, Nat.ofDigitChars_eq_foldl]
    refine List.foldl_ext _ _ _ fun n c hc => ?_
    obtain ⟨d, hd, rfl, hval⟩ := hbyte c hc
    rw [hval, Nat.toNat_digitChar_of_lt_ten hd]
    rfl

/-- The shortest numeral has no leading zero. -/
theorem toDigits_zero {n : Nat} {s : List Char} (h : Nat.toDigits 10 n = '0' :: s) : s = [] := by
  by_contra hne
  -- without the zero it would be a shorter numeral of the same number
  have hdigits : IsDigits s := ⟨hne, fun c hc => (isDigits_toDigits n).2 c (by
    rw [h]
    exact List.mem_cons_of_mem _ hc)⟩
  have hvalue : digitsValue s = n := by
    rw [← digitsValue_toDigits n, h, digitsValue, digitsValue, Nat.ofDigitChars_cons]
    rfl
  have hshort := (Numeral.nonneg hdigits).sameOrLonger
  rw [hvalue, decimal, if_neg (by omega), Int.natAbs_natCast, h] at hshort
  rcases hshort with hs | hs
  · exact absurd (congrArg List.length hs) (by rw [List.length_cons]; omega)
  · rw [List.length_cons] at hs
    omega

/-- **The digits of a number** are read back as the number. -/
theorem readUnsigned_toDigits (n : Nat) {rest : Bytes} (h : Ends rest) :
    readUnsigned (utf8 (Nat.toDigits 10 n) ++ rest) = some (n, 0, rest) := by
  obtain ⟨hne, hdigits⟩ := isDigits_toDigits n
  obtain ⟨hbytes, hvalue⟩ := digits_utf8 hdigits
  have htake : (utf8 (Nat.toDigits 10 n) ++ rest).takeWhile isDigit = utf8 (Nat.toDigits 10 n) := by
    rw [List.takeWhile_append_of_pos hbytes, h.not_digit, List.append_nil]
  have hdrop : (utf8 (Nat.toDigits 10 n) ++ rest).dropWhile isDigit = rest := by
    refine @List.append_cancel_left _ (utf8 (Nat.toDigits 10 n)) _ _ ?_
    nth_rewrite 1 [← htake]
    exact List.takeWhile_append_dropWhile
  -- the test for a leading zero
  have hzero : ¬ (utf8 (Nat.toDigits 10 n) = [] ∨
      ((utf8 (Nat.toDigits 10 n)).head? = some 0x30 ∧ 1 < (utf8 (Nat.toDigits 10 n)).length)) := by
    obtain ⟨c, s, hs⟩ := List.exists_cons_of_ne_nil hne
    rw [utf8_digits hdigits, hs, List.map_cons]
    rintro (hnil | ⟨hhead, hlen⟩)
    · cases hnil
    · obtain ⟨d, hd, rfl⟩ := exists_digitChar (hdigits c (by rw [hs]; exact List.mem_cons_self))
      have hd0 : d = 0 := by
        have hbyte := congrArg UInt8.toNat (Option.some.inj hhead)
        rw [Nat.toNat_digitChar_of_lt_ten hd, UInt8.toNat_ofNat'] at hbyte
        have h30 : (0x30 : UInt8).toNat = 0x30 := rfl
        omega
      subst hd0
      rw [toDigits_zero hs] at hlen
      exact absurd hlen (by decide)
  unfold readUnsigned
  dsimp only
  rw [htake, hdrop, if_neg hzero, h.readFraction]
  dsimp only [Option.bind_eq_bind, Option.bind_some]
  rw [h.readExponent]
  dsimp only [Option.bind_eq_bind, Option.bind_some]
  rw [List.append_nil, hvalue, digitsValue_toDigits]
  rfl

/-- So is a number with its sign. -/
theorem readNumber_decimal (v : Int) {rest : Bytes} (h : Ends rest) :
    readNumber (utf8 (decimal v) ++ rest) = some (.num v 0, rest) := by
  unfold decimal
  split
  next hv =>
    have hutf8 : utf8 ('-' :: Nat.toDigits 10 v.natAbs) = 0x2D :: utf8 (Nat.toDigits 10 v.natAbs) :=
      rfl
    rw [hutf8, List.cons_append, readNumber, if_pos rfl, readUnsigned_toDigits _ h, Option.map_some]
    exact congrArg (fun m => some (num m 0, rest)) (show -(v.natAbs : Int) = v by omega)
  next hv =>
    obtain ⟨hne, hdigits⟩ := isDigits_toDigits v.natAbs
    obtain ⟨c, s, hs⟩ := List.exists_cons_of_ne_nil hne
    have hread := readUnsigned_toDigits v.natAbs h
    have hbytes := (digits_utf8 hdigits).1
    rw [utf8_digits hdigits, hs, List.map_cons] at hread hbytes ⊢
    have hminus : UInt8.ofNat c.toNat ≠ 0x2D := by
      intro hc
      have := hbytes _ List.mem_cons_self
      rw [hc] at this
      exact absurd this (by decide)
    rw [List.cons_append, readNumber, if_neg hminus, ← List.cons_append, hread, Option.map_some]
    exact congrArg (fun m => some (num m 0, rest)) (show (v.natAbs : Int) = v by omega)

/-- The bytes of a number. -/
theorem bytes_decimal (v : Int) : ∀ c ∈ utf8 (decimal v), c = 0x2D ∨ isDigit c = true := by
  have hdigits := (digits_utf8 (isDigits_toDigits v.natAbs).2).1
  unfold decimal
  split
  next => exact List.forall_mem_cons.mpr ⟨Or.inl rfl, fun c hc => Or.inr (hdigits c hc)⟩
  next => exact fun c hc => Or.inr (hdigits c hc)

/-- The first byte of a number. -/
theorem head_decimal (v : Int) :
    ∃ c text, utf8 (decimal v) = c :: text ∧ (c = 0x2D ∨ isDigit c = true) := by
  have hne : utf8 (decimal v) ≠ [] := by
    unfold decimal
    split
    next => exact List.cons_ne_nil _ _
    next =>
      obtain ⟨hne, hdigits⟩ := isDigits_toDigits v.natAbs
      rw [utf8_digits hdigits]
      exact fun h => hne (List.map_eq_nil_iff.mp h)
  obtain ⟨c, text, htext⟩ := List.exists_cons_of_ne_nil hne
  exact ⟨c, text, htext, bytes_decimal v c (by rw [htext]; exact List.mem_cons_self)⟩

/-- What is neither white space nor the start of a string, an object, an array or a word. -/
theorem readValue_number {c : UInt8} (hc : c = 0x2D ∨ isDigit c = true) (fuel : Nat) (text : Bytes) :
    readValue (fuel + 1) (c :: text) = readNumber (c :: text) := by
  have hbyte : isSpace c = false ∧ c ≠ 0x22 ∧ c ≠ 0x7B ∧ c ≠ 0x5B ∧ c ≠ 0x6E ∧ c ≠ 0x74 ∧
      c ≠ 0x66 := by
    rcases hc with rfl | hc
    · decide
    · have hval : 0x30 ≤ c.toNat ∧ c.toNat ≤ 0x39 := by
        simp only [isDigit, Bool.and_eq_true, decide_eq_true_eq, UInt8.le_iff_toNat_le] at hc
        exact hc
      have hne : ∀ b : UInt8, b.toNat < 0x30 ∨ 0x39 < b.toNat → c ≠ b := by
        rintro b hb rfl
        omega
      refine ⟨?_, hne _ (by decide), hne _ (by decide), hne _ (by decide), hne _ (by decide),
        hne _ (by decide), hne _ (by decide)⟩
      simp only [isSpace, Bool.or_eq_false_iff, decide_eq_false_iff_not]
      exact ⟨⟨⟨hne _ (by decide), hne _ (by decide)⟩, hne _ (by decide)⟩, hne _ (by decide)⟩
  obtain ⟨hspace, hquote, hbrace, hbracket, hn, ht, hf⟩ := hbyte
  -- no word starts with a digit or a sign
  have hword : readWord (c :: text) = none := by
    have hstart : ∀ (b : UInt8) (w : Bytes), c ≠ b → (b :: w).isPrefixOf (c :: text) = false := by
      intro b w hne
      rw [List.isPrefixOf_cons_cons, beq_eq_false_iff_ne.mpr hne.symm, Bool.false_and]
    rw [readWord, List.findSome?_eq_none_iff]
    intro word hmem
    rw [words, List.mem_cons, List.mem_cons, List.mem_singleton] at hmem
    rcases hmem with rfl | rfl | rfl
    · exact if_neg (by rw [show literal "null" = 0x6E :: _ from rfl, hstart _ _ hn]; decide)
    · exact if_neg (by rw [show literal "true" = 0x74 :: _ from rfl, hstart _ _ ht]; decide)
    · exact if_neg (by rw [show literal "false" = 0x66 :: _ from rfl, hstart _ _ hf]; decide)
  rw [readValue, skipSpace_cons hspace]
  dsimp only
  rw [if_neg hquote, if_neg hbrace, if_neg hbracket, hword, Option.none_or]

/-- **A number is read back.** -/
theorem reads_decimal (v : Int) : Reads (utf8 (decimal v)) (.num v 0) := by
  intro fuel rest hfuel hrest
  obtain ⟨fuel, rfl⟩ := Nat.exists_eq_add_one.mpr (Nat.zero_lt_of_lt hfuel)
  obtain ⟨c, text, htext, hc⟩ := head_decimal v
  have hread := readNumber_decimal v hrest
  rw [htext, List.cons_append] at hread ⊢
  rw [readValue_number hc, hread]

/-- The two words for a condition. -/
theorem reads_bool (b : Bool) : Reads (literal (if b then "true" else "false")) (.bool b) := by
  intro fuel rest hfuel hrest
  obtain ⟨fuel, rfl⟩ := Nat.exists_eq_add_one.mpr (Nat.zero_lt_of_lt hfuel)
  cases b with
  | true => rfl
  | false => rfl

end Json

end Lib
