import CoralNPU.Lib.JsonObject

namespace Lib

namespace Json

/-!
# The weight of JSON texts

Every escape in a string has a backslash, and an escape of four digits the letter `u` as well.  The
weight of a text is the number of these two bytes in it.

* `cost` — the weight of a value: of its strings, and of its words.
* `Reading` — what was read weighs at least as much as the value, and more if it has escapes.
* `readings` — all readers read in this sense.
* `plain_of_parse` — a text that weighs no more than the value it is read as has no escapes.
-/

/-- A backslash or the letter `u`. -/
def isHeavy (c : UInt8) : Bool := c = 0x5C || c = 0x75

/-- The number of heavy bytes in a text. -/
def weight (text : Bytes) : Nat := text.countP isHeavy

/-- A heavy byte adds one. -/
theorem weight_cons_of_pos {c : UInt8} (h : isHeavy c = true) (text : Bytes) :
    weight (c :: text) = weight text + 1 := List.countP_cons_of_pos h

/-- Another byte adds nothing. -/
theorem weight_cons_of_neg {c : UInt8} (h : isHeavy c = false) (text : Bytes) :
    weight (c :: text) = weight text := List.countP_cons_of_neg (by rw [h]; decide)

/-- The weight of two texts, one after the other, is the sum of their weights. -/
theorem weight_append (s text : Bytes) : weight (s ++ text) = weight s + weight text :=
  List.countP_append

/-- The weight of a text, by its first byte. -/
theorem weight_cons (c : UInt8) (text : Bytes) : weight (c :: text) = weight [c] + weight text :=
  weight_append [c] text

/-- A text without heavy bytes weighs nothing. -/
theorem weight_eq_zero {text : Bytes} (h : ∀ c ∈ text, isHeavy c = false) : weight text = 0 :=
  List.countP_eq_zero.mpr fun c hc => by rw [h c hc]; decide

/-- What is left of a text weighs no more than the text. -/
theorem weight_le_of_suffix {rest text : Bytes} (h : rest <:+ text) : weight rest ≤ weight text :=
  h.sublist.countP_le

/-! ### The weight of values -/

mutual

/-- The weight of the strings of a value, and of its words. -/
def cost : Json → Nat
  | .null => 1
  | .bool b => if b then 1 else 0
  | .num _ _ => 0
  | .str s => weight s
  | .arr items => costItems items
  | .obj members => costMembers members

/-- The weight of the items of an array. -/
def costItems : List Json → Nat
  | [] => 0
  | item :: items => cost item + costItems items

/-- The weight of the members of an object: of their names and of their values. -/
def costMembers : List (Bytes × Json) → Nat
  | [] => 0
  | (name, value) :: members => weight name + cost value + costMembers members

end

mutual

/-- All strings of a value are written without escapes. -/
def AllPlain : Json → Prop
  | .null | .bool _ | .num _ _ => True
  | .str s => Plain s
  | .arr items => AllPlainItems items
  | .obj members => AllPlainMembers members

/-- All strings in the items of an array are written without escapes. -/
def AllPlainItems : List Json → Prop
  | [] => True
  | item :: items => AllPlain item ∧ AllPlainItems items

/-- All names of the members of an object, and all strings in their values, are written without
    escapes. -/
def AllPlainMembers : List (Bytes × Json) → Prop
  | [] => True
  | (name, value) :: members => (Plain name ∧ AllPlain value) ∧ AllPlainMembers members

end

/-- The weight of an object does not depend on the order of its members. -/
theorem costMembers_perm {members members' : List (Bytes × Json)} (h : members.Perm members') :
    costMembers members = costMembers members' := by
  induction h with
  | nil => rfl
  | cons m _ ih => rw [costMembers, costMembers, ih]
  | swap m m' members =>
    rw [costMembers, costMembers, costMembers, costMembers]
    exact Nat.add_left_comm _ _ _
  | trans _ _ ih₁ ih₂ => exact ih₁.trans ih₂

/-- The names of the members, one by one. -/
theorem AllPlainMembers.names {members : List (Bytes × Json)} (h : AllPlainMembers members) :
    ∀ m ∈ members, Plain m.1 := by
  induction members with
  | nil => exact fun m hm => absurd hm List.not_mem_nil
  | cons m members ih =>
    rw [AllPlainMembers] at h
    exact List.forall_mem_cons.mpr ⟨h.1.1, ih h.2⟩

/-! ### What was read -/

/-- What was read of the text weighs at least `w`, and if it weighs no more, then `P`. -/
structure Reading (text rest : Bytes) (w : Nat) (P : Prop) : Prop where
  le : w + weight rest ≤ weight text
  eq : weight text = w + weight rest → P

namespace Reading

variable {text mid rest : Bytes} {w₁ w₂ : Nat} {P Q : Prop}

/-- Skipping reads nothing. -/
theorem of_suffix (h : rest <:+ text) : Reading text rest 0 True where
  le := by rw [Nat.zero_add]; exact weight_le_of_suffix h
  eq _ := trivial

/-- Two readers, one after the other. -/
theorem trans (h₁ : Reading text mid w₁ P) (h₂ : Reading mid rest w₂ Q) :
    Reading text rest (w₁ + w₂) (P ∧ Q) := by
  obtain ⟨hle₁, heq₁⟩ := h₁
  obtain ⟨hle₂, heq₂⟩ := h₂
  constructor
  · omega
  · intro h
    exact ⟨heq₁ (by omega), heq₂ (by omega)⟩

/-- A reading may conclude less. -/
theorem imp (h : Reading text rest w₁ P) (himp : P → Q) : Reading text rest w₁ Q :=
  ⟨h.le, fun heq => himp (h.eq heq)⟩

/-- Something was skipped before. -/
theorem skip_before (hread : Reading mid rest w₁ P) (h : mid <:+ text) :
    Reading text rest w₁ P := by
  have hboth := (of_suffix h).trans hread
  rw [Nat.zero_add] at hboth
  exact hboth.imp And.right

/-- Something was skipped after. -/
theorem skip_after (hread : Reading text mid w₁ P) (h : rest <:+ mid) : Reading text rest w₁ P :=
  (hread.trans (of_suffix h)).imp And.left

end Reading

/-- Skipping space leaves a part of the text. -/
theorem skipSpace_suffix (text : Bytes) : skipSpace text <:+ text := List.dropWhile_suffix _

/-- What is left after a token is a part of the text. -/
theorem token_suffix {c : UInt8} {text rest : Bytes} (h : token c text = some rest) :
    rest <:+ text := by
  unfold token at h
  split at h
  next => cases h
  next b rest' htext =>
    split at h
    next =>
      obtain rfl := Option.some.inj h
      exact (List.suffix_cons b rest').trans (htext ▸ skipSpace_suffix text)
    next => cases h

/-! ### Strings -/

/-- A byte from 0x80 on is not heavy. -/
theorem isHeavy_ofNat {n m : Nat} (hm : 0x80 ≤ m) (hn : n + m < 256) :
    isHeavy (UInt8.ofNat (n + m)) = false := by
  have hval : (UInt8.ofNat (n + m)).toNat = n + m := by
    rw [UInt8.toNat_ofNat', Nat.mod_eq_of_lt hn]
  have hne : ∀ b : UInt8, b.toNat < 0x80 → UInt8.ofNat (n + m) ≠ b := by
    rintro b hb rfl
    omega
  simp only [isHeavy, Bool.or_eq_false_iff, decide_eq_false_iff_not]
  exact ⟨hne _ (by decide), hne _ (by decide)⟩

/-- The bytes of a character, if there are several. -/
theorem isHeavy_utf8EncodeChar {c : Char} (h : ¬ c.val.toNat ≤ 0x7F) :
    ∀ b ∈ String.utf8EncodeChar c, isHeavy b = false := by
  rw [String.utf8EncodeChar, if_neg h]
  split
  next =>
    simp only [List.forall_mem_cons, List.not_mem_nil, false_imp_iff, implies_true, and_true]
    exact ⟨isHeavy_ofNat (by decide) (by omega), isHeavy_ofNat (by decide) (by omega)⟩
  next =>
    split
    next =>
      simp only [List.forall_mem_cons, List.not_mem_nil, false_imp_iff, implies_true, and_true]
      exact ⟨isHeavy_ofNat (by decide) (by omega), isHeavy_ofNat (by decide) (by omega),
        isHeavy_ofNat (by decide) (by omega)⟩
    next =>
      simp only [List.forall_mem_cons, List.not_mem_nil, false_imp_iff, implies_true, and_true]
      exact ⟨isHeavy_ofNat (by decide) (by omega), isHeavy_ofNat (by decide) (by omega),
        isHeavy_ofNat (by decide) (by omega), isHeavy_ofNat (by decide) (by omega)⟩

/-- A character weighs at most one. -/
theorem weight_utf8_singleton (c : Char) : weight (utf8 [c]) ≤ 1 := by
  rw [utf8, List.flatMap_singleton]
  by_cases hc : c.val.toNat ≤ 0x7F
  · rw [String.utf8EncodeChar, if_pos hc]
    exact List.countP_le_length
  · rw [weight_eq_zero (isHeavy_utf8EncodeChar hc)]
    exact Nat.zero_le 1

/-- What is left after four hexadecimal digits is a part of the text. -/
theorem readHex_suffix {text rest : Bytes} {n : Nat} (h : readHex text = some (n, rest)) :
    rest <:+ text := by
  unfold readHex at h
  split at h
  next =>
    obtain ⟨-, rfl⟩ := Prod.mk.inj (Option.some.inj h)
    exact List.drop_suffix 4 text
  next => cases h

/-- The bytes of an escape of four digits, or of two of them for a surrogate pair, are those of one
    character. -/
theorem readUnicode_suffix {text bytes rest : Bytes} (h : readUnicode text = some (bytes, rest)) :
    rest <:+ text ∧ weight bytes ≤ 1 := by
  unfold readUnicode at h
  obtain ⟨⟨high, rest₁⟩, hhigh, h⟩ := Option.bind_eq_some_iff.mp h
  have hsuffix := readHex_suffix hhigh
  dsimp only at h
  split at h
  next =>
    obtain ⟨rfl, rfl⟩ := Prod.mk.inj (Option.some.inj h)
    exact ⟨hsuffix, weight_utf8_singleton _⟩
  next =>
    split at h
    next => cases h
    next =>
      -- the second half of the pair
      obtain ⟨⟨low, rest₂⟩, hlow, h⟩ := Option.bind_eq_some_iff.mp h
      have hsuffix' := (readHex_suffix hlow).trans (List.drop_suffix 2 rest₁)
      dsimp only at h
      split at h
      next =>
        obtain ⟨rfl, rfl⟩ := Prod.mk.inj (Option.some.inj h)
        exact ⟨hsuffix'.trans hsuffix, weight_utf8_singleton _⟩
      next => cases h

/-- An escape weighs at least as much as what it stands for, even without its backslash. -/
theorem weight_readEscape {text bytes rest : Bytes} (h : readEscape text = some (bytes, rest)) :
    weight bytes + weight rest ≤ weight text := by
  cases text with
  | nil => cases h
  | cons c text =>
    rw [readEscape] at h
    split at h
    next hc =>
      obtain ⟨hsuffix, hbytes⟩ := readUnicode_suffix h
      have hrest := weight_le_of_suffix hsuffix
      rw [weight_cons_of_pos (by rw [hc]; decide)]
      omega
    next =>
      obtain ⟨b, hb, h⟩ := Option.map_eq_some_iff.mp h
      obtain ⟨rfl, rfl⟩ := Prod.mk.inj h
      obtain ⟨l₁, l₂, hl, -⟩ := List.lookup_eq_some_iff.mp hb
      have hmem : (c, b) ∈ escapes := by
        rw [hl]
        exact List.mem_append_right _ List.mem_cons_self
      -- only the backslash stands for a byte that weighs something, for itself
      have hle := List.all_iff_forall_prop.mp
        (show escapes.all (fun e => weight [e.2] ≤ weight [e.1]) from rfl) (c, b) hmem
      rw [weight_cons c]
      exact Nat.add_le_add_right hle _

/-- **Characters.** Each escape loses the weight of its backslash, so if nothing is lost then there
    are none. -/
theorem reading_readChars {fuel : Nat} :
    ∀ {text s rest : Bytes}, readChars fuel text = some (s, rest) →
      Reading text rest (weight s) (∀ c ∈ s, PlainByte c) := by
  induction fuel with
  | zero =>
    intro text s rest h
    cases h
  | succ fuel ih =>
    intro text s rest h
    cases text with
    | nil => cases h
    | cons c text =>
      rw [readChars] at h
      split at h
      next =>
        obtain ⟨rfl, rfl⟩ := Prod.mk.inj (Option.some.inj h)
        exact (Reading.of_suffix (List.suffix_cons c text)).imp fun _ c hc =>
          absurd hc List.not_mem_nil
      next hquote =>
        split at h
        next hslash =>
          obtain ⟨⟨bytes, rest₁⟩, hescape, h⟩ := Option.bind_eq_some_iff.mp h
          obtain ⟨⟨s', rest₂⟩, hs', h⟩ := Option.bind_eq_some_iff.mp h
          obtain ⟨rfl, rfl⟩ := Prod.mk.inj (Option.some.inj h)
          -- the backslash weighs more than nothing
          have hlt : weight bytes + weight rest₁ < weight (c :: text) := by
            rw [weight_cons_of_pos (by rw [hslash]; decide)]
            exact Nat.lt_succ_of_le (weight_readEscape hescape)
          have hread : Reading (c :: text) rest₁ (weight bytes) False :=
            ⟨hlt.le, fun heq => absurd heq hlt.ne'⟩
          rw [weight_append]
          exact (hread.trans (ih hs')).imp fun hfalse => absurd hfalse.1 id
        next hslash =>
          split at h
          next => cases h
          next hlow =>
            obtain ⟨⟨s', rest₂⟩, hs', h⟩ := Option.bind_eq_some_iff.mp h
            obtain ⟨rfl, rfl⟩ := Prod.mk.inj (Option.some.inj h)
            have hread : Reading (c :: text) text (weight [c]) (PlainByte c) :=
              ⟨(weight_cons c text).ge, fun _ => ⟨UInt8.not_lt.mp hlow, hquote, hslash⟩⟩
            rw [weight_cons]
            exact (hread.trans (ih hs')).imp List.forall_mem_cons.mpr

/-- A string: its characters, if they are UTF-8. -/
theorem reading_readString {fuel : Nat} {text s rest : Bytes}
    (h : readString fuel text = some (s, rest)) : Reading text rest (weight s) (Plain s) := by
  obtain ⟨⟨s', rest'⟩, hchars, h⟩ := Option.bind_eq_some_iff.mp h
  dsimp only at h
  split at h
  next hutf8 =>
    obtain ⟨rfl, rfl⟩ := Prod.mk.inj (Option.some.inj h)
    exact (reading_readChars hchars).imp (And.intro hutf8)
  next => cases h

/-! ### Numbers and words -/

/-- What is left after a fraction is a part of the text. -/
theorem readFraction_suffix {text digits rest : Bytes}
    (h : readFraction text = some (digits, rest)) : rest <:+ text := by
  cases text with
  | nil =>
    obtain ⟨-, rfl⟩ := Prod.mk.inj (Option.some.inj h)
    exact List.suffix_refl _
  | cons c text =>
    rw [readFraction] at h
    split at h
    next =>
      split at h
      next => cases h
      next =>
        obtain ⟨-, rfl⟩ := Prod.mk.inj (Option.some.inj h)
        exact (List.dropWhile_suffix _).trans (List.suffix_cons c text)
    next =>
      obtain ⟨-, rfl⟩ := Prod.mk.inj (Option.some.inj h)
      exact List.suffix_refl _

/-- What is left after a sign is a part of the text. -/
theorem readSign_suffix (text : Bytes) : (readSign text).2 <:+ text := by
  cases text with
  | nil => exact List.suffix_refl _
  | cons c text =>
    rw [readSign]
    split
    next => exact List.suffix_cons c text
    next =>
      split
      next => exact List.suffix_cons c text
      next => exact List.suffix_refl _

/-- What is left after an exponent is a part of the text. -/
theorem readExponent_suffix {text rest : Bytes} {exponent : Int}
    (h : readExponent text = some (exponent, rest)) : rest <:+ text := by
  cases text with
  | nil =>
    obtain ⟨-, rfl⟩ := Prod.mk.inj (Option.some.inj h)
    exact List.suffix_refl _
  | cons c text =>
    rw [readExponent] at h
    split at h
    next =>
      dsimp only at h
      split at h
      next => cases h
      next =>
        obtain ⟨-, rfl⟩ := Prod.mk.inj (Option.some.inj h)
        exact ((List.dropWhile_suffix _).trans (readSign_suffix text)).trans
          (List.suffix_cons c text)
    next =>
      obtain ⟨-, rfl⟩ := Prod.mk.inj (Option.some.inj h)
      exact List.suffix_refl _

/-- What is left after a number without sign is a part of the text. -/
theorem readUnsigned_suffix {text rest : Bytes} {mantissa : Nat} {exponent : Int}
    (h : readUnsigned text = some (mantissa, exponent, rest)) : rest <:+ text := by
  unfold readUnsigned at h
  dsimp only at h
  split at h
  next => cases h
  next =>
    obtain ⟨⟨fraction, rest₁⟩, hfraction, h⟩ := Option.bind_eq_some_iff.mp h
    obtain ⟨⟨exponent', rest₂⟩, hexponent, h⟩ := Option.bind_eq_some_iff.mp h
    obtain ⟨-, hrest⟩ := Prod.mk.inj (Option.some.inj h)
    obtain ⟨-, rfl⟩ := Prod.mk.inj hrest
    exact (readExponent_suffix hexponent).trans
      ((readFraction_suffix hfraction).trans (List.dropWhile_suffix _))

/-- A number weighs nothing, as a value. -/
theorem reading_readNumber {text rest : Bytes} {v : Json} (h : readNumber text = some (v, rest)) :
    Reading text rest (cost v) (AllPlain v) := by
  -- a number is any value of this form
  have hread : ∀ {mantissa exponent : Int}, rest <:+ text →
      Reading text rest (cost (.num mantissa exponent)) (AllPlain (.num mantissa exponent)) := by
    intro mantissa exponent hsuffix
    rw [cost, AllPlain]
    exact Reading.of_suffix hsuffix
  cases text with
  | nil => cases h
  | cons c text =>
    rw [readNumber] at h
    split at h
    next =>
      obtain ⟨⟨mantissa, exponent, rest'⟩, hnum, h⟩ := Option.map_eq_some_iff.mp h
      obtain ⟨rfl, rfl⟩ := Prod.mk.inj h
      exact hread ((readUnsigned_suffix hnum).trans (List.suffix_cons c text))
    next =>
      obtain ⟨⟨mantissa, exponent, rest'⟩, hnum, h⟩ := Option.map_eq_some_iff.mp h
      obtain ⟨rfl, rfl⟩ := Prod.mk.inj h
      exact hread (readUnsigned_suffix hnum)

/-- The words weigh as much as their values. -/
theorem weight_words : ∀ word ∈ words, weight word.1 = cost word.2 ∧ AllPlain word.2 := by
  intro word hmem
  rw [words, List.mem_cons, List.mem_cons, List.mem_singleton] at hmem
  rcases hmem with rfl | rfl | rfl
  · exact ⟨rfl, trivial⟩
  · exact ⟨rfl, trivial⟩
  · exact ⟨rfl, trivial⟩

/-- One of the three words. -/
theorem reading_readWord {text rest : Bytes} {v : Json} (h : readWord text = some (v, rest)) :
    Reading text rest (cost v) (AllPlain v) := by
  obtain ⟨word, hmem, h⟩ := List.exists_of_findSome?_eq_some h
  dsimp only at h
  split at h
  next hprefix =>
    obtain ⟨rfl, rfl⟩ := Prod.mk.inj (Option.some.inj h)
    obtain ⟨hweight, hplain⟩ := weight_words word hmem
    obtain ⟨after, rfl⟩ := List.isPrefixOf_iff_prefix.mp hprefix
    rw [List.drop_left]
    refine ⟨?_, fun _ => hplain⟩
    rw [← hweight, ← weight_append]
  next => cases h

/-! ### Values -/

/-- What the readers read with some fuel. -/
structure Readings (fuel : Nat) : Prop where
  value : ∀ {text rest : Bytes} {v : Json}, readValue fuel text = some (v, rest) →
    Reading text rest (cost v) (AllPlain v)
  members : ∀ {text rest : Bytes} {members : List (Bytes × Json)},
    readMembers fuel text = some (members, rest) →
      Reading text rest (costMembers members) (AllPlainMembers members)
  items : ∀ {text rest : Bytes} {items : List Json}, readItems fuel text = some (items, rest) →
    Reading text rest (costItems items) (AllPlainItems items)

section

variable {fuel : Nat} (ih : Readings fuel)

include ih

/-- A value, from the readings with less fuel. -/
theorem reading_value_succ {text rest : Bytes} {v : Json}
    (h : readValue (fuel + 1) text = some (v, rest)) :
    Reading text rest (cost v) (AllPlain v) := by
  rw [readValue] at h
  split at h
  next => cases h
  next c text' htext =>
    -- the white space before the value
    refine Reading.skip_before ?_ (skipSpace_suffix text)
    rw [htext]
    have hsuffix := List.suffix_cons c text'
    split at h
    next =>
      obtain ⟨⟨s, rest'⟩, hs, h⟩ := Option.map_eq_some_iff.mp h
      obtain ⟨rfl, rfl⟩ := Prod.mk.inj h
      exact (reading_readString hs).skip_before hsuffix
    next =>
      split at h
      next =>
        split at h
        next rest' hclose =>
          obtain ⟨rfl, rfl⟩ := Prod.mk.inj (Option.some.inj h)
          exact Reading.of_suffix ((token_suffix hclose).trans hsuffix)
        next =>
          obtain ⟨⟨members, rest'⟩, hmembers, h⟩ := Option.map_eq_some_iff.mp h
          obtain ⟨rfl, rfl⟩ := Prod.mk.inj h
          exact (ih.members hmembers).skip_before hsuffix
      next =>
        split at h
        next =>
          split at h
          next rest' hclose =>
            obtain ⟨rfl, rfl⟩ := Prod.mk.inj (Option.some.inj h)
            exact Reading.of_suffix ((token_suffix hclose).trans hsuffix)
          next =>
            obtain ⟨⟨items, rest'⟩, hitems, h⟩ := Option.map_eq_some_iff.mp h
            obtain ⟨rfl, rfl⟩ := Prod.mk.inj h
            exact (ih.items hitems).skip_before hsuffix
        next =>
          rcases Option.or_eq_some_iff.mp h with hword | ⟨-, hnumber⟩
          · exact reading_readWord hword
          · exact reading_readNumber hnumber

/-- The members of an object, from the readings with less fuel. -/
theorem reading_members_succ {text rest : Bytes} {members : List (Bytes × Json)}
    (h : readMembers (fuel + 1) text = some (members, rest)) :
    Reading text rest (costMembers members) (AllPlainMembers members) := by
  rw [readMembers] at h
  obtain ⟨text₁, hquote, h⟩ := Option.bind_eq_some_iff.mp h
  obtain ⟨⟨name, text₂⟩, hname, h⟩ := Option.bind_eq_some_iff.mp h
  obtain ⟨text₃, hcolon, h⟩ := Option.bind_eq_some_iff.mp h
  obtain ⟨⟨value, text₄⟩, hvalue, h⟩ := Option.bind_eq_some_iff.mp h
  -- the name and the value
  have hmember : Reading text₁ text₄ (weight name + cost value) (Plain name ∧ AllPlain value) :=
    ((reading_readString hname).skip_after (token_suffix hcolon)).trans (ih.value hvalue)
  replace hmember := hmember.skip_before (token_suffix hquote)
  dsimp only at h
  split at h
  next text₅ hcomma =>
    obtain ⟨⟨members', rest'⟩, hmembers, h⟩ := Option.map_eq_some_iff.mp h
    obtain ⟨rfl, rfl⟩ := Prod.mk.inj h
    exact (hmember.skip_after (token_suffix hcomma)).trans (ih.members hmembers)
  next =>
    obtain ⟨rest', hclose, h⟩ := Option.map_eq_some_iff.mp h
    obtain ⟨rfl, rfl⟩ := Prod.mk.inj h
    exact (hmember.skip_after (token_suffix hclose)).imp fun hplain => ⟨hplain, trivial⟩

/-- The items of an array, likewise. -/
theorem reading_items_succ {text rest : Bytes} {items : List Json}
    (h : readItems (fuel + 1) text = some (items, rest)) :
    Reading text rest (costItems items) (AllPlainItems items) := by
  rw [readItems] at h
  obtain ⟨⟨value, text₁⟩, hvalue, h⟩ := Option.bind_eq_some_iff.mp h
  dsimp only at h
  split at h
  next text₂ hcomma =>
    obtain ⟨⟨items', rest'⟩, hitems, h⟩ := Option.map_eq_some_iff.mp h
    obtain ⟨rfl, rfl⟩ := Prod.mk.inj h
    exact ((ih.value hvalue).skip_after (token_suffix hcomma)).trans (ih.items hitems)
  next =>
    obtain ⟨rest', hclose, h⟩ := Option.map_eq_some_iff.mp h
    obtain ⟨rfl, rfl⟩ := Prod.mk.inj h
    exact ((ih.value hvalue).skip_after (token_suffix hclose)).imp fun hplain => ⟨hplain, trivial⟩

end

/-- **What was read weighs at least as much as the value**, and more if it has escapes. -/
theorem readings (fuel : Nat) : Readings fuel := by
  induction fuel with
  | zero =>
    constructor
    · intro text rest v h
      cases h
    · intro text rest members h
      cases h
    · intro text rest items h
      cases h
  | succ fuel ih => exact ⟨reading_value_succ ih, reading_members_succ ih, reading_items_succ ih⟩

/-- **A text that weighs no more than its value** has no escapes. -/
theorem plain_of_parse {text : Bytes} {v : Json} (h : parse text = some v)
    (hweight : weight text ≤ cost v) : AllPlain v := by
  obtain ⟨⟨value, rest⟩, hvalue, h⟩ := Option.bind_eq_some_iff.mp h
  obtain ⟨hle, heq⟩ := (readings _).value hvalue
  dsimp only at h
  split at h
  next =>
    obtain rfl := Option.some.inj h
    exact heq (by omega)
  next => cases h

/-! ### The weight of objects with one member in a line -/

/-- Space weighs nothing. -/
theorem weight_space {space : Bytes} (h : ∀ c ∈ space, isSpace c = true) : weight space = 0 := by
  refine weight_eq_zero fun c hc => ?_
  have hspace := h c hc
  simp only [isSpace, Bool.or_eq_true, decide_eq_true_eq] at hspace
  rcases hspace with ((rfl | rfl) | rfl) | rfl <;> rfl

/-- The text of a member weighs as much as its name and the text of its value. -/
theorem weight_memberText (name value : Bytes) :
    weight (memberText name value) = weight name + weight value := by
  rw [memberText, weight_cons_of_neg rfl, weight_append, weight_cons_of_neg rfl,
    weight_cons_of_neg rfl, weight_cons_of_neg rfl]

/-- The text weighs as much as the value. -/
def Member.Exact (m : Member) : Prop := weight m.text = cost m.value

/-- The members after the first weigh as much as their values, if each one's text does. -/
theorem weight_followers {indent : Bytes} (hindent : ∀ c ∈ indent, isSpace c = true)
    {members : List Member} (h : ∀ m ∈ members, m.Exact) :
    weight (followers indent members) = costMembers (members.map Member.entry) := by
  induction members with
  | nil => rfl
  | cons m members ih =>
    obtain ⟨hm, hmembers⟩ := List.forall_mem_cons.mp h
    rw [followers, List.flatMap_cons, ← followers, weight_append, ih hmembers,
      weight_cons_of_neg rfl, weight_cons_of_neg rfl, weight_append, weight_space hindent,
      weight_memberText, hm, Nat.zero_add]
    rfl

/-- **An object weighs as much as its value** if its members do. -/
theorem weight_objectText {indent outer : Bytes} (hindent : ∀ c ∈ indent, isSpace c = true)
    (houter : ∀ c ∈ outer, isSpace c = true) {members : List Member} (h : ∀ m ∈ members, m.Exact) :
    weight (objectText indent outer members) = costMembers (members.map Member.entry) := by
  have hend : weight (0x0A :: (outer ++ [0x7D])) = 0 := by
    rw [weight_cons_of_neg rfl, weight_append, weight_space houter]
    rfl
  cases members with
  | nil => exact hend
  | cons m members =>
    obtain ⟨hm, hmembers⟩ := List.forall_mem_cons.mp h
    rw [objectText_cons, weight_cons_of_neg rfl, weight_append, weight_cons_of_neg rfl,
      weight_space hindent, weight_append, weight_memberText, hm, weight_append,
      weight_followers hindent hmembers, hend, Nat.zero_add]
    rfl

/-- Decimal numbers weigh nothing. -/
theorem weight_decimal (v : Int) : weight (utf8 (decimal v)) = 0 := by
  refine weight_eq_zero fun c hc => ?_
  rcases bytes_decimal v c hc with rfl | hdigit
  · rfl
  · simp only [isDigit, Bool.and_eq_true, decide_eq_true_eq, UInt8.le_iff_toNat_le] at hdigit
    simp only [isHeavy, Bool.or_eq_false_iff, decide_eq_false_iff_not]
    have hne : ∀ b : UInt8, 0x39 < b.toNat → c ≠ b := by
      rintro b hb rfl
      have h39 : (0x39 : UInt8).toNat = 0x39 := rfl
      omega
    exact ⟨hne _ (by decide), hne _ (by decide)⟩

end Json

end Lib
