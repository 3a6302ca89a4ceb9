import CoralNPU.Lib.Decimal
import CoralNPU.Tiling.Config
import Mathlib.Data.List.Infix

namespace CoralNPU.Tiling

open Lib

/-!
# Tiling — the vector width among the target features

`getVlenFromTargetFeatures` searches the whole feature string for `+zvl` and the next `b`.

* `ZvlToken`, `LargestVlen` — the features `+zvl<N>b`, and the largest of their widths.
* `tokenVlen`, `tokenVlen_intercalate` — the search finds the first feature with `+zvl` in it, and
  reads nothing else.
* `Names` — the width that is read there.
* `vlenOrderFree_iff` — the largest width is returned in every order exactly if the features with
  `+zvl` in them name one width.
-/

/-- `"+zvl"` -/
def zvl : List Char := ['+', 'z', 'v', 'l']

/-! ### What the features say -/

/-- The feature `+zvl<N>b`. -/
def ZvlToken (token : List Char) (n : Nat) : Prop :=
  ∃ digits, token = zvl ++ digits ++ ['b'] ∧ IsDigits digits ∧ digitsValue digits = n

/-- The largest width of the features, or none if no feature has one. -/
def LargestVlen (tokens : List (List Char)) : Option Int → Prop
  | some vlen => (∃ token ∈ tokens, ∃ n : Nat, ZvlToken token n ∧ vlen = n) ∧
      ∀ token ∈ tokens, ∀ n : Nat, ZvlToken token n → n ≤ vlen
  | none => ∀ token ∈ tokens, ∀ n, ¬ ZvlToken token n

/-- **The order does not matter**: whatever the order of the features, their largest width is
    returned. -/
def VlenOrderFree (features : List Char) : Prop :=
  ∃ vlen, LargestVlen (features.splitOn ',') vlen ∧
    ∀ tokens, tokens.Perm (features.splitOn ',') → ∀ backend,
      getVlenFromTargetFeatures ⟨backend, some ([','].intercalate tokens)⟩ = vlen

/-! ### Numbers -/

/-- A text of digits has their value. -/
theorem parseDigits_eq_some {digits : List Char} {n : Int} :
    parseDigits digits = some n ↔ IsDigits digits ∧ (digitsValue digits : Int) = n := by
  have hfold : ∀ (digits : List Char) (acc : Nat), digits.foldlM (fun (n : Int) c =>
      if c.isDigit then some (10 * n + (c.toNat - '0'.toNat : Nat)) else none) (acc : Int) = some n ↔
        (∀ c ∈ digits, c.isDigit = true) ∧ (Nat.ofDigitChars 10 digits acc : Int) = n := by
    intro digits
    induction digits with
    | nil => intro acc; simp [Nat.ofDigitChars_nil, pure]
    | cons c digits ih =>
      intro acc
      rw [List.foldlM_cons, List.forall_mem_cons, Nat.ofDigitChars_cons]
      by_cases hc : c.isDigit = true
      · rw [if_pos hc, Option.bind_eq_bind, Option.bind_some]
        have hacc : (10 * (acc : Int) + ((c.toNat - '0'.toNat : Nat) : Int))
            = ((10 * acc + (c.toNat - '0'.toNat) : Nat) : Int) := by push_cast; rfl
        rw [hacc, ih]
        simp [hc]
      · rw [if_neg hc, Option.bind_eq_bind, Option.bind_none]
        simp [hc]
  unfold parseDigits IsDigits digitsValue
  split
  next hempty => simp_all
  next hempty =>
    rw [show (0 : Int) = ((0 : Nat) : Int) from rfl, hfold]
    have hne : digits ≠ [] := by
      rintro rfl
      exact hempty rfl
    simp [hne]

/-- `getAsInteger` reads the numerals of `int64_t`. -/
theorem getAsInteger_eq_some {text : List Char} {v : Int} : getAsInteger text = some v ↔
    Numeral text v ∧ -9223372036854775808 ≤ v ∧ v ≤ 9223372036854775807 := by
  have hrange : ∀ x : Option Int, (x.bind fun value =>
      if -9223372036854775808 ≤ value ∧ value ≤ 9223372036854775807 then some value else none)
        = some v ↔ x = some v ∧ -9223372036854775808 ≤ v ∧ v ≤ 9223372036854775807 := by
    intro x
    cases x with
    | none => simp
    | some value =>
      rw [Option.bind_some]
      constructor
      · intro h
        split at h
        next hvalue =>
          obtain rfl := Option.some.inj h
          exact ⟨rfl, hvalue⟩
        next => cases h
      · rintro ⟨h, hv⟩
        obtain rfl := Option.some.inj h
        exact if_pos hv
  unfold getAsInteger
  dsimp only
  split
  next digits =>
    refine (hrange _).trans (and_congr_left fun _ => ?_)
    rw [Option.map_eq_some_iff]
    constructor
    · rintro ⟨n, hn, rfl⟩
      obtain ⟨hdigits, rfl⟩ := parseDigits_eq_some.mp hn
      exact .neg hdigits
    · intro h
      cases h with
      | nonneg h => exact absurd (h.2 '-' List.mem_cons_self) (by decide)
      | neg h => exact ⟨_, parseDigits_eq_some.mpr ⟨h, rfl⟩, rfl⟩
  next hsign =>
    refine (hrange _).trans (and_congr_left fun _ => ?_)
    rw [parseDigits_eq_some]
    constructor
    · rintro ⟨hdigits, rfl⟩
      exact .nonneg hdigits
    · intro h
      cases h with
      | nonneg h => exact ⟨h, rfl⟩
      | neg h => exact absurd rfl (hsign _)

/-! ### Searching a text -/

/-- The text after the first occurrence of the pattern. -/
theorem afterFirst_eq_some {pattern text suffix : List Char} (hne : pattern ≠ []) :
    afterFirst pattern text = some suffix ↔ ∃ before, text = before ++ pattern ++ suffix ∧
      ∀ before' suffix', text = before' ++ pattern ++ suffix' → before.length ≤ before'.length := by
  induction text with
  | nil =>
    rw [afterFirst, if_neg (by simpa using hne)]
    constructor
    · intro h
      cases h
    · rintro ⟨before, htext, -⟩
      simp_all
  | cons c text ih =>
    rw [afterFirst]
    split
    next hprefix =>
      obtain ⟨rest, hrest⟩ := List.isPrefixOf_iff_prefix.mp hprefix
      rw [← hrest, List.drop_left]
      constructor
      · intro h
        obtain rfl := Option.some.inj h
        exact ⟨[], rfl, fun _ _ _ => Nat.zero_le _⟩
      · rintro ⟨before, htext, hfirst⟩
        have hbefore : before = [] := List.length_eq_zero_iff.mp
          (Nat.le_zero.mp (hfirst [] rest rfl))
        rw [hbefore, List.nil_append] at htext
        rw [List.append_cancel_left htext]
    next hprefix =>
      -- an occurrence is one in the rest of the text
      have htail : ∀ {before suffix : List Char}, c :: text = before ++ pattern ++ suffix →
          ∃ before', before = c :: before' ∧ text = before' ++ pattern ++ suffix := by
        intro before suffix h
        cases before with
        | nil =>
          refine absurd (List.isPrefixOf_iff_prefix.mpr ?_) hprefix
          exact ⟨suffix, h.symm⟩
        | cons b before =>
          obtain ⟨rfl, htext⟩ := List.cons.inj h
          exact ⟨before, rfl, htext⟩
      rw [ih]
      constructor
      · rintro ⟨before, rfl, hfirst⟩
        refine ⟨c :: before, rfl, fun before' suffix' h => ?_⟩
        obtain ⟨before'', rfl, htext⟩ := htail h
        exact Nat.succ_le_succ (hfirst _ _ htext)
      · rintro ⟨before, h, hfirst⟩
        obtain ⟨before, rfl, htext⟩ := htail h
        refine ⟨before, htext, fun before' suffix' h' => ?_⟩
        exact Nat.le_of_succ_le_succ (hfirst (c :: before') suffix' (by rw [h']; rfl))

/-- There is no occurrence. -/
theorem afterFirst_eq_none_iff {pattern text : List Char} (hne : pattern ≠ []) :
    afterFirst pattern text = none ↔ ¬ pattern <:+: text := by
  induction text with
  | nil =>
    rw [afterFirst, if_neg (by simpa using hne)]
    simpa using hne
  | cons c text ih =>
    rw [afterFirst, List.infix_cons_iff, not_or]
    split
    next hprefix => simp [List.isPrefixOf_iff_prefix.mp hprefix]
    next hprefix =>
      rw [ih, ← List.isPrefixOf_iff_prefix]
      simp [ hprefix]

/-- A pattern without the separator is found on one side of it. -/
theorem afterFirst_append {pattern : List Char} {sep : Char} (hsep : sep ∉ pattern)
    (hne : pattern ≠ []) (token rest : List Char) :
    afterFirst pattern (token ++ sep :: rest) =
      match afterFirst pattern token with
      | some suffix => some (suffix ++ sep :: rest)
      | none => afterFirst pattern rest := by
  have hprefix : ∀ token : List Char,
      pattern.isPrefixOf (token ++ sep :: rest) = pattern.isPrefixOf token := by
    intro token
    rw [Bool.eq_iff_iff, List.isPrefixOf_iff_prefix, List.isPrefixOf_iff_prefix]
    constructor
    · intro h
      rcases List.prefix_or_prefix_of_prefix h (List.prefix_append token (sep :: rest)) with
        hle | ⟨more, rfl⟩
      · exact hle
      · -- what is left of the pattern starts with the separator
        rw [List.prefix_append_right_inj] at h
        cases more with
        | nil => exact ⟨[], by rw [List.append_nil, List.append_nil]⟩
        | cons c more =>
          obtain ⟨rfl, -⟩ := List.cons_prefix_cons.mp h
          exact absurd (List.mem_append_right _ List.mem_cons_self) hsep
    · exact fun h => h.trans (List.prefix_append _ _)
  induction token with
  | nil =>
    have hempty : pattern.isPrefixOf (sep :: rest) = false := by
      rw [← List.nil_append (sep :: rest), hprefix]
      obtain ⟨c, more, rfl⟩ := List.exists_cons_of_ne_nil hne
      rfl
    have hnil : afterFirst pattern [] = none := by rw [afterFirst, if_neg (by simpa using hne)]
    rw [List.nil_append, hnil, afterFirst, hempty]
    rfl
  | cons c token ih =>
    rw [List.cons_append, afterFirst, afterFirst, ← List.cons_append, hprefix]
    split
    next h =>
      have hlen := (List.isPrefixOf_iff_prefix.mp h).length_le
      rw [List.drop_append_of_le_length hlen]
    next => exact ih

/-! ### Features -/

/-- The number before the next `b`. -/
def numberBefore (suffix : List Char) : Option Int :=
  if 'b' ∈ suffix then getAsInteger (suffix.takeWhile (· ≠ 'b')) else none

/-- The width in one feature: the number between the first `+zvl` and the next `b`. -/
def tokenVlen (token : List Char) : Option Int := (afterFirst zvl token).bind numberBefore

/-- The source searches the whole feature string. -/
theorem getVlen_eq_tokenVlen (backend : String) (features : List Char) :
    getVlenFromTargetFeatures ⟨backend, some features⟩ = tokenVlen features := rfl

/-- The stem has no comma. -/
theorem comma_notMem_zvl : ',' ∉ zvl := by decide

/-- The stem is not empty. -/
theorem zvl_ne_nil : zvl ≠ [] := List.cons_ne_nil _ _

/-- The number ends at the first `b`. -/
theorem numberBefore_append {number : List Char} (h : 'b' ∉ number) (after : List Char) :
    numberBefore (number ++ 'b' :: after) = getAsInteger number := by
  have htake : (number ++ 'b' :: after).takeWhile (· ≠ 'b') = number := by
    rw [List.takeWhile_append_of_pos, List.takeWhile_cons_of_neg (by simp), List.append_nil]
    intro c hc
    exact decide_eq_true fun heq => h (heq ▸ hc)
  rw [numberBefore, if_pos (List.mem_append_right _ List.mem_cons_self), htake]

/-- A number has neither a comma nor a `b` in it. -/
theorem getAsInteger_of_mem {c : Char} (hc : c = ',' ∨ c = 'b') {text : List Char} (h : c ∈ text) :
    getAsInteger text = none := by
  rw [Option.eq_none_iff_forall_ne_some]
  intro v hv
  rcases (getAsInteger_eq_some.mp hv).1.mem h with hdigit | rfl
  · rcases hc with rfl | rfl <;> exact absurd hdigit (by decide)
  · exact absurd hc (by decide)

/-- A number does not reach into the next feature. -/
theorem numberBefore_comma (suffix rest : List Char) :
    numberBefore (suffix ++ ',' :: rest) = numberBefore suffix := by
  by_cases hb : 'b' ∈ suffix
  · obtain ⟨number, after, rfl, hnumber⟩ := List.eq_append_cons_of_mem hb
    rw [List.append_assoc, List.cons_append, numberBefore_append hnumber,
      numberBefore_append hnumber]
  · have hne : ∀ c ∈ suffix, decide (c ≠ 'b') = true := by
      intro c hc
      exact decide_eq_true fun heq => hb (heq ▸ hc)
    rw [numberBefore, numberBefore, if_neg hb]
    split
    next =>
      refine getAsInteger_of_mem (Or.inl rfl) ?_
      rw [List.takeWhile_append_of_pos hne, List.takeWhile_cons_of_pos (by decide)]
      exact List.mem_append_right _ List.mem_cons_self
    next => rfl

/-- The first feature decides if `+zvl` is in it. -/
theorem tokenVlen_append (token rest : List Char) :
    tokenVlen (token ++ ',' :: rest) = if zvl <:+: token then tokenVlen token else tokenVlen rest := by
  unfold tokenVlen
  rw [afterFirst_append comma_notMem_zvl zvl_ne_nil]
  cases htoken : afterFirst zvl token with
  | none => rw [if_neg ((afterFirst_eq_none_iff zvl_ne_nil).mp htoken)]
  | some suffix =>
    have hmem : zvl <:+: token := by
      by_contra hno
      rw [(afterFirst_eq_none_iff zvl_ne_nil).mpr hno] at htoken
      cases htoken
    rw [if_pos hmem]
    exact numberBefore_comma suffix rest

/-- Without the stem there is no width. -/
theorem tokenVlen_eq_none {token : List Char} (h : ¬ zvl <:+: token) : tokenVlen token = none := by
  rw [tokenVlen, (afterFirst_eq_none_iff zvl_ne_nil).mpr h, Option.bind_none]

/-- The first token with the stem decides. -/
theorem tokenVlen_intercalate_cons (token : List Char) (tokens : List (List Char)) :
    tokenVlen ([','].intercalate (token :: tokens)) =
      if zvl <:+: token then tokenVlen token else tokenVlen ([','].intercalate tokens) := by
  cases tokens with
  | nil =>
    rw [List.intercalate_singleton]
    split
    next => rfl
    next hno => exact tokenVlen_eq_none hno
  | cons token' tokens =>
    rw [List.intercalate_cons_cons, List.append_assoc, List.singleton_append, tokenVlen_append]

/-- **The search finds the first feature with `+zvl` in it.** -/
theorem tokenVlen_intercalate (tokens : List (List Char)) :
    (∃ token ∈ tokens, zvl <:+: token ∧ tokenVlen ([','].intercalate tokens) = tokenVlen token) ∨
      ((∀ token ∈ tokens, ¬ zvl <:+: token) ∧ tokenVlen ([','].intercalate tokens) = none) := by
  induction tokens with
  | nil => exact Or.inr ⟨fun _ h => absurd h List.not_mem_nil, rfl⟩
  | cons token tokens ih =>
    rw [tokenVlen_intercalate_cons, List.forall_mem_cons]
    split
    next htoken => exact Or.inl ⟨token, List.mem_cons_self, htoken, rfl⟩
    next htoken =>
      rcases ih with ⟨t, ht, hzvl, heq⟩ | ⟨hno, heq⟩
      · exact Or.inl ⟨t, List.mem_cons_of_mem _ ht, hzvl, heq⟩
      · exact Or.inr ⟨⟨htoken, hno⟩, heq⟩

/-- **All orders**: every feature with `+zvl` in it can be the first one. -/
theorem tokenVlen_perm_iff (tokens : List (List Char)) (vlen : Option Int) :
    (∀ tokens', tokens'.Perm tokens → tokenVlen ([','].intercalate tokens') = vlen) ↔
      (∀ token ∈ tokens, zvl <:+: token → tokenVlen token = vlen) ∧
        ((∀ token ∈ tokens, ¬ zvl <:+: token) → vlen = none) := by
  constructor
  · intro h
    constructor
    · intro token htoken hzvl
      rw [← h _ (List.perm_cons_erase htoken).symm, tokenVlen_intercalate_cons, if_pos hzvl]
    · intro hno
      rw [← h tokens (List.Perm.refl _)]
      rcases tokenVlen_intercalate tokens with ⟨token, htoken, hzvl, -⟩ | ⟨-, heq⟩
      · exact absurd hzvl (hno token htoken)
      · exact heq
  · rintro ⟨hsome, hnone⟩ tokens' hperm
    rcases tokenVlen_intercalate tokens' with ⟨token, htoken, hzvl, heq⟩ | ⟨hno, heq⟩
    · rw [heq, hsome token (hperm.mem_iff.mp htoken) hzvl]
    · rw [heq, hnone fun token htoken => hno token (hperm.mem_iff.mpr htoken)]

/-! ### The widths that are read -/

/-- The feature names a width: an `int64_t` between its first `+zvl` and a `b`. -/
def Names (token : List Char) (vlen : Int) : Prop :=
  ∃ before number after, token = before ++ zvl ++ (number ++ 'b' :: after) ∧
    (∀ before' suffix', token = before' ++ zvl ++ suffix' → before.length ≤ before'.length) ∧
    Numeral number vlen ∧ -9223372036854775808 ≤ vlen ∧ vlen ≤ 9223372036854775807

/-- The number before a `b`, both ways. -/
theorem numberBefore_eq_some {suffix : List Char} {vlen : Int} :
    numberBefore suffix = some vlen ↔
      ∃ number after, suffix = number ++ 'b' :: after ∧ getAsInteger number = some vlen := by
  constructor
  · intro h
    by_cases hb : 'b' ∈ suffix
    · obtain ⟨number, after, rfl, hnumber⟩ := List.eq_append_cons_of_mem hb
      exact ⟨number, after, rfl, (numberBefore_append hnumber after).symm.trans h⟩
    · rw [numberBefore, if_neg hb] at h
      cases h
  · rintro ⟨number, after, rfl, h⟩
    rw [numberBefore_append _ after, h]
    intro hb
    rw [getAsInteger_of_mem (Or.inr rfl) hb] at h
    cases h

/-- The search reads the width that the feature names. -/
theorem tokenVlen_eq_some {token : List Char} {vlen : Int} :
    tokenVlen token = some vlen ↔ Names token vlen := by
  rw [tokenVlen, Option.bind_eq_some_iff]
  constructor
  · rintro ⟨suffix, hsuffix, hnumber⟩
    obtain ⟨before, htoken, hfirst⟩ := (afterFirst_eq_some zvl_ne_nil).mp hsuffix
    obtain ⟨number, after, rfl, hinteger⟩ := numberBefore_eq_some.mp hnumber
    exact ⟨before, number, after, htoken, hfirst, getAsInteger_eq_some.mp hinteger⟩
  · rintro ⟨before, number, after, htoken, hfirst, hnumber⟩
    exact ⟨_, (afterFirst_eq_some zvl_ne_nil).mpr ⟨before, htoken, hfirst⟩,
      numberBefore_eq_some.mpr ⟨number, after, rfl, getAsInteger_eq_some.mpr hnumber⟩⟩

/-- A token that names a width has the stem. -/
theorem Names.infix {token : List Char} {vlen : Int} (h : Names token vlen) : zvl <:+: token := by
  obtain ⟨before, number, after, htoken, -⟩ := h
  exact ⟨before, _, htoken.symm⟩

/-- So has a well-formed one. -/
theorem ZvlToken.infix {token : List Char} {n : Nat} (h : ZvlToken token n) : zvl <:+: token := by
  obtain ⟨digits, htoken, -⟩ := h
  exact ⟨[], digits ++ ['b'], by rw [htoken, List.nil_append, List.append_assoc]⟩

/-- What the feature `+zvl<N>b` names is `N`. -/
theorem ZvlToken.eq_of_names {token : List Char} {n : Nat} {vlen : Int} (hzvl : ZvlToken token n)
    (h : Names token vlen) : vlen = n := by
  obtain ⟨digits, htoken, hdigits, rfl⟩ := hzvl
  have hfirst : afterFirst zvl token = some (digits ++ ['b']) :=
    (afterFirst_eq_some zvl_ne_nil).mpr
      ⟨[], by rw [htoken, List.nil_append, List.append_assoc], fun _ _ _ => Nat.zero_le _⟩
  have hb : 'b' ∉ digits := fun hmem => absurd (hdigits.2 'b' hmem) (by decide)
  have hread := tokenVlen_eq_some.mpr h
  rw [tokenVlen, hfirst, Option.bind_some, numberBefore_append hb] at hread
  -- the number has no sign
  cases (getAsInteger_eq_some.mp hread).1 with
  | nonneg => rfl
  | neg => exact absurd (hdigits.2 '-' List.mem_cons_self) (by decide)

/-! ### When the order does not matter -/

/-- The features with `+zvl` in them name one width, and one of them is the feature `+zvl<N>b` of
    it; or there is no feature `+zvl<N>b`, and none names a width. -/
def OneVlen (tokens : List (List Char)) : Prop :=
  (∃ n : Nat, (∃ token ∈ tokens, ZvlToken token n) ∧
    ∀ token ∈ tokens, zvl <:+: token → Names token n) ∨
  ((∀ token ∈ tokens, ∀ n, ¬ ZvlToken token n) ∧ ∀ token ∈ tokens, ∀ vlen, ¬ Names token vlen)

/-- One width satisfies both demands exactly if all tokens name the same. -/
theorem oneVlen_iff (tokens : List (List Char)) :
    (∃ vlen, LargestVlen tokens vlen ∧ (∀ token ∈ tokens, zvl <:+: token → tokenVlen token = vlen) ∧
      ((∀ token ∈ tokens, ¬ zvl <:+: token) → vlen = none)) ↔ OneVlen tokens := by
  constructor
  · rintro ⟨vlen, hlargest, hread, -⟩
    cases vlen with
    | some vlen =>
      obtain ⟨⟨token, htoken, n, hzvl, rfl⟩, -⟩ := hlargest
      exact Or.inl ⟨n, ⟨token, htoken, hzvl⟩, fun t ht hmem => tokenVlen_eq_some.mp (hread t ht hmem)⟩
    | none =>
      refine Or.inr ⟨hlargest, fun token htoken vlen hnames => ?_⟩
      have hnone := hread token htoken hnames.infix
      rw [tokenVlen_eq_some.mpr hnames] at hnone
      cases hnone
  · rintro (⟨n, ⟨token, htoken, hzvl⟩, hnames⟩ | ⟨hno, hnames⟩)
    · refine ⟨some n, ⟨⟨token, htoken, n, hzvl, rfl⟩, ?_⟩, ?_, ?_⟩
      · intro t ht m hm
        exact Int.le_of_eq (hm.eq_of_names (hnames t ht hm.infix)).symm
      · exact fun t ht hmem => tokenVlen_eq_some.mpr (hnames t ht hmem)
      · exact fun hnone => absurd hzvl.infix (hnone token htoken)
    · refine ⟨none, hno, ?_, fun _ => rfl⟩
      intro token htoken _
      rw [Option.eq_none_iff_forall_ne_some]
      exact fun vlen h => hnames token htoken vlen (tokenVlen_eq_some.mp h)

/-- **The largest width is returned in every order** exactly if there is one width. -/
theorem vlenOrderFree_iff (features : List Char) :
    VlenOrderFree features ↔ OneVlen (features.splitOn ',') := by
  rw [← oneVlen_iff]
  refine exists_congr fun vlen => and_congr_right fun _ => ?_
  rw [← tokenVlen_perm_iff]
  constructor
  · intro h tokens hperm
    rw [← getVlen_eq_tokenVlen "coralnpu"]
    exact h tokens hperm "coralnpu"
  · intro h tokens hperm backend
    rw [getVlen_eq_tokenVlen]
    exact h tokens hperm

/-- A vector register of 256 bits, whose feature comes with that for 128 bits. -/
theorem twoLevels_not_orderFree : ¬ VlenOrderFree "+v,+zvl128b,+zvl256b".toList := by
  rintro ⟨vlen, hlargest, h⟩
  have hsplit : "+v,+zvl128b,+zvl256b".toList.splitOn ','
      = ["+v".toList, "+zvl128b".toList, "+zvl256b".toList] := by decide
  have h256 : ZvlToken "+zvl256b".toList 256 := ⟨"256".toList, by decide, by decide, by decide⟩
  have hread := h _ (List.Perm.refl _) "coralnpu"
  rw [hsplit] at hlargest hread
  have hvlen : vlen = some 128 := hread.symm.trans (by decide)
  rw [hvlen] at hlargest
  exact absurd (hlargest.2 _ (by decide) 256 h256) (by decide)

end CoralNPU.Tiling
