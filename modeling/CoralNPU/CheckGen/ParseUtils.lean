import CoralNPU.Lib.Assoc
import CoralNPU.Lib.Decimal
import CoralNPU.Lib.Text
import Mathlib.Data.Bool.AllAny

namespace CoralNPU.CheckGen

open Lib

/-!
# CheckGen — the parser of instances

An instance of a test is written as groups of integers, `(4,8)(8,4)`.

* `parseInstance`, `parseAllInstances` — the parser.  The empty list is its error value.
* `Item`, `Group`, `Spells` — the grammar, with the values that a text stands for.
* `printInstance` — the text of an instance, without blanks.
* `parseInstance_grammar` — the parser accepts exactly the grammar, returns its values, and inverts
  the printer.

A text is a list of characters, one for each byte.
-/

/-! ### The parser -/

/-- The characters that `StringRef::trim` removes. -/
def isBlank (c : Char) : Bool := [' ', '\t', '\n', '\x0b', '\x0c', '\r'].contains c

/-- `StringRef::getAsInteger(10, val)` for an `int64_t`; `none` where it returns true: the text is no
    decimal numeral, or its value does not fit. -/
def getAsInteger (token : List Char) : Option Int64 :=
  match token with
  | '-' :: digits =>
    if IsDigits digits ∧ digitsValue digits ≤ 0x8000000000000000 then
      some (Int64.ofInt (-(digitsValue digits : Int)))
    else none
  | _ =>
    if IsDigits token ∧ digitsValue token < 0x8000000000000000 then some (Int64.ofInt (digitsValue token))
    else none

/-- The group with the text `groupRaw`; `none` for an invalid integer. -/
def parseGroup (groupRaw : List Char) : Option (List Int64) :=
  if groupRaw = [] then some []
  else (groupRaw.splitOn ',').mapM fun token => getAsInteger (trim isBlank token)

/-- The loop of `parseInstance`, with the text from position `i` on. -/
def parseInstanceLoop : List Char → List (List Int64) → List (List Int64)
  | [], res => res
  | c :: rest, res =>
    if c ≠ '(' then []
    else
      match _htail : rest.dropWhile (· ≠ ')') with
      | [] => []
      | _ :: after =>
        match parseGroup (rest.takeWhile (· ≠ ')')) with
        | none => []
        | some group => parseInstanceLoop after (res ++ [group])
termination_by rest => rest.length
decreasing_by
  have hle := (List.dropWhile_sublist (p := (· ≠ ')')) (l := rest)).length_le
  rw [_htail, List.length_cons] at hle
  rw [List.length_cons]
  omega

/-- `parseInstance`. -/
def parseInstance (raw : List Char) : List (List Int64) := parseInstanceLoop raw []

/-- The loop of `parseAllInstances`. -/
def parseAllLoop : List (List Char) → List (List (List Int64)) → List (List (List Int64))
  | [], instances => instances
  | raw :: rest, instances =>
    let inst := parseInstance raw
    if inst.isEmpty then [] else parseAllLoop rest (instances ++ [inst])

/-- `parseAllInstances`. -/
def parseAllInstances (rawInstances : List (List Char)) : List (List (List Int64)) :=
  parseAllLoop rawInstances []

/-! ### The grammar -/

/-- A decimal numeral of an `int64_t`, with blanks around it. -/
def Item (s : List Char) (v : Int64) : Prop :=
  ∃ before numeral after, s = before ++ numeral ++ after ∧ (∀ c ∈ before, isBlank c = true) ∧
    (∀ c ∈ after, isBlank c = true) ∧ Numeral numeral v.toInt

/-- Items with commas between them; the empty text has no items. -/
def Group (s : List Char) (vs : List Int64) : Prop :=
  ∃ items, s = [','].intercalate items ∧ List.Forall₂ Item items vs

/-- A group in parentheses. -/
def parenthesize (s : List Char) : List Char := '(' :: (s ++ [')'])

/-- The text is one parenthesised group after the other, at least one. -/
def Spells (raw : List Char) (groups : List (List Int64)) : Prop :=
  groups ≠ [] ∧ ∃ texts, raw = texts.flatMap parenthesize ∧ List.Forall₂ Group texts groups

/-- The text of an instance. -/
def printInstance (groups : List (List Int64)) : List Char :=
  (groups.map fun group => [','].intercalate (group.map fun v => decimal v.toInt)).flatMap
    parenthesize

/-! ### Numbers -/

/-- `getAsInteger` reads the numerals of `int64_t`. -/
theorem getAsInteger_eq_some {token : List Char} {v : Int64} :
    getAsInteger token = some v ↔ Numeral token v.toInt := by
  constructor
  · intro h
    unfold getAsInteger at h
    split at h
    next digits =>
      split at h
      next hok =>
        obtain rfl := Option.some.inj h
        rw [Int64.toInt_ofInt_of_le (by omega) (by omega)]
        exact .neg hok.1
      next => cases h
    next =>
      split at h
      next hok =>
        obtain rfl := Option.some.inj h
        rw [Int64.toInt_ofInt_of_le (by omega) (by omega)]
        exact .nonneg hok.1
      next => cases h
  · intro h
    have hlo := v.le_toInt
    have hhi := v.toInt_lt
    have hv : Int64.ofInt v.toInt = v := Int64.ofInt_toInt v
    generalize v.toInt = n at *
    cases h with
    | nonneg hdigits =>
      unfold getAsInteger
      split
      next digits =>
        -- a sign is no digit
        exact absurd (hdigits.2 '-' List.mem_cons_self) (by decide)
      next => rw [if_pos ⟨hdigits, by omega⟩, hv]
    | neg hdigits =>
      show (if _ then _ else _) = _
      rw [if_pos ⟨hdigits, by omega⟩, hv]

theorem not_isBlank_of_isDigit {c : Char} (h : c.isDigit = true) : isBlank c = false := by
  obtain ⟨d, hd, rfl⟩ := exists_digitChar h
  revert d
  decide

/-- The token of an item, without its blanks, is read to its value. -/
theorem item_iff {token : List Char} {v : Int64} :
    Item token v ↔ getAsInteger (trim isBlank token) = some v := by
  rw [getAsInteger_eq_some]
  constructor
  · rintro ⟨before, numeral, after, rfl, hbefore, hafter, hnumeral⟩
    rw [trim_append hbefore (fun c hc => ?_) hafter]
    · exact hnumeral
    · rcases hnumeral.mem hc with hdigit | rfl
      · rw [not_isBlank_of_isDigit hdigit]
        decide
      · decide
  · intro h
    obtain ⟨before, after, heq, hbefore, hafter⟩ := exists_eq_trim isBlank token
    exact ⟨before, _, after, heq, hbefore, hafter, h⟩

/-- The characters that instances are made with besides items, and a bracket. -/
theorem structural_chars : ∀ c ∈ [',', '(', ')', '['],
    isBlank c = false ∧ c.isDigit = false ∧ c ≠ '-' := List.all_iff_forall_prop.mp rfl

/-- No item holds one of them. -/
theorem Item.mem {s : List Char} {v : Int64} (h : Item s v) {c : Char} (hc : c ∈ s) :
    c ∉ [',', '(', ')', '['] := by
  obtain ⟨before, numeral, after, rfl, hbefore, hafter, hnumeral⟩ := h
  intro hmem
  obtain ⟨hblank, hdigit, hsign⟩ := structural_chars c hmem
  rcases List.mem_append.mp hc with hc | hc
  · rcases List.mem_append.mp hc with hc | hc
    · exact absurd (hbefore c hc) (by rw [hblank]; decide)
    · rcases hnumeral.mem hc with hc | hc
      · exact absurd hc (by rw [hdigit]; decide)
      · exact hsign hc
  · exact absurd (hafter c hc) (by rw [hblank]; decide)

theorem Item.ne_nil {s : List Char} {v : Int64} (h : Item s v) : s ≠ [] := by
  obtain ⟨before, numeral, after, rfl, -, -, hnumeral⟩ := h
  have := hnumeral.ne_nil
  simp [this]

/-! ### Groups -/

/-- `parseGroup` reads the groups of the grammar. -/
theorem parseGroup_eq_some {s : List Char} {vs : List Int64} :
    parseGroup s = some vs ↔ Group s vs := by
  have hitems : ∀ {items : List (List Char)} {vs : List Int64}, List.Forall₂ Item items vs ↔
      items.mapM (fun token => getAsInteger (trim isBlank token)) = some vs := by
    intro items vs
    rw [mapM_eq_some_iff]
    exact ⟨fun h => h.imp fun _ _ => item_iff.mp, fun h => h.imp fun _ _ => item_iff.mpr⟩
  unfold parseGroup
  split
  next hnil =>
    subst hnil
    constructor
    · intro h
      obtain rfl := Option.some.inj h
      exact ⟨[], rfl, List.Forall₂.nil⟩
    · rintro ⟨items, hjoin, hvs⟩
      -- items are not empty, so there are none
      cases hvs with
      | nil => rfl
      | @cons item v items vs hitem hvs =>
        have hnil := congrArg List.length hjoin
        have hpos := List.length_pos_iff.mpr hitem.ne_nil
        cases items with
        | nil =>
          rw [List.intercalate_singleton, List.length_nil] at hnil
          omega
        | cons item' items =>
          rw [List.intercalate_cons_cons, List.length_append, List.length_append,
            List.length_nil] at hnil
          omega
  next hne =>
    rw [← hitems]
    constructor
    · exact fun h => ⟨_, (List.intercalate_splitOn ',').symm, h⟩
    · rintro ⟨items, rfl, hvs⟩
      rw [List.splitOn_intercalate]
      · exact hvs
      · intro item hitem hcomma
        obtain ⟨v, -, hv⟩ := exists_mem_of_forall₂ hvs hitem
        exact hv.mem hcomma (by decide)
      · rintro rfl
        exact hne rfl

/-- No group holds a parenthesis or a bracket. -/
theorem Group.mem {s : List Char} {vs : List Int64} (h : Group s vs) {c : Char} (hc : c ∈ s) :
    c ∉ ['(', ')', '['] := by
  obtain ⟨items, rfl, hvs⟩ := h
  rcases mem_intercalate hc with hc | ⟨item, hitem, hc⟩
  · obtain rfl := List.mem_singleton.mp hc
    decide
  · obtain ⟨v, -, hv⟩ := exists_mem_of_forall₂ hvs hitem
    exact fun hmem => hv.mem hc (List.mem_cons_of_mem _ hmem)

/-! ### Instances -/

/-- The loop on a text that starts with a group. -/
theorem parseInstanceLoop_parenthesize {s after : List Char} {group : List Int64}
    (h : Group s group) (res : List (List Int64)) :
    parseInstanceLoop (parenthesize s ++ after) res = parseInstanceLoop after (res ++ [group]) := by
  have hclosed : ∀ c ∈ s, (decide (c ≠ ')')) = true := by
    rintro c hc
    refine decide_eq_true ?_
    rintro rfl
    exact h.mem hc (by decide)
  -- the loop cuts at the parenthesis that closes the group
  have hdrop : (s ++ ')' :: after).dropWhile (· ≠ ')') = ')' :: after := by
    rw [List.dropWhile_append_of_pos hclosed]
    rfl
  have htake : (s ++ ')' :: after).takeWhile (· ≠ ')') = s := by
    rw [List.takeWhile_append_of_pos hclosed, List.takeWhile_cons_of_neg (by decide),
      List.append_nil]
  have hrest : parenthesize s ++ after = '(' :: (s ++ ')' :: after) := by
    rw [parenthesize, List.cons_append, List.append_assoc]
    rfl
  rw [hrest, parseInstanceLoop, if_neg (not_not.mpr rfl)]
  split
  next hnil => rw [hdrop] at hnil; cases hnil
  next c tail htail =>
    rw [hdrop] at htail
    obtain ⟨-, rfl⟩ := List.cons.inj htail
    rw [htake, parseGroup_eq_some.mpr h]

/-- **Acceptance.** The loop goes through the groups of a text. -/
theorem parseInstanceLoop_of_groups {texts : List (List Char)} {groups : List (List Int64)}
    (h : List.Forall₂ Group texts groups) :
    ∀ res, parseInstanceLoop (texts.flatMap parenthesize) res = res ++ groups := by
  induction h with
  | nil =>
    intro res
    rw [List.flatMap_nil, parseInstanceLoop, List.append_nil]
  | @cons s group texts groups hgroup _ ih =>
    intro res
    rw [List.flatMap_cons, parseInstanceLoop_parenthesize hgroup, ih, List.append_assoc,
      List.singleton_append]

/-- **Rejection.** The loop returns the empty list, or has read groups to the end. -/
theorem parseInstanceLoop_cases (raw : List Char) (res : List (List Int64)) :
    parseInstanceLoop raw res = [] ∨ ∃ texts groups, raw = texts.flatMap parenthesize ∧
      List.Forall₂ Group texts groups ∧ parseInstanceLoop raw res = res ++ groups := by
  induction raw, res using parseInstanceLoop.induct with
  | case1 res => exact Or.inr ⟨[], [], rfl, List.Forall₂.nil, by rw [parseInstanceLoop, List.append_nil]⟩
  | case2 c rest res hopen =>
    left
    rw [parseInstanceLoop, if_pos hopen]
  | case3 c rest res hopen hnone =>
    left
    rw [parseInstanceLoop, if_neg hopen]
    split
    next => rfl
    next htail => rw [hnone] at htail; cases htail
  | case4 c rest res hopen close after htail hbad =>
    left
    rw [parseInstanceLoop, if_neg hopen]
    split
    next => rfl
    next => rw [hbad]
  | case5 c rest res hopen close after htail group hgroup ih =>
    obtain rfl := not_not.mp hopen
    -- the text is one group, and what the loop goes on with
    obtain rfl : close = ')' := by
      have hhead := List.head?_dropWhile_not (· ≠ ')') rest
      rw [htail] at hhead
      simpa using hhead
    have hraw : '(' :: rest = parenthesize (rest.takeWhile (· ≠ ')')) ++ after := by
      rw [parenthesize, List.cons_append, List.append_assoc, List.singleton_append, ← htail,
        List.takeWhile_append_dropWhile]
    rw [hraw, parseInstanceLoop_parenthesize (parseGroup_eq_some.mp hgroup)]
    rcases ih with hnil | ⟨texts, groups, hafter, hgroups, hloop⟩
    · exact Or.inl hnil
    · refine Or.inr ⟨_ :: texts, group :: groups, ?_,
        List.Forall₂.cons (parseGroup_eq_some.mp hgroup) hgroups, ?_⟩
      · rw [List.flatMap_cons, hafter]
      · rw [hloop, List.append_assoc, List.singleton_append]

/-- **The parser returns groups** exactly for the texts that spell them. -/
theorem parseInstance_eq_iff {raw : List Char} {groups : List (List Int64)} :
    (parseInstance raw = groups ∧ groups ≠ []) ↔ Spells raw groups := by
  constructor
  · rintro ⟨rfl, hne⟩
    rcases parseInstanceLoop_cases raw [] with hnil | ⟨texts, groups, hraw, hgroups, hloop⟩
    · exact absurd hnil hne
    · refine ⟨hne, texts, hraw, ?_⟩
      rw [parseInstance, hloop, List.nil_append]
      exact hgroups
  · rintro ⟨hne, texts, rfl, hgroups⟩
    exact ⟨parseInstanceLoop_of_groups hgroups [], hne⟩

/-- The printer writes the grammar. -/
theorem spells_printInstance {groups : List (List Int64)} (h : groups ≠ []) :
    Spells (printInstance groups) groups := by
  refine ⟨h, _, rfl, ?_⟩
  rw [List.forall₂_map_left_iff, List.forall₂_same]
  intro group _
  refine ⟨_, rfl, ?_⟩
  rw [List.forall₂_map_left_iff, List.forall₂_same]
  intro v _
  exact ⟨[], _, [], by rw [List.nil_append, List.append_nil], by simp, by simp, numeral_decimal _⟩

/-- The items of a text. -/
theorem Spells.exists_items {raw : List Char} {groups : List (List Int64)} (h : Spells raw groups) :
    ∃ items : List (List (List Char)), raw = (items.map [','].intercalate).flatMap parenthesize ∧
      List.Forall₂ (List.Forall₂ Item) items groups := by
  obtain ⟨-, texts, rfl, hgroups⟩ := h
  induction hgroups with
  | nil => exact ⟨[], rfl, List.Forall₂.nil⟩
  | cons hgroup _ ih =>
    obtain ⟨group, rfl, hvs⟩ := hgroup
    obtain ⟨items, htexts, hitems⟩ := ih
    exact ⟨group :: items, by rw [List.flatMap_cons, List.map_cons, List.flatMap_cons, htexts],
      List.Forall₂.cons hvs hitems⟩

/-! ### All instances -/

theorem parseAllLoop_of_spells {raws : List (List Char)} {insts : List (List (List Int64))}
    (h : List.Forall₂ Spells raws insts) :
    ∀ instances, parseAllLoop raws instances = instances ++ insts := by
  induction h with
  | nil => exact fun instances => (List.append_nil _).symm
  | @cons raw inst raws insts hraw _ ih =>
    intro instances
    obtain ⟨hparse, hne⟩ := parseInstance_eq_iff.mpr hraw
    rw [parseAllLoop, hparse, if_neg (by rw [List.isEmpty_iff]; exact hne), ih, List.append_assoc,
      List.singleton_append]

theorem parseAllLoop_of_rejected {raws : List (List Char)}
    (h : ∃ raw ∈ raws, parseInstance raw = []) :
    ∀ instances, parseAllLoop raws instances = [] := by
  induction raws with
  | nil =>
    obtain ⟨raw, hmem, -⟩ := h
    cases hmem
  | cons raw raws ih =>
    intro instances
    rw [parseAllLoop]
    split
    next => rfl
    next hne =>
      obtain ⟨raw', hmem, hnone⟩ := h
      rcases List.mem_cons.mp hmem with rfl | hmem
      · exact absurd (List.isEmpty_iff.mpr hnone) hne
      · exact ih ⟨raw', hmem, hnone⟩ _

/-- **The parser of instances** accepts exactly the texts of the grammar and returns the values that
    they spell; every other text gives the empty list, and makes `parseAllInstances` reject its
    whole input; and parsing what has been printed gives it back. -/
theorem parseInstance_grammar :
    (∀ raw groups, (parseInstance raw = groups ∧ groups ≠ []) ↔ Spells raw groups) ∧
    (∀ raw, (¬ ∃ groups, Spells raw groups) → parseInstance raw = []) ∧
    (∀ raws, (∃ raw ∈ raws, ¬ ∃ groups, Spells raw groups) → parseAllInstances raws = []) ∧
    (∀ raws insts, List.Forall₂ Spells raws insts → parseAllInstances raws = insts) ∧
    (∀ groups, groups ≠ [] → parseInstance (printInstance groups) = groups) := by
  have hreject : ∀ raw, (¬ ∃ groups, Spells raw groups) → parseInstance raw = [] := by
    intro raw h
    by_contra hne
    exact h ⟨_, parseInstance_eq_iff.mp ⟨rfl, hne⟩⟩
  refine ⟨fun raw groups => parseInstance_eq_iff, hreject, ?_, ?_, ?_⟩
  · rintro raws ⟨raw, hmem, h⟩
    exact parseAllLoop_of_rejected ⟨raw, hmem, hreject raw h⟩ []
  · intro raws insts h
    exact parseAllLoop_of_spells h []
  · intro groups h
    exact (parseInstance_eq_iff.mpr (spells_printInstance h)).1

end CoralNPU.CheckGen
