import CoralNPU.CheckGen.CheckTestGenerator

namespace CoralNPU.CheckGen

open Lib

/-!
# CheckGen — the suffixes of the build rules

The build rules compute the suffix of a file from the text of the instance, without parsing it.

* `Bazel.parseInstanceToSuffix` — by splitting and stripping.
* `CMake.parseInstanceToSuffix` — by replacing parentheses and commas.
* `joined`, `rendered` — the suffix and the text of an instance with given spellings of the items;
  `bazel_eq` and `cmake_eq` are the two functions on accepted texts.
* `suffixes_agree_iff` — when they agree with the suffix of the generator.
-/

/-! ### The two functions -/

namespace Bazel

/-- The characters that `strip` removes in Starlark. -/
def isSpace (c : Char) : Bool :=
  ['\t', '\n', '\x0b', '\x0c', '\r', '\x1c', '\x1d', '\x1e', '\x1f', ' ', '\x85', '\xa0'].contains c

/-- `g = g[1:]` if `g.startswith("(")` -/
def stripOpen (g : List Char) : List Char := if g.head? = some '(' then g.tail else g

/-- `g = g[:-1]` if `g.endswith(")")` -/
def stripClose (g : List Char) : List Char := if g.getLast? = some ')' then g.dropLast else g

/-- `[d.strip() for d in g.split(",") if d.strip()]` -/
def dims (g : List Char) : List (List Char) :=
  ((g.splitOn ',').map (trim isSpace)).filter (· ≠ [])

/-- `parse_instance_to_suffix` in `def.bzl`. -/
def parseInstanceToSuffix (instStr : List Char) : List Char :=
  ['-'].intercalate ((splitText ')' ['('] instStr).map fun g =>
    ['_'].intercalate (dims (stripClose (stripOpen g))))

end Bazel

namespace CMake

/-- `INST_CLI`: the text before the first `, [`, which starts the tags. -/
def instCli (instanceStr : List Char) : List Char :=
  (splitText ',' [' ', '['] instanceStr).headD []

/-- `parse_instance_to_suffix` in `def.cmake`. -/
def parseInstanceToSuffix (instanceStr : List Char) : List Char :=
  let temp := replaceText ')' ['('] ['-'] (instCli instanceStr)
  let temp := replaceText '(' [] [] temp
  let temp := replaceText ')' [] [] temp
  replaceText ',' [] ['_'] temp

end CMake

/-! ### Instances with given spellings -/

/-- The suffix with the given spellings of the items. -/
def joined (items : List (List (List Char))) : List Char :=
  ['-'].intercalate (items.map ['_'].intercalate)

/-- The text with the given spellings of the items. -/
def rendered (items : List (List (List Char))) : List Char :=
  (items.map [','].intercalate).flatMap parenthesize

/-- The spellings of the generator. -/
def decimals (groups : List (List Int64)) : List (List (List Char)) :=
  groups.map fun group => group.map toString

/-- The generator prints the groups as decimals. -/
theorem printInstance_eq (groups : List (List Int64)) :
    printInstance groups = rendered (decimals groups) := by
  rw [printInstance, rendered, decimals, List.map_map]
  rfl

/-- The suffix of a test without its first underscore. -/
theorem tail_instSuffix {groups : List (List Int64)} (h : groups ≠ []) :
    (instSuffix groups).tail = joined (decimals groups) := by
  rw [instSuffix_eq h, List.tail_cons, joined, decimals, List.map_map]
  rfl

/-- The items of the groups. -/
abbrev Items : List (List (List Char)) → List (List Int64) → Prop := List.Forall₂ (List.Forall₂ Item)

/-- Decimals are items of their groups. -/
theorem items_decimals (groups : List (List Int64)) : Items (decimals groups) groups := by
  rw [Items, decimals, List.forall₂_map_left_iff, List.forall₂_same]
  intro group _
  rw [List.forall₂_map_left_iff, List.forall₂_same]
  intro v _
  exact ⟨[], _, [], by rw [List.nil_append, List.append_nil]; rfl, by simp, by simp,
    numeral_decimal _⟩

/-- No group holds a parenthesis or a bracket. -/
theorem Items.mem {items : List (List (List Char))} {groups : List (List Int64)}
    (h : Items items groups) : ∀ text ∈ items.map [','].intercalate, ∀ c ∈ text, c ∉ ['(', ')', '['] := by
  intro text htext c hc
  obtain ⟨group, hgroup, rfl⟩ := List.mem_map.mp htext
  obtain ⟨vs, -, hvs⟩ := exists_mem_of_forall₂ h hgroup
  exact Group.mem ⟨group, rfl, hvs⟩ hc

/-! ### Splitting between the groups -/

/-- What lies between the occurrences of `)(`, from a group on. -/
def pieces : List Char → List (List Char) → List (List Char)
  | text, [] => [text ++ [')']]
  | text, next :: texts => text :: pieces next texts

/-- Splitting at the closing parentheses gives the groups, each with its opening one. -/
theorem splitText_groups {texts : List (List Char)} :
    ∀ {text : List Char}, (∀ t ∈ text :: texts, ')' ∉ t) →
      splitText ')' ['('] (text ++ ')' :: texts.flatMap parenthesize) = pieces text texts := by
  induction texts with
  | nil =>
    intro text h
    rw [splitText_append (h text List.mem_cons_self), List.flatMap_nil, pieces]
    simp [splitText]
  | cons next texts ih =>
    intro text h
    have hsep : ')' :: (next :: texts).flatMap parenthesize
        = ')' :: (['('] ++ (next ++ ')' :: texts.flatMap parenthesize)) := by
      rw [List.flatMap_cons, parenthesize, List.cons_append, List.append_assoc]
      rfl
    rw [splitText_append (h text List.mem_cons_self), hsep, splitText_sep,
      ih fun t ht => h t (List.mem_cons_of_mem _ ht), pieces, List.modifyHead_cons, List.append_nil]

/-- The parts of a text with at least one group. -/
theorem splitText_rendered {text : List Char} {texts : List (List Char)}
    (h : ∀ t ∈ text :: texts, ')' ∉ t) :
    splitText ')' ['('] ((text :: texts).flatMap parenthesize)
      = (pieces text texts).modifyHead (['('] ++ ·) := by
  have hraw : (text :: texts).flatMap parenthesize
      = ['('] ++ (text ++ ')' :: texts.flatMap parenthesize) := by
    rw [List.flatMap_cons, parenthesize, List.cons_append, List.append_assoc]
    rfl
  rw [hraw, splitText_append (by decide), splitText_groups h]

/-! ### Bazel -/

namespace Bazel

/-- Nothing is stripped without an opening parenthesis. -/
theorem stripOpen_of_not_mem {text : List Char} (h : '(' ∉ text) : stripOpen text = text := by
  rw [stripOpen, if_neg fun hhead => h (List.mem_of_head? hhead)]

/-- The opening parenthesis is stripped. -/
theorem stripOpen_cons (text : List Char) : stripOpen (['('] ++ text) = text := by
  show (if some '(' = some '(' then text else _) = text
  rw [if_pos rfl]

/-- Nothing is stripped without a closing parenthesis. -/
theorem stripClose_of_not_mem {text : List Char} (h : ')' ∉ text) : stripClose text = text := by
  rw [stripClose, if_neg fun hlast => h (List.mem_of_getLast? hlast)]

/-- The closing parenthesis is stripped. -/
theorem stripClose_concat (text : List Char) : stripClose (text ++ [')']) = text := by
  rw [stripClose, if_pos List.getLast?_concat, List.dropLast_concat]

/-- **The groups** that are left of the parts. -/
theorem strip_splitText (texts : List (List Char)) (hne : texts ≠ [])
    (h : ∀ t ∈ texts, ∀ c ∈ t, c ∉ ['(', ')', '[']) :
    (splitText ')' ['('] (texts.flatMap parenthesize)).map (fun g => stripClose (stripOpen g))
      = texts := by
  have hopen : ∀ t ∈ texts, '(' ∉ t := fun t ht hmem => h t ht '(' hmem (by decide)
  have hclose : ∀ t ∈ texts, ')' ∉ t := fun t ht hmem => h t ht ')' hmem (by decide)
  -- the first piece still has its opening parenthesis, and the last one its closing one
  have hpieces : ∀ {texts : List (List Char)} {text : List Char},
      (∀ t ∈ text :: texts, '(' ∉ t) → (∀ t ∈ text :: texts, ')' ∉ t) →
      (pieces text texts).map (fun g => stripClose (stripOpen g)) = text :: texts ∧
      ((pieces text texts).modifyHead (['('] ++ ·)).map (fun g => stripClose (stripOpen g))
        = text :: texts := by
    intro texts
    induction texts with
    | nil =>
      intro text hopen hclose
      have hno : '(' ∉ text ++ [')'] := by
        rw [List.mem_append, not_or]
        exact ⟨hopen text List.mem_cons_self, by decide⟩
      constructor
      · rw [pieces, List.map_singleton, stripOpen_of_not_mem hno, stripClose_concat]
      · rw [pieces, List.modifyHead_cons, List.map_singleton, stripOpen_cons, stripClose_concat]
    | cons next texts ih =>
      intro text hopen hclose
      have hrest := (ih (fun t ht => hopen t (List.mem_cons_of_mem _ ht))
        fun t ht => hclose t (List.mem_cons_of_mem _ ht)).1
      have hlast := stripClose_of_not_mem (hclose text List.mem_cons_self)
      constructor
      · rw [pieces, List.map_cons, hrest, stripOpen_of_not_mem (hopen text List.mem_cons_self), hlast]
      · rw [pieces, List.modifyHead_cons, List.map_cons, hrest, stripOpen_cons, hlast]
  cases texts with
  | nil => exact absurd rfl hne
  | cons text texts =>
    rw [splitText_rendered hclose]
    exact (hpieces hopen hclose).2

end Bazel

/-- The text without its blanks. -/
def withoutBlanks (text : List Char) : List Char := text.filter fun c => !isBlank c

/-- **Stripping** an item leaves its numeral, as removing its blanks does. -/
theorem Item.strip {s : List Char} {v : Int64} (h : Item s v) :
    trim Bazel.isSpace s = withoutBlanks s ∧ Item (withoutBlanks s) v := by
  have hspace : ∀ {c : Char}, isBlank c = true → Bazel.isSpace c = true := by
    intro c hc
    have hall : ∀ c ∈ [' ', '\t', '\n', '\x0b', '\x0c', '\r'], Bazel.isSpace c = true :=
      List.all_eq_true.mp rfl
    exact hall c (List.contains_iff_mem.mp hc)
  have hnumeralChars : ∀ {c : Char}, c.isDigit = true ∨ c = '-' → ¬ Bazel.isSpace c = true := by
    intro c hc hmem
    have hall : ∀ c ∈ ['\t', '\n', '\x0b', '\x0c', '\r', '\x1c', '\x1d', '\x1e', '\x1f', ' ',
      '\x85', '\xa0'], ¬ (c.isDigit = true ∨ c = '-') := List.all_iff_forall_prop.mp rfl
    exact hall c (List.contains_iff_mem.mp hmem) hc
  obtain ⟨before, numeral, after, rfl, hbefore, hafter, hnumeral⟩ := h
  -- no character of the numeral is a blank
  have hfilter : withoutBlanks (before ++ numeral ++ after) = numeral := by
    have hnone : ∀ {l : List Char}, (∀ c ∈ l, isBlank c = true) → withoutBlanks l = [] := by
      intro l hl
      rw [withoutBlanks, List.filter_eq_nil_iff]
      intro c hc
      rw [hl c hc]
      decide
    have hall : withoutBlanks numeral = numeral := by
      rw [withoutBlanks, List.filter_eq_self]
      intro c hc
      have hno := mt hspace (hnumeralChars (hnumeral.mem hc))
      rw [Bool.eq_false_iff.mpr hno]
      rfl
    have hbefore' := hnone hbefore
    have hafter' := hnone hafter
    unfold withoutBlanks at *
    rw [List.filter_append, List.filter_append, hbefore', hafter', hall, List.nil_append,
      List.append_nil]
  rw [hfilter]
  refine ⟨trim_append (fun c hc => hspace (hbefore c hc)) (fun c hc => ?_)
    fun c hc => hspace (hafter c hc), ?_⟩
  · exact hnumeralChars (hnumeral.mem hc)
  · exact ⟨[], numeral, [], by rw [List.nil_append, List.append_nil], by simp, by simp, hnumeral⟩

/-- The numerals of a group. -/
theorem Bazel.dims_eq {items : List (List Char)} {vs : List Int64} (h : List.Forall₂ Item items vs) :
    dims ([','].intercalate items) = items.map withoutBlanks := by
  have hstrip : ∀ item ∈ items, trim isSpace item = withoutBlanks item ∧ withoutBlanks item ≠ [] := by
    intro item hitem
    obtain ⟨v, -, hv⟩ := exists_mem_of_forall₂ h hitem
    exact ⟨hv.strip.1, hv.strip.2.ne_nil⟩
  by_cases hne : items = []
  · subst hne
    decide
  · have hsplit : ([','].intercalate items).splitOn ',' = items := by
      refine List.splitOn_intercalate ',' (fun item hitem hcomma => ?_) hne
      obtain ⟨v, -, hv⟩ := exists_mem_of_forall₂ h hitem
      exact hv.mem hcomma (by decide)
    rw [dims, hsplit, List.map_congr_left fun item hitem => (hstrip item hitem).1,
      List.filter_eq_self]
    intro text htext
    obtain ⟨item, hitem, rfl⟩ := List.mem_map.mp htext
    exact decide_eq_true (hstrip item hitem).2

/-- **Bazel** joins the numerals of the text. -/
theorem bazel_eq {items : List (List (List Char))} {groups : List (List Int64)}
    (h : Items items groups) (hne : items ≠ []) :
    Bazel.parseInstanceToSuffix (rendered items) = joined (items.map (List.map withoutBlanks)) := by
  have hparts := Bazel.strip_splitText (items.map [','].intercalate)
    (by rwa [ne_eq, List.map_eq_nil_iff]) h.mem
  show ['-'].intercalate ((splitText ')' ['('] (rendered items)).map
    ((fun text => ['_'].intercalate (Bazel.dims text)) ∘
      fun g => Bazel.stripClose (Bazel.stripOpen g))) = _
  rw [← List.map_map, rendered, hparts, List.map_map, joined, List.map_map]
  congr 1
  refine List.map_congr_left fun group hgroup => ?_
  obtain ⟨vs, -, hvs⟩ := exists_mem_of_forall₂ h hgroup
  exact congrArg _ (Bazel.dims_eq hvs)

/-! ### CMake -/

/-- The groups, joined by hyphens. -/
theorem intercalate_pieces (texts : List (List Char)) :
    ∀ text : List Char, ['-'].intercalate (pieces text texts)
      = ['-'].intercalate (text :: texts) ++ [')'] := by
  induction texts with
  | nil =>
    intro text
    rw [pieces, List.intercalate_singleton, List.intercalate_singleton]
  | cons next texts ih =>
    intro text
    obtain ⟨piece, rest, hpieces⟩ : ∃ piece rest, pieces next texts = piece :: rest := by
      cases texts with
      | nil => exact ⟨_, _, rfl⟩
      | cons _ _ => exact ⟨_, _, rfl⟩
    have hnext := ih next
    rw [hpieces] at hnext
    rw [pieces, hpieces, List.intercalate_cons_cons, hnext, List.intercalate_cons_cons,
      List.append_assoc, List.append_assoc, List.append_assoc]

/-- The text with `-` between the groups. -/
theorem replaceText_rendered {text : List Char} {texts : List (List Char)}
    (h : ∀ t ∈ text :: texts, ')' ∉ t) :
    replaceText ')' ['('] ['-'] ((text :: texts).flatMap parenthesize)
      = '(' :: (['-'].intercalate (text :: texts) ++ [')']) := by
  rw [replaceText, splitText_rendered h, ← intercalate_pieces]
  cases texts with
  | nil => rw [pieces, List.modifyHead_cons, List.intercalate_singleton, List.intercalate_singleton]; rfl
  | cons next texts =>
    rw [pieces, List.modifyHead_cons, intercalate_cons_eq, intercalate_cons_eq]
    rfl

/-- The text has no tags. -/
theorem instCli_eq {text : List Char} (h : '[' ∉ text) : CMake.instCli text = text := by
  rw [CMake.instCli, splitText_of_not_mem (show '[' ∈ ',' :: [' ', '['] by decide) h]
  rfl

/-- **CMake** joins the items as they are written. -/
theorem cmake_eq {items : List (List (List Char))} {groups : List (List Int64)}
    (h : Items items groups) (hne : items ≠ []) :
    CMake.parseInstanceToSuffix (rendered items) = joined items := by
  obtain ⟨text, texts, htexts⟩ : ∃ text texts, items.map [','].intercalate = text :: texts :=
    List.exists_cons_of_ne_nil (by rwa [ne_eq, List.map_eq_nil_iff])
  have hmem : ∀ t ∈ text :: texts, ∀ c ∈ t, c ∉ ['(', ')', '['] := htexts ▸ h.mem
  have hjoin : ∀ c ∈ ['(', ')', '['], c ∉ ['-'].intercalate (text :: texts) := by
    intro c hc hin
    rcases mem_intercalate hin with hin | ⟨t, ht, hin⟩
    · obtain rfl := List.mem_singleton.mp hin
      exact absurd hc (by decide)
    · exact hmem t ht c hin hc
  have hbracket : '[' ∉ rendered items := by
    intro hin
    rw [rendered, htexts] at hin
    obtain ⟨t, ht, hin⟩ := List.mem_flatMap.mp hin
    rcases List.mem_cons.mp hin with hin | hin
    · exact absurd hin (by decide)
    · rcases List.mem_append.mp hin with hin | hin
      · exact hmem t ht '[' hin (by decide)
      · exact absurd hin (by decide)
  have hclose : ∀ t ∈ text :: texts, ')' ∉ t := fun t ht hin => hmem t ht ')' hin (by decide)
  -- first the parentheses go
  have hparens : replaceText ')' [] [] (replaceText '(' [] []
      (replaceText ')' ['('] ['-'] (rendered items))) = ['-'].intercalate (text :: texts) := by
    have hopen : replaceText '(' [] [] ('(' :: (['-'].intercalate (text :: texts) ++ [')']))
        = ['-'].intercalate (text :: texts) ++ [')'] := by
      rw [replaceText_char, List.flatMap_cons, if_pos rfl, List.nil_append]
      refine flatMap_replace_of_not_mem (fun hin => ?_) []
      exact (List.mem_append.mp hin).elim (hjoin '(' (by decide)) (by decide)
    rw [rendered, htexts, replaceText_rendered hclose, hopen, replaceText_char, List.flatMap_append,
      flatMap_replace_of_not_mem (hjoin ')' (by decide))]
    exact List.append_nil _
  -- then the commas are replaced
  rw [CMake.parseInstanceToSuffix, instCli_eq hbracket]
  show replaceText ',' [] ['_'] (replaceText ')' [] [] (replaceText '(' [] []
      (replaceText ')' ['('] ['-'] (rendered items)))) = _
  rw [hparens, replaceText_char, flatMap_intercalate, ← htexts, List.map_map, joined]
  congr 1
  refine List.map_congr_left fun group hgroup => ?_
  obtain ⟨vs, -, hvs⟩ := exists_mem_of_forall₂ h hgroup
  show ([','].intercalate group).flatMap _ = _
  rw [flatMap_intercalate]
  have hitems : ∀ item ∈ group,
      (item.flatMap fun x => if x = ',' then ['_'] else [x]) = id item := by
    intro item hitem
    obtain ⟨v, -, hv⟩ := exists_mem_of_forall₂ hvs hitem
    exact flatMap_replace_of_not_mem (fun hin => hv.mem hin (by decide)) _
  rw [List.map_congr_left hitems, List.map_id]
  rfl

/-! ### Comparing with the generator -/

/-- No spelling is shorter than that of the generator. -/
theorem Item.sameOrLonger {s : List Char} {v : Int64} (h : Item s v) :
    SameOrLonger s (toString v) := by
  obtain ⟨before, numeral, after, rfl, -, -, hnumeral⟩ := h
  have happend := ((SameOrLonger.nil before).append hnumeral.sameOrLonger).append (.nil after)
  rwa [List.nil_append, List.append_nil] at happend

/-- Another spelling of a number is longer than its decimal. -/
theorem Items.sameOrLonger {items : List (List (List Char))} {groups : List (List Int64)}
    (h : Items items groups) : SameOrLonger (rendered items) (rendered (decimals groups)) := by
  refine SameOrLonger.flatMap (fun ha => ?_) ?_
  · exact (SameOrLonger.refl ['(']).append (ha.append (.refl [')']))
  · rw [List.forall₂_map_left_iff, List.forall₂_map_right_iff, decimals, List.forall₂_map_right_iff]
    refine h.imp fun group vs hvs => SameOrLonger.intercalate [','] ?_
    rw [List.forall₂_map_right_iff]
    exact hvs.imp fun _ _ => Item.sameOrLonger

/-- No text of an instance is shorter than what the printer writes. -/
theorem Spells.sameOrLonger {raw : List Char} {groups : List (List Int64)} (h : Spells raw groups) :
    SameOrLonger raw (printInstance groups) := by
  obtain ⟨items, rfl, hitems⟩ := h.exists_items
  rw [printInstance_eq]
  exact Items.sameOrLonger hitems

/-- A suffix is shorter than the text it is for by a number that depends on the number of groups. -/
theorem length_rendered {items : List (List (List Char))} (hne : items ≠ []) :
    (rendered items).length = (joined items).length + items.length + 1 := by
  -- a comma is as long as an underscore, and `)(` one longer than a hyphen
  have hcomma : ∀ group : List (List Char),
      ([','].intercalate group).length = (['_'].intercalate group).length := by
    intro group
    cases group with
    | nil => rfl
    | cons item group =>
      rw [intercalate_cons_eq, intercalate_cons_eq, List.length_append, List.length_append,
        List.length_flatMap, List.length_flatMap]
      rfl
  have hgroups : ∀ items : List (List (List Char)), (rendered items).length
      = ((items.map ['_'].intercalate).flatMap (['-'] ++ ·)).length + items.length := by
    intro items
    induction items with
    | nil => rfl
    | cons group items ih =>
      rw [rendered, List.map_cons, List.flatMap_cons, List.length_append, ← rendered, ih,
        List.map_cons, List.flatMap_cons, List.length_append, List.length_append, parenthesize,
        List.length_cons, List.length_append, hcomma]
      simp only [List.length_cons, List.length_nil]
      omega
  cases items with
  | nil => exact absurd rfl hne
  | cons group items =>
    rw [hgroups, joined, List.map_cons, intercalate_cons_eq, List.flatMap_cons, List.length_append,
      List.length_append, List.length_append, List.length_singleton]
    omega

/-- **CMake agrees with the generator** for the text that the printer writes. -/
theorem cmake_iff {raw : List Char} {groups : List (List Int64)} (h : Spells raw groups) :
    CMake.parseInstanceToSuffix raw = (instSuffix groups).tail ↔ raw = printInstance groups := by
  obtain ⟨items, rfl, hitems⟩ := h.exists_items
  have hlen : items.length = (decimals groups).length := by
    rw [hitems.length_eq, decimals, List.length_map]
  have hdecimals : decimals groups ≠ [] := by
    rw [decimals, ne_eq, List.map_eq_nil_iff]
    exact h.1
  have hne : items ≠ [] := by
    rw [← List.length_pos_iff, hlen, List.length_pos_iff]
    exact hdecimals
  rw [tail_instSuffix h.1, printInstance_eq, ← rendered]
  constructor
  · intro heq
    rw [cmake_eq hitems hne] at heq
    refine (Items.sameOrLonger hitems).eq_of_length ?_
    rw [length_rendered hne, length_rendered hdecimals, heq, hlen]
  · intro heq
    rw [heq, cmake_eq (items_decimals groups) hdecimals]

/-- **Bazel is CMake** on the text without blanks. -/
theorem bazel_eq_cmake {raw : List Char} {groups : List (List Int64)} (h : Spells raw groups) :
    Spells (withoutBlanks raw) groups ∧
      Bazel.parseInstanceToSuffix raw = CMake.parseInstanceToSuffix (withoutBlanks raw) := by
  obtain ⟨items, rfl, hitems⟩ := h.exists_items
  have hne : items ≠ [] := by
    rintro rfl
    exact h.1 (List.forall₂_nil_left_iff.mp hitems)
  have hnumerals : Items (items.map (List.map withoutBlanks)) groups := by
    rw [Items, List.forall₂_map_left_iff]
    refine hitems.imp fun group vs hvs => ?_
    rw [List.forall₂_map_left_iff]
    exact hvs.imp fun _ _ hitem => hitem.strip.2
  -- separators and parentheses are no blanks
  have hcommas : ∀ group : List (List Char), withoutBlanks ([','].intercalate group)
      = [','].intercalate (group.map withoutBlanks) := by
    intro group
    cases group with
    | nil => rfl
    | cons item group =>
      rw [withoutBlanks, List.map_cons, intercalate_cons_eq, intercalate_cons_eq,
        List.filter_append, List.filter_flatMap, List.flatMap_map]
      congr 1
  have hraw : withoutBlanks (rendered items) = rendered (items.map (List.map withoutBlanks)) := by
    rw [withoutBlanks, rendered, rendered, List.filter_flatMap, List.flatMap_map, List.map_map,
      List.flatMap_map]
    congr 1
    funext group
    show ('(' :: ([','].intercalate group ++ [')'])).filter _ = _
    rw [List.filter_cons_of_pos (by decide), List.filter_append, ← withoutBlanks, hcommas]
    rfl
  rw [← rendered, hraw, bazel_eq hitems hne, cmake_eq hnumerals (by rwa [ne_eq, List.map_eq_nil_iff])]
  refine ⟨⟨h.1, _, rfl, ?_⟩, rfl⟩
  rw [List.forall₂_map_left_iff]
  exact hnumerals.imp fun group vs hvs => ⟨group, rfl, hvs⟩

/-- So a text that is printed for some groups is the one for its own. -/
theorem exists_printInstance_iff {raw : List Char} {groups : List (List Int64)}
    (h : Spells raw groups) :
    (∃ groups', raw = printInstance groups') ↔ raw = printInstance groups := by
  refine ⟨?_, fun heq => ⟨groups, heq⟩⟩
  rintro ⟨groups', heq⟩
  have hparse := (parseInstance_eq_iff.mpr h).1
  by_cases hne : groups' = []
  · -- the printer writes nothing for no groups
    rw [heq, hne, show printInstance [] = [] from rfl, parseInstance, parseInstanceLoop] at hparse
    exact absurd hparse.symm h.1
  · rw [heq, (parseInstance_eq_iff.mpr (spells_printInstance hne)).1] at hparse
    rw [heq, hparse]

/-- **The suffixes** of both build rules are that of the generator exactly for the texts that the
    printer writes: no blanks, no leading zeros, no `-0`.  Bazel's is for these texts with blanks. -/
theorem suffixes_agree_iff {raw : List Char} (h : parseInstance raw ≠ []) :
    ((Bazel.parseInstanceToSuffix raw = (instSuffix (parseInstance raw)).tail ∧
        CMake.parseInstanceToSuffix raw = (instSuffix (parseInstance raw)).tail) ↔
      ∃ groups, raw = printInstance groups) ∧
    (Bazel.parseInstanceToSuffix raw = (instSuffix (parseInstance raw)).tail ↔
      ∃ groups, withoutBlanks raw = printInstance groups) := by
  have hspells : Spells raw (parseInstance raw) := parseInstance_eq_iff.mp ⟨rfl, h⟩
  obtain ⟨hblanks, hbazel⟩ := bazel_eq_cmake hspells
  rw [exists_printInstance_iff hspells, exists_printInstance_iff hblanks, hbazel, cmake_iff hblanks,
    cmake_iff hspells]
  refine ⟨⟨fun hboth => hboth.2, fun heq => ⟨?_, heq⟩⟩, Iff.rfl⟩
  -- removing blanks from the shortest text leaves it as it is
  refine hblanks.sameOrLonger.eq_of_length (Nat.le_antisymm ?_ ?_)
  · rw [← heq]
    exact List.length_filter_le _ _
  · rcases hblanks.sameOrLonger with hsame | hlonger
    · rw [hsame]
    · exact Nat.le_of_lt hlonger

/-! ### Two instances -/

/-- Both functions agree on negative values. -/
theorem suffixes_of_negative :
    Bazel.parseInstanceToSuffix "(4,8)(-3)".toList = "4_8--3".toList ∧
    CMake.parseInstanceToSuffix "(4,8)(-3)".toList = "4_8--3".toList := by
  have hprint : "(4,8)(-3)".toList = printInstance [[4, 8], [-3]] := by decide
  have hparse : parseInstance "(4,8)(-3)".toList = [[4, 8], [-3]] := by
    rw [hprint]
    exact (parseInstance_eq_iff.mpr (spells_printInstance (List.cons_ne_nil _ _))).1
  have hagree := suffixes_agree_iff (show parseInstance "(4,8)(-3)".toList ≠ [] by
    rw [hparse]
    exact List.cons_ne_nil _ _)
  have hsuffix : (instSuffix (parseInstance "(4,8)(-3)".toList)).tail = "4_8--3".toList := by
    rw [hparse]
    decide
  rw [← hsuffix]
  exact hagree.1.mpr ⟨_, hprint⟩

/-- **A blank after a comma** is part of the name that CMake expects, and not of the file's. -/
theorem cmake_keeps_blank :
    parseInstance "(4, 8)".toList = [[4, 8]] ∧
    CMake.parseInstanceToSuffix "(4, 8)".toList ≠ (instSuffix [[4, 8]]).tail := by
  have hitems : Items [["4".toList, " 8".toList]] [[4, 8]] :=
    List.Forall₂.cons
      (List.Forall₂.cons ⟨[], _, [], rfl, by simp, by simp, numeral_decimal 4⟩
        (List.Forall₂.cons ⟨[' '], _, [], rfl, List.all_eq_true.mp rfl, by simp,
          numeral_decimal 8⟩
          List.Forall₂.nil))
      List.Forall₂.nil
  have hraw : "(4, 8)".toList = rendered [["4".toList, " 8".toList]] := by decide
  have hspells : Spells "(4, 8)".toList [[4, 8]] := by
    refine ⟨List.cons_ne_nil _ _, _, hraw, ?_⟩
    rw [List.forall₂_map_left_iff]
    exact hitems.imp fun group vs hvs => ⟨group, rfl, hvs⟩
  refine ⟨(parseInstance_eq_iff.mpr hspells).1, ?_⟩
  rw [hraw, cmake_eq hitems (List.cons_ne_nil _ _)]
  decide

end CoralNPU.CheckGen
