import Mathlib.Data.List.DropRight
import Mathlib.Data.List.Forall2

namespace Lib

/-!
# Texts as lists of characters

* `trim` — removing what satisfies a predicate from both ends.
* `intercalate_cons_eq`, `foldl_join`, `foldl_join_first` — texts joined with a separator, by
  `List.intercalate` and by loops that append.
* `splitText`, `replaceText` — splitting at, and replacing, the occurrences of a text, from the left.
* `SameOrLonger` — a text that is another one or longer, piece by piece.
-/

/-! ### Removing from both ends -/

variable {α : Type*} {p : α → Bool}

/-- The list without the elements at its ends that satisfy `p`. -/
def trim (p : α → Bool) (l : List α) : List α := (l.dropWhile p).rdropWhile p

/-- What `trim` removes. -/
theorem exists_eq_trim (p : α → Bool) (l : List α) :
    ∃ before after, l = before ++ trim p l ++ after ∧ (∀ x ∈ before, p x) ∧ ∀ x ∈ after, p x := by
  refine ⟨l.takeWhile p, (l.dropWhile p).rtakeWhile p, ?_, fun x hx => List.mem_takeWhile_imp hx,
    fun x hx => List.mem_rtakeWhile_imp hx⟩
  rw [List.append_assoc, trim, List.rdropWhile_append_rtakeWhile, List.takeWhile_append_dropWhile]

/-- A list without elements to remove, between elements to remove. -/
theorem trim_append {before core after : List α} (hbefore : ∀ x ∈ before, p x)
    (hcore : ∀ x ∈ core, ¬ p x) (hafter : ∀ x ∈ after, p x) :
    trim p (before ++ core ++ after) = core := by
  rw [trim, List.append_assoc, List.dropWhile_append_of_pos hbefore]
  cases core with
  | nil => rw [List.nil_append, List.dropWhile_eq_nil_iff.mpr hafter, List.rdropWhile_nil]
  | cons x core =>
    rw [List.cons_append, List.dropWhile_cons_of_neg (hcore x List.mem_cons_self), ← List.cons_append]
    -- from the right: all of `after`, and then nothing
    rw [List.rdropWhile, List.reverse_append,
      List.dropWhile_append_of_pos fun y hy => hafter y (List.mem_reverse.mp hy),
      List.dropWhile_eq_self_iff.mpr, List.reverse_reverse]
    intro hlen
    exact hcore _ (List.mem_reverse.mp (List.getElem_mem hlen))

/-! ### Joining -/

/-- Joining: every part after the first with the separator before it. -/
theorem intercalate_cons_eq (sep x : List α) (xs : List (List α)) :
    sep.intercalate (x :: xs) = x ++ xs.flatMap (sep ++ ·) := by
  induction xs generalizing x with
  | nil => rw [List.intercalate_singleton, List.flatMap_nil, List.append_nil]
  | cons y ys ih => rw [List.intercalate_cons_cons, ih, List.flatMap_cons, List.append_assoc,
      List.append_assoc]

/-- The characters of joined texts. -/
theorem mem_intercalate {sep : List α} {xs : List (List α)} {c : α} (h : c ∈ sep.intercalate xs) :
    c ∈ sep ∨ ∃ x ∈ xs, c ∈ x := by
  cases xs with
  | nil => cases h
  | cons x xs =>
    rw [intercalate_cons_eq, List.mem_append, List.mem_flatMap] at h
    rcases h with h | ⟨y, hy, h⟩
    · exact Or.inr ⟨x, List.mem_cons_self, h⟩
    · exact (List.mem_append.mp h).imp id fun h => ⟨y, List.mem_cons_of_mem _ hy, h⟩

/-- Texts in joined texts are changed one by one. -/
theorem flatMap_intercalate {β : Type*} (f : α → List β) (sep : List α) (xs : List (List α)) :
    (sep.intercalate xs).flatMap f = (sep.flatMap f).intercalate (xs.map (List.flatMap f)) := by
  cases xs with
  | nil => rfl
  | cons x xs =>
    rw [List.map_cons, intercalate_cons_eq, intercalate_cons_eq, List.flatMap_append,
      List.flatMap_assoc, List.flatMap_map]
    simp only [List.flatMap_append]

/-- A loop that appends a separator before every element but the first. -/
theorem foldl_join {β : Type*} (sep first : List β) (text : α → List β) (xs : List α) :
    ∀ (k : Nat) (acc : List β), (xs.zipIdx (k + 1)).foldl (fun s (x, i) =>
      (if i > 0 then s ++ sep else s ++ first) ++ text x) acc
        = acc ++ (xs.map text).flatMap (sep ++ ·) := by
  induction xs with
  | nil => exact fun _ acc => (List.append_nil acc).symm
  | cons x xs ih =>
    intro k acc
    rw [List.zipIdx_cons, List.foldl_cons, ih]
    simp only [Nat.zero_lt_succ, gt_iff_lt, if_true, List.map_cons, List.flatMap_cons,
      List.append_assoc]

/-- A loop that appends a separator when it is not in its first round. -/
theorem foldl_join_first {β : Type*} (sep : List β) (text : α → List β) (xs : List α) (acc : List β) :
    (xs.foldl (fun (s : List β × Bool) x =>
      ((if !s.2 then s.1 ++ sep else s.1) ++ text x, false)) (acc, true)).1
        = acc ++ sep.intercalate (xs.map text) := by
  have hrest : ∀ (xs : List α) (acc : List β), (xs.foldl (fun (s : List β × Bool) x =>
      ((if !s.2 then s.1 ++ sep else s.1) ++ text x, false)) (acc, false)).1
        = acc ++ (xs.map text).flatMap (sep ++ ·) := by
    intro xs
    induction xs with
    | nil => exact fun acc => (List.append_nil acc).symm
    | cons x xs ih =>
      intro acc
      rw [List.foldl_cons]
      refine (ih _).trans ?_
      rw [List.map_cons, List.flatMap_cons]
      simp only [Bool.not_false, if_true, List.append_assoc]
  cases xs with
  | nil => exact (List.append_nil acc).symm
  | cons x xs =>
    rw [List.foldl_cons, List.map_cons, intercalate_cons_eq, ← List.append_assoc]
    exact hrest xs _

/-! ### Splitting and replacing -/

section Split

variable [DecidableEq α] {sep₀ : α} {sep : List α}

/-- The parts of a text between the occurrences of `sep₀ :: sep`. -/
def splitText (sep₀ : α) (sep : List α) : List α → List (List α)
  | [] => [[]]
  | c :: rest =>
    if c = sep₀ ∧ sep <+: rest then [] :: splitText sep₀ sep (rest.drop sep.length)
    else (splitText sep₀ sep rest).modifyHead (c :: ·)
termination_by text => text.length
decreasing_by
  · rw [List.length_drop, List.length_cons]
    omega
  · exact Nat.lt_succ_self _

/-- The text with `by'` for every occurrence of `sep₀ :: sep`. -/
def replaceText (sep₀ : α) (sep by' text : List α) : List α := by'.intercalate (splitText sep₀ sep text)

/-- Splitting gives at least one part. -/
theorem splitText_ne_nil (sep₀ : α) (sep text : List α) : splitText sep₀ sep text ≠ [] := by
  induction text using splitText.induct sep₀ sep with
  | case1 => rw [splitText]; exact List.cons_ne_nil _ _
  | case2 c rest h ih => rw [splitText, if_pos h]; exact List.cons_ne_nil _ _
  | case3 c rest h ih =>
    rw [splitText, if_neg h]
    intro hnil
    rw [List.modifyHead_eq_nil_iff] at hnil
    exact ih hnil

/-- What comes before the first character of the separator belongs to the first part. -/
theorem splitText_append {text : List α} (h : sep₀ ∉ text) (rest : List α) :
    splitText sep₀ sep (text ++ rest) = (splitText sep₀ sep rest).modifyHead (text ++ ·) := by
  induction text with
  | nil =>
    rw [List.nil_append]
    obtain ⟨x, xs, hx⟩ := List.exists_cons_of_ne_nil (splitText_ne_nil sep₀ sep rest)
    rw [hx]
    rfl
  | cons c text ih =>
    have hc : ¬ (c = sep₀ ∧ sep <+: text ++ rest) := fun hc => h (hc.1 ▸ List.mem_cons_self)
    rw [List.cons_append, splitText, if_neg hc, ih fun hmem => h (List.mem_cons_of_mem _ hmem)]
    obtain ⟨x, xs, hx⟩ := List.exists_cons_of_ne_nil (splitText_ne_nil sep₀ sep rest)
    rw [hx]
    rfl

/-- A text that starts with the separator. -/
theorem splitText_sep (rest : List α) :
    splitText sep₀ sep (sep₀ :: (sep ++ rest)) = [] :: splitText sep₀ sep rest := by
  rw [splitText, if_pos ⟨rfl, List.prefix_append sep rest⟩, List.drop_left]

/-- A text that lacks a character of the separator is one part. -/
theorem splitText_of_not_mem {c : α} (hc : c ∈ sep₀ :: sep) {text : List α} (h : c ∉ text) :
    splitText sep₀ sep text = [text] := by
  induction text with
  | nil => rw [splitText]
  | cons x text ih =>
    have hno : ¬ (x = sep₀ ∧ sep <+: text) := by
      rintro ⟨rfl, hstart⟩
      rcases List.mem_cons.mp hc with rfl | hc
      · exact h List.mem_cons_self
      · exact h (List.mem_cons_of_mem _ (hstart.subset hc))
    rw [splitText, if_neg hno, ih fun hmem => h (List.mem_cons_of_mem _ hmem)]
    rfl

/-- Replacing one character. -/
theorem replaceText_char (c : α) (by' text : List α) :
    replaceText c [] by' text = text.flatMap fun x => if x = c then by' else [x] := by
  induction text with
  | nil => simp [replaceText, splitText]
  | cons x text ih =>
    obtain ⟨y, ys, hy⟩ := List.exists_cons_of_ne_nil (splitText_ne_nil c [] text)
    rw [List.flatMap_cons, ← ih, replaceText, replaceText, splitText, hy]
    split
    next h =>
      rw [List.length_nil, List.drop_zero, hy, intercalate_cons_eq, if_pos h.1, List.nil_append,
        List.flatMap_cons, List.append_assoc, intercalate_cons_eq]
    next h =>
      have hx : x ≠ c := fun hx => h ⟨hx, List.nil_prefix⟩
      rw [List.modifyHead_cons, intercalate_cons_eq, intercalate_cons_eq, if_neg hx]
      rfl

/-- Nothing is replaced if the character does not occur. -/
theorem flatMap_replace_of_not_mem {c : α} {text : List α} (h : c ∉ text) (by' : List α) :
    (text.flatMap fun x => if x = c then by' else [x]) = text := by
  induction text with
  | nil => rfl
  | cons x text ih =>
    have hx : x ≠ c := by
      rintro rfl
      exact h List.mem_cons_self
    rw [List.flatMap_cons, if_neg hx, ih fun hmem => h (List.mem_cons_of_mem _ hmem),
      List.singleton_append]

end Split

/-! ### Texts that are not shorter -/

/-- The text is `short`, or longer than it. -/
def SameOrLonger (text short : List α) : Prop := text = short ∨ short.length < text.length

/-- A text is the same as itself. -/
theorem SameOrLonger.refl (text : List α) : SameOrLonger text text := Or.inl rfl

/-- The empty text is the same or shorter. -/
theorem SameOrLonger.nil (text : List α) : SameOrLonger text [] := by
  cases text with
  | nil => exact .refl _
  | cons c text => exact Or.inr (Nat.succ_pos _)

/-- A text of the same length is the same. -/
theorem SameOrLonger.eq_of_length {text short : List α} (h : SameOrLonger text short)
    (hlen : text.length = short.length) : text = short := h.resolve_right (by omega)

/-- Two texts, one after the other. -/
theorem SameOrLonger.append {a a' b b' : List α} (ha : SameOrLonger a a') (hb : SameOrLonger b b') :
    SameOrLonger (a ++ b) (a' ++ b') := by
  rcases ha with rfl | ha
  · rcases hb with rfl | hb
    · exact Or.inl rfl
    · exact Or.inr (by rw [List.length_append, List.length_append]; omega)
  · refine Or.inr ?_
    rw [List.length_append, List.length_append]
    rcases hb with rfl | hb <;> omega

/-- A function that keeps or lengthens each part. -/
theorem SameOrLonger.flatMap {f : List α → List α}
    (hf : ∀ {a a' : List α}, SameOrLonger a a' → SameOrLonger (f a) (f a')) {xs xs' : List (List α)}
    (h : List.Forall₂ SameOrLonger xs xs') : SameOrLonger (xs.flatMap f) (xs'.flatMap f) := by
  induction h with
  | nil => exact .refl _
  | cons hx _ ih =>
    rw [List.flatMap_cons, List.flatMap_cons]
    exact (hf hx).append ih

/-- Parts with a separator between them. -/
theorem SameOrLonger.intercalate (sep : List α) {xs xs' : List (List α)}
    (h : List.Forall₂ SameOrLonger xs xs') : SameOrLonger (sep.intercalate xs) (sep.intercalate xs') := by
  cases h with
  | nil => exact .refl _
  | cons hx hxs =>
    rw [intercalate_cons_eq, intercalate_cons_eq]
    exact hx.append (.flatMap (fun ha => (SameOrLonger.refl sep).append ha) hxs)

end Lib
