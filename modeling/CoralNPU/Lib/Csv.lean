import CoralNPU.Lib.Json

namespace Lib.Csv

/-!
# Comma-separated values

Tables as text: RFC 4180, with lines that may also end in a line feed alone.

* `parse` — the records of a text.
* `Field` — a text that is read as a field where it stands.
* `readQuoted_raw` — text between quotes is read back only if it has no quotes.
* `Row`, `parse_rows_iff` — lines that put a name between quotes and add fields are read back exactly
  when no name has a quote.
-/

/-! ### The parser -/

/-- A quoted field behind its first quote. Two quotes stand for one. -/
def readQuoted : Bytes → Option (Bytes × Bytes)
  | [] => none
  | c :: text =>
    if c = 0x22 then
      match text with
      | [] => some ([], [])
      | c' :: rest =>
        if c' = 0x22 then (readQuoted rest).map fun (value, rest) => (0x22 :: value, rest)
        else some ([], c' :: rest)
    else
      (readQuoted text).map fun (value, rest) => (c :: value, rest)

/-- A byte of a field without quotes. -/
def isText (c : UInt8) : Bool := c != 0x22 && c != 0x2C && c != 0x0A && c != 0x0D

/-- A field, and what follows it. -/
def readField (text : Bytes) : Option (Bytes × Bytes) :=
  if text.head? = some 0x22 then readQuoted text.tail
  else some (text.takeWhile isText, text.dropWhile isText)

/-- The fields of a record, and what follows the end of its line, which the last line may lack. -/
def readRecord : Nat → Bytes → Option (List Bytes × Bytes)
  | 0, _ => none
  | fuel + 1, text => do
    let (value, rest) ← readField text
    match rest with
    | [] => some ([value], [])
    | 0x2C :: rest =>
      let (values, rest) ← readRecord fuel rest
      some (value :: values, rest)
    | 0x0A :: rest => some ([value], rest)
    | 0x0D :: 0x0A :: rest => some ([value], rest)
    | _ => none

/-- The records of a text. -/
def readRecords : Nat → Bytes → Option (List (List Bytes))
  | 0, _ => none
  | _ + 1, [] => some []
  | fuel + 1, text => do
    let (record, rest) ← readRecord (text.length + 1) text
    let records ← readRecords fuel rest
    some (record :: records)

/-- The table of a text. -/
def parse (text : Bytes) : Option (List (List Bytes)) := readRecords (text.length + 1) text

/-! ### Fields -/

/-- The text is read as the value in front of a comma or the end of a line. -/
def Field (text value : Bytes) : Prop :=
  ∀ c rest, c = 0x2C ∨ c = 0x0A → readField (text ++ c :: rest) = some (value, c :: rest)

/-- A field without quotes. -/
theorem field_text {text : Bytes} (h : ∀ c ∈ text, isText c = true) : Field text text := by
  intro c rest hc
  have hhead : (text ++ c :: rest).head? ≠ some 0x22 := by
    cases text with
    | nil => rcases hc with rfl | rfl <;> simp
    | cons b text =>
      intro heq
      obtain rfl : b = 0x22 := Option.some.inj heq
      exact absurd (h 0x22 List.mem_cons_self) (by decide)
  have hstop : isText c = false := by rcases hc with rfl | rfl <;> decide
  rw [readField, if_neg hhead, List.takeWhile_append_of_pos h, List.dropWhile_append_of_pos h,
    List.takeWhile_cons_of_neg (by rw [hstop]; decide), List.append_nil,
    List.dropWhile_cons_of_neg (by rw [hstop]; decide)]

/-- Text with its quotes doubled. -/
def doubled (value : Bytes) : Bytes := value.flatMap fun c => if c = 0x22 then [0x22, 0x22] else [c]

theorem doubled_quote (value : Bytes) : doubled (0x22 :: value) = 0x22 :: 0x22 :: doubled value := rfl

theorem doubled_cons {c : UInt8} (hc : c ≠ 0x22) (value : Bytes) :
    doubled (c :: value) = c :: doubled value := by
  rw [doubled, List.flatMap_cons, if_neg hc]
  rfl

/-- A quote in front of another byte ends the field. -/
theorem readQuoted_quote_of_ne {c : UInt8} (hc : c ≠ 0x22) (rest : Bytes) :
    readQuoted (0x22 :: c :: rest) = some ([], c :: rest) := by
  rw [readQuoted.eq_def]
  simp only [if_true, if_neg hc]

theorem readQuoted_cons_of_ne {c : UInt8} (hc : c ≠ 0x22) (text : Bytes) :
    readQuoted (c :: text) = (readQuoted text).map fun (value, rest) => (c :: value, rest) := by
  rw [readQuoted.eq_def]
  simp only [if_neg hc]

/-- What a quoted field reads: the value with doubled quotes, and a last quote. -/
theorem readQuoted_eq_some (text : Bytes) : ∀ {value rest : Bytes},
    readQuoted text = some (value, rest) → text = doubled value ++ 0x22 :: rest := by
  induction text using readQuoted.induct with
  | case1 =>
    intro value rest h
    cases h
  | case2 =>
    intro value rest h
    obtain ⟨rfl, rfl⟩ := Prod.mk.inj (Option.some.inj h)
    rfl
  | case3 text ih =>
    intro value rest h
    obtain ⟨⟨value', rest'⟩, hread, h⟩ := Option.map_eq_some_iff.mp h
    obtain ⟨rfl, rfl⟩ := Prod.mk.inj h
    rw [doubled_quote, List.cons_append, List.cons_append, ← ih hread]
  | case4 c text hc =>
    intro value rest h
    rw [readQuoted_quote_of_ne hc] at h
    obtain ⟨rfl, rfl⟩ := Prod.mk.inj (Option.some.inj h)
    rfl
  | case5 c text hc ih =>
    intro value rest h
    rw [readQuoted_cons_of_ne hc] at h
    obtain ⟨⟨value', rest'⟩, hread, h⟩ := Option.map_eq_some_iff.mp h
    obtain ⟨rfl, rfl⟩ := Prod.mk.inj h
    rw [doubled_cons hc, List.cons_append, ← ih hread]

/-- Text without quotes is read as it is. -/
theorem readQuoted_of_not_mem {value : Bytes} (h : (0x22 : UInt8) ∉ value) {c : UInt8} (hc : c ≠ 0x22)
    (rest : Bytes) : readQuoted (value ++ 0x22 :: c :: rest) = some (value, c :: rest) := by
  induction value with
  | nil =>
    exact readQuoted_quote_of_ne hc rest
  | cons b value ih =>
    obtain ⟨hb, hvalue⟩ := List.ne_and_not_mem_of_not_mem_cons h
    rw [List.cons_append, readQuoted_cons_of_ne (Ne.symm hb), ih hvalue]
    rfl

/-- Behind at least one quote, doubling needs more quotes than there are. -/
theorem append_ne_doubled {c : UInt8} (hc : c ≠ 0x22) (rest rest' : Bytes) (value : Bytes) :
    ∀ k, value ++ 0x22 :: c :: rest
      ≠ List.replicate (k + 1) 0x22 ++ (doubled value ++ 0x22 :: rest') := by
  induction value with
  | nil =>
    intro k h
    have h : (0x22 : UInt8) :: c :: rest = 0x22 :: (List.replicate k 0x22 ++ 0x22 :: rest') := h
    have htail := (List.cons.inj h).2
    cases k with
    | zero => exact hc (List.cons.inj htail).1
    | succ k => exact hc (List.cons.inj htail).1
  | cons b value ih =>
    intro k h
    have h : b :: (value ++ 0x22 :: c :: rest)
        = 0x22 :: (List.replicate k 0x22 ++ (doubled (b :: value) ++ 0x22 :: rest')) := h
    obtain ⟨rfl, htail⟩ := List.cons.inj h
    refine ih (k + 1) (htail.trans ?_)
    rw [doubled_quote, List.replicate_succ', List.replicate_succ']
    simp only [List.append_assoc, List.cons_append, List.nil_append]

/-- **Text between quotes** is read back only if it has no quotes. -/
theorem readQuoted_raw {value : Bytes} {c : UInt8} (hc : c ≠ 0x22) {rest rest' : Bytes} :
    readQuoted (value ++ 0x22 :: c :: rest) = some (value, rest') ↔
      (0x22 : UInt8) ∉ value ∧ rest' = c :: rest := by
  constructor
  · intro h
    have hmem : (0x22 : UInt8) ∉ value := by
      have heq := readQuoted_eq_some _ h
      clear h
      induction value with
      | nil => exact List.not_mem_nil
      | cons b value ih =>
        by_cases hb : b = 0x22
        · subst hb
          rw [doubled_quote] at heq
          exact absurd (List.cons.inj heq).2 (append_ne_doubled hc rest rest' value 0)
        · rw [doubled_cons hb] at heq
          rw [List.mem_cons, not_or]
          exact ⟨Ne.symm hb, ih (List.cons.inj heq).2⟩
    rw [readQuoted_of_not_mem hmem hc] at h
    exact ⟨hmem, (Prod.mk.inj (Option.some.inj h)).2.symm⟩
  · rintro ⟨hmem, rfl⟩
    exact readQuoted_of_not_mem hmem hc rest

/-- A quoted field of text without quotes. -/
theorem field_quoted {value : Bytes} (h : (0x22 : UInt8) ∉ value) :
    Field (0x22 :: (value ++ [0x22])) value := by
  intro c rest hc
  have hne : c ≠ 0x22 := by rcases hc with rfl | rfl <;> decide
  rw [List.cons_append, List.append_assoc, List.singleton_append]
  exact readQuoted_of_not_mem h hne rest

/-! ### Records -/

/-- **A record of such fields** is read back. -/
theorem readRecord_fields {fields : List (Bytes × Bytes)} (hne : fields ≠ [])
    (hfields : ∀ field ∈ fields, Field field.1 field.2) (rest : Bytes) :
    ∀ {fuel : Nat}, fields.length ≤ fuel →
      readRecord fuel ([0x2C].intercalate (fields.map Prod.fst) ++ 0x0A :: rest)
        = some (fields.map Prod.snd, rest) := by
  induction fields with
  | nil => exact absurd rfl hne
  | cons field fields ih =>
    intro fuel hfuel
    obtain ⟨fuel, rfl⟩ := Nat.exists_eq_add_one.mpr (Nat.lt_of_lt_of_le (Nat.succ_pos _) hfuel)
    have hfield := hfields field List.mem_cons_self
    cases fields with
    | nil =>
      rw [List.map_singleton, List.intercalate_singleton, readRecord, hfield _ _ (Or.inr rfl)]
      rfl
    | cons field' fields =>
      rw [List.map_cons, List.map_cons, List.intercalate_cons_cons, ← List.map_cons, List.append_assoc,
        List.append_assoc, List.singleton_append, readRecord, hfield _ _ (Or.inl rfl)]
      have hrest := ih (List.cons_ne_nil _ _) (fun f hf => hfields f (List.mem_cons_of_mem _ hf))
        (Nat.le_of_succ_le_succ hfuel)
      simp only [Option.bind_eq_bind, Option.bind_some, hrest]
      rfl

/-- The first field of a record. -/
theorem readField_of_readRecord {fuel : Nat} {text rest value : Bytes} {values : List Bytes}
    (h : readRecord fuel text = some (value :: values, rest)) :
    ∃ rest', readField text = some (value, rest') := by
  cases fuel with
  | zero => cases h
  | succ fuel =>
    rw [readRecord] at h
    obtain ⟨⟨first, rest'⟩, hfield, h⟩ := Option.bind_eq_some_iff.mp h
    refine ⟨rest', hfield.trans (congrArg (fun v => some (v, rest')) ?_)⟩
    simp only at h
    split at h
    · exact (List.cons.inj (Prod.mk.inj (Option.some.inj h)).1).1
    · obtain ⟨_, -, h⟩ := Option.bind_eq_some_iff.mp h
      exact (List.cons.inj (Prod.mk.inj (Option.some.inj h)).1).1
    · exact (List.cons.inj (Prod.mk.inj (Option.some.inj h)).1).1
    · exact (List.cons.inj (Prod.mk.inj (Option.some.inj h)).1).1
    · cases h

/-! ### Tables -/

/-- A line: a name that is printed between quotes as it is, and fields behind it. -/
structure Row where
  name : Bytes
  fields : List (Bytes × Bytes)
  fields_ne : fields ≠ []
  reads : ∀ field ∈ fields, Field field.1 field.2

def Row.text (row : Row) : Bytes :=
  0x22 :: (row.name ++ 0x22 :: 0x2C :: ([0x2C].intercalate (row.fields.map Prod.fst) ++ [0x0A]))

def Row.values (row : Row) : List Bytes := row.name :: row.fields.map Prod.snd

/-- **One line** is read back if its name has no quote. -/
theorem readRecord_row_iff (row : Row) {fuel : Nat} (hfuel : row.fields.length < fuel)
    {rest rest' : Bytes} : readRecord fuel (row.text ++ rest) = some (row.values, rest') ↔
      (0x22 : UInt8) ∉ row.name ∧ rest' = rest := by
  have htext : row.text ++ rest = 0x22 :: (row.name ++ 0x22 :: 0x2C ::
      ([0x2C].intercalate (row.fields.map Prod.fst) ++ 0x0A :: rest)) := by
    rw [Row.text]
    simp only [List.cons_append, List.append_assoc, List.nil_append]
  have hread : (0x22 : UInt8) ∉ row.name →
      readRecord fuel (row.text ++ rest) = some (row.values, rest) := by
    intro hmem
    obtain ⟨fuel, rfl⟩ := Nat.exists_eq_add_one.mpr (Nat.zero_lt_of_lt hfuel)
    have hname : readField (row.text ++ rest) = some (row.name, 0x2C ::
        ([0x2C].intercalate (row.fields.map Prod.fst) ++ 0x0A :: rest)) := by
      rw [htext]
      exact readQuoted_of_not_mem hmem (by decide) _
    rw [readRecord, hname]
    have hrest := readRecord_fields row.fields_ne row.reads rest (Nat.le_of_lt_succ hfuel)
    simp only [Option.bind_eq_bind, Option.bind_some, hrest]
    rfl
  constructor
  · intro h
    obtain ⟨rest'', hfield⟩ := readField_of_readRecord h
    rw [htext] at hfield
    have hmem := ((readQuoted_raw (by decide)).mp hfield).1
    rw [hread hmem] at h
    exact ⟨hmem, (Prod.mk.inj (Option.some.inj h)).2.symm⟩
  · rintro ⟨hmem, rfl⟩
    exact hread hmem

theorem length_intercalate_fields (fields : List (Bytes × Bytes)) :
    fields.length ≤ ([0x2C].intercalate (fields.map Prod.fst)).length + 1 := by
  induction fields with
  | nil => exact Nat.zero_le _
  | cons field fields ih =>
    cases fields with
    | nil => simp
    | cons field' fields =>
      rw [List.map_cons, List.map_cons, List.intercalate_cons_cons, ← List.map_cons]
      simp only [List.length_append, List.length_cons, List.length_nil] at ih ⊢
      omega

/-- The records of a text that is not empty. -/
theorem readRecords_eq_some {fuel : Nat} {text : Bytes} (htext : text ≠ []) {record : List Bytes}
    {records : List (List Bytes)} : readRecords (fuel + 1) text = some (record :: records) ↔
      ∃ rest, readRecord (text.length + 1) text = some (record, rest) ∧
        readRecords fuel rest = some records := by
  cases text with
  | nil => exact absurd rfl htext
  | cons c text =>
    rw [readRecords.eq_def]
    simp only
    constructor
    · intro h
      obtain ⟨⟨record', rest⟩, hrecord, h⟩ := Option.bind_eq_some_iff.mp h
      obtain ⟨records', hrecords, h⟩ := Option.bind_eq_some_iff.mp h
      obtain ⟨rfl, rfl⟩ := List.cons.inj (Option.some.inj h)
      exact ⟨rest, hrecord, hrecords⟩
    · rintro ⟨rest, hrecord, hrecords⟩
      exact Option.bind_eq_some_iff.mpr ⟨_, hrecord, Option.bind_eq_some_iff.mpr ⟨_, hrecords, rfl⟩⟩

/-- **A table is read back** exactly when no name has a quote. -/
theorem parse_rows_iff (rows : List Row) :
    parse (rows.flatMap Row.text) = some (rows.map Row.values) ↔
      ∀ row ∈ rows, (0x22 : UInt8) ∉ row.name := by
  have hrecords : ∀ {fuel : Nat}, rows.length < fuel →
      (readRecords fuel (rows.flatMap Row.text) = some (rows.map Row.values) ↔
        ∀ row ∈ rows, (0x22 : UInt8) ∉ row.name) := by
    induction rows with
    | nil =>
      intro fuel hfuel
      obtain ⟨fuel, rfl⟩ := Nat.exists_eq_add_one.mpr (Nat.zero_lt_of_lt hfuel)
      exact ⟨fun _ row hrow => absurd hrow List.not_mem_nil, fun _ => rfl⟩
    | cons row rows ih =>
      intro fuel hfuel
      obtain ⟨fuel, rfl⟩ := Nat.exists_eq_add_one.mpr (Nat.zero_lt_of_lt hfuel)
      have hih := ih (Nat.lt_of_succ_lt_succ hfuel)
      have hlength : row.fields.length < (row.text ++ rows.flatMap Row.text).length + 1 := by
        have := length_intercalate_fields row.fields
        simp only [Row.text, List.cons_append, List.append_assoc, List.length_cons, List.length_append]
        omega
      have hone : ∀ rest', readRecord ((row.text ++ rows.flatMap Row.text).length + 1)
          (row.text ++ rows.flatMap Row.text) = some (row.values, rest') ↔
            (0x22 : UInt8) ∉ row.name ∧ rest' = rows.flatMap Row.text :=
        fun rest' => readRecord_row_iff row hlength
      have hne : row.text ++ rows.flatMap Row.text ≠ [] := List.cons_ne_nil _ _
      rw [List.flatMap_cons, List.map_cons, List.forall_mem_cons, ← hih, readRecords_eq_some hne]
      constructor
      · rintro ⟨rest, hrecord, hrecords⟩
        obtain ⟨hmem, rfl⟩ := (hone rest).mp hrecord
        exact ⟨hmem, hrecords⟩
      · rintro ⟨hmem, hrecords⟩
        exact ⟨_, (hone _).mpr ⟨hmem, rfl⟩, hrecords⟩
  refine hrecords (Nat.lt_succ_of_le ?_)
  clear hrecords
  induction rows with
  | nil => exact Nat.zero_le _
  | cons row rows ih =>
    rw [List.flatMap_cons, List.length_append, List.length_cons, Nat.add_comm]
    exact Nat.add_le_add (Nat.succ_pos _) ih

end Lib.Csv
