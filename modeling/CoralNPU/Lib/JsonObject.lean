import CoralNPU.Lib.JsonText

namespace Lib

namespace Json

/-!
# Objects with one member in a line

* `Member` — a name, and a text that is read as a value.
* `objectText` — the object with every member in a line, behind an indentation.
* `reads_objectText` — it is read back if the names are plain.
-/

/-- A name and the text of a value. -/
structure Member where
  name : Bytes
  text : Bytes
  value : Json
  reads : Reads text value

/-- The member of the object. -/
def Member.entry (m : Member) : Bytes × Json := (m.name, m.value)

/-- `"name": value` -/
def memberText (name value : Bytes) : Bytes := 0x22 :: (name ++ 0x22 :: 0x3A :: 0x20 :: value)

/-- The members after the first, every one after a comma and in a line of its own. -/
def followers (indent : Bytes) (members : List Member) : Bytes :=
  members.flatMap fun m => 0x2C :: 0x0A :: (indent ++ memberText m.name m.text)

/-- An object with one member in a line. The closing brace stands in the last line. -/
def objectText (indent outer : Bytes) (members : List Member) : Bytes :=
  0x7B :: 0x0A ::
    ([0x2C, 0x0A].intercalate (members.map fun m => indent ++ memberText m.name m.text) ++
      0x0A :: (outer ++ [0x7D]))

variable {indent outer : Bytes} {m : Member} {members : List Member}

/-- The text of an object with members. -/
theorem objectText_cons :
    objectText indent outer (m :: members) = 0x7B :: ((0x0A :: indent) ++
      (memberText m.name m.text ++ (followers indent members ++ 0x0A :: (outer ++ [0x7D])))) := by
  rw [objectText, List.map_cons, intercalate_cons_eq, List.flatMap_map, followers, List.append_assoc,
    List.append_assoc]
  rfl

/-- The length of the members after the first. -/
theorem length_followers_cons : (followers indent (m :: members)).length
    = indent.length + (memberText m.name m.text).length + (followers indent members).length + 2 := by
  rw [followers, List.flatMap_cons, ← followers, List.length_append, List.length_cons,
    List.length_cons, List.length_append]
  omega

/-- A member is its name and its value, with two quotes, a colon and a space. -/
theorem length_memberText (name value : Bytes) :
    (memberText name value).length = name.length + value.length + 4 := by
  rw [memberText, List.length_cons, List.length_append, List.length_cons, List.length_cons,
    List.length_cons]
  omega

/-- Fuel for an object is fuel for its members. -/
theorem length_lt_of_objectText {fuel : Nat}
    (hfuel : (objectText indent outer (m :: members)).length < fuel + 1) :
    (memberText m.name m.text ++ followers indent members).length < fuel := by
  simp only [objectText_cons, List.length_cons, List.length_append] at hfuel ⊢
  omega

/-- What follows a member follows its value. -/
theorem memberText_append (name value more : Bytes) :
    memberText name value ++ more = memberText name (value ++ more) := by
  simp only [memberText, List.cons_append, List.append_assoc]

/-! ### One member -/

/-- What follows the value of a member: the next members or the end of the object. -/
def afterValue (fuel : Nat) (name : Bytes) (read : Json × Bytes) :
    Option (List (Bytes × Json) × Bytes) :=
  match token 0x2C read.2 with
  | some rest =>
    (readMembers fuel rest).map fun (members, rest) => ((name, read.1) :: members, rest)
  | none => (token 0x7D read.2).map fun rest => ([(name, read.1)], rest)

/-- A member with a plain name, up to its value. -/
theorem readMembers_memberText {space name text : Bytes} (hspace : ∀ c ∈ space, isSpace c = true)
    (hname : Plain name) {fuel : Nat} (hfuel : name.length < fuel) :
    readMembers (fuel + 1) (space ++ memberText name text)
      = (readValue fuel text).bind (afterValue fuel name) := by
  have hcolon : token 0x3A (0x3A :: 0x20 :: text) = some ([0x20] ++ text) := token_cons (by decide) _
  rw [readMembers, token_append hspace, memberText, token_cons (by decide), Option.bind_eq_bind,
    Option.bind_some, readString_plain hname hfuel, Option.bind_eq_bind, Option.bind_some]
  dsimp only
  rw [hcolon, Option.bind_eq_bind, Option.bind_some, readValue_append (List.all_eq_true.mp rfl)]
  rfl

/-- What comes after a value ends a number. -/
theorem ends_followers (members : List Member) (rest : Bytes) :
    Ends (followers indent members ++ 0x0A :: (outer ++ 0x7D :: rest)) := by
  cases members with
  | nil =>
    intro c hc
    obtain rfl := Option.some.inj hc
    exact Or.inl rfl
  | cons m members =>
    intro c hc
    obtain rfl := Option.some.inj hc
    exact Or.inr (Or.inl rfl)

/-! ### All members -/

section

variable (hindent : ∀ c ∈ indent, isSpace c = true) (houter : ∀ c ∈ outer, isSpace c = true)

include hindent houter

/-- A member with a plain name, the members after it and the end of the object. -/
theorem readMembers_cons (hname : Plain m.name) {fuel : Nat}
    (hfuel : (memberText m.name m.text).length ≤ fuel) (rest : Bytes) :
    readMembers (fuel + 1) ((0x0A :: indent) ++ (memberText m.name m.text ++
      (followers indent members ++ 0x0A :: (outer ++ 0x7D :: rest)))) =
      match members with
      | [] => some ([m.entry], rest)
      | m' :: members =>
        (readMembers fuel ((0x0A :: indent) ++ (memberText m'.name m'.text ++
          (followers indent members ++ 0x0A :: (outer ++ 0x7D :: rest))))).map fun (members, rest) =>
            (m.entry :: members, rest) := by
  rw [length_memberText] at hfuel
  have hspace : ∀ c ∈ (0x0A : UInt8) :: indent, isSpace c = true :=
    List.forall_mem_cons.mpr ⟨rfl, hindent⟩
  rw [memberText_append, readMembers_memberText hspace hname (by omega),
    m.reads fuel _ (by omega) (ends_followers members rest), Option.bind_some, afterValue]
  cases members with
  | nil =>
    -- after the last member there is no comma
    have hclose : ∀ c, token c (0x0A :: (outer ++ 0x7D :: rest)) = token c (0x7D :: rest) := fun c =>
      @token_append (0x0A :: outer) (List.forall_mem_cons.mpr ⟨rfl, houter⟩) c (0x7D :: rest)
    rw [followers, List.flatMap_nil, List.nil_append, hclose, hclose,
      token_cons_of_ne (by decide) (by decide), token_cons (by decide)]
    rfl
  | cons m' members =>
    -- the next member stands in a new line
    have hnext : followers indent (m' :: members) ++ 0x0A :: (outer ++ 0x7D :: rest)
        = 0x2C :: ((0x0A :: indent) ++ (memberText m'.name m'.text ++
          (followers indent members ++ 0x0A :: (outer ++ 0x7D :: rest)))) := by
      rw [followers, List.flatMap_cons, ← followers]
      simp only [List.cons_append, List.append_assoc]
    rw [hnext, token_cons (by decide)]
    rfl

/-- **The members are read back**, if their names have no escapes. -/
theorem readMembers_of_plain (rest : Bytes) :
    ∀ {m : Member} {fuel : Nat}, (∀ x ∈ m :: members, Plain x.name) →
      (memberText m.name m.text ++ followers indent members).length < fuel →
      readMembers fuel ((0x0A :: indent) ++ (memberText m.name m.text ++
        (followers indent members ++ 0x0A :: (outer ++ 0x7D :: rest))))
        = some ((m :: members).map Member.entry, rest) := by
  induction members with
  | nil =>
    intro m fuel hplain hfuel
    obtain ⟨fuel, rfl⟩ := Nat.exists_eq_add_one.mpr (Nat.zero_lt_of_lt hfuel)
    rw [List.length_append] at hfuel
    exact readMembers_cons hindent houter (hplain m List.mem_cons_self) (by omega) rest
  | cons m' members ih =>
    intro m fuel hplain hfuel
    obtain ⟨fuel, rfl⟩ := Nat.exists_eq_add_one.mpr (Nat.zero_lt_of_lt hfuel)
    rw [List.length_append, length_followers_cons] at hfuel
    rw [readMembers_cons hindent houter (hplain m List.mem_cons_self) (by omega)]
    dsimp only
    rw [ih (fun x hx => hplain x (List.mem_cons_of_mem _ hx)) (by rw [List.length_append]; omega)]
    rfl

/-! ### The object -/

omit houter in
/-- The first brace of an object with members. -/
theorem readValue_objectText_cons (fuel : Nat) (rest : Bytes) :
    readValue (fuel + 1) (objectText indent outer (m :: members) ++ rest) =
      (readMembers fuel ((0x0A :: indent) ++ (memberText m.name m.text ++
        (followers indent members ++ 0x0A :: (outer ++ 0x7D :: rest))))).map fun (members, rest) =>
          (.obj members, rest) := by
  have htext : objectText indent outer (m :: members) ++ rest
      = 0x7B :: ((0x0A :: indent) ++ (memberText m.name m.text ++
        (followers indent members ++ 0x0A :: (outer ++ 0x7D :: rest)))) := by
    rw [objectText_cons]
    simp only [List.cons_append, List.append_assoc, List.nil_append]
  have hopen : token 0x7D ((0x0A :: indent) ++ (memberText m.name m.text ++
      (followers indent members ++ 0x0A :: (outer ++ 0x7D :: rest)))) = none := by
    rw [token_append (List.forall_mem_cons.mpr ⟨rfl, hindent⟩), memberText, List.cons_append]
    exact token_cons_of_ne (by decide) (by decide) _
  rw [htext, readValue, skipSpace_cons (by decide)]
  dsimp only
  rw [if_neg (by decide), if_pos rfl, hopen]

/-- **An object is read back** if the names of its members are plain. -/
theorem reads_objectText (hplain : ∀ x ∈ members, Plain x.name) :
    Reads (objectText indent outer members) (.obj (members.map Member.entry)) := by
  intro fuel rest hfuel _
  obtain ⟨fuel, rfl⟩ := Nat.exists_eq_add_one.mpr (Nat.zero_lt_of_lt hfuel)
  cases members with
  | nil =>
    -- white space only, between the braces
    have hclose : token 0x7D ((0x0A :: 0x0A :: outer) ++ 0x7D :: rest) = some rest := by
      rw [token_append, token_cons (by decide)]
      exact List.forall_mem_cons.mpr ⟨rfl, List.forall_mem_cons.mpr ⟨rfl, houter⟩⟩
    have htext : objectText indent outer [] ++ rest
        = 0x7B :: ((0x0A :: 0x0A :: outer) ++ 0x7D :: rest) := by
      rw [objectText, List.map_nil, List.intercalate_nil]
      simp only [List.cons_append, List.append_assoc, List.nil_append]
    rw [htext, readValue, skipSpace_cons (by decide)]
    dsimp only
    rw [if_neg (by decide), if_pos rfl, hclose]
    rfl
  | cons m members =>
    rw [readValue_objectText_cons hindent,
      readMembers_of_plain hindent houter rest hplain (length_lt_of_objectText hfuel)]
    rfl

end

end Json

end Lib
