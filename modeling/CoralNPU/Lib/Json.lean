import CoralNPU.Lib.Decimal

namespace Lib

/-!
# JSON texts

A reader for JSON texts as sequences of bytes, as RFC 8259 defines them.

* `Json` — the values; an object keeps its members in the order of the text, with repeated names.
* `readString`, `readNumber`, `readValue`, `parse` — the reader.  It fails on what is not JSON, on
  half of a surrogate pair and on a string that is not UTF-8.
-/

/-- A sequence of bytes. -/
abbrev Bytes := List UInt8

/-- The bytes of a text in UTF-8. -/
def utf8 (text : List Char) : Bytes := text.flatMap String.utf8EncodeChar

/-- The bytes of a string literal. -/
def literal (s : String) : Bytes := utf8 s.toList

/-- The bytes are a text in UTF-8. -/
def IsUtf8 (bytes : Bytes) : Prop := ∃ text, bytes = utf8 text

/-- It can be decided whether bytes are UTF-8. -/
instance decidableIsUtf8 (bytes : Bytes) : Decidable (IsUtf8 bytes) :=
  decidable_of_iff bytes.toByteArray.IsValidUTF8 <| by
    constructor
    · rintro ⟨text, h⟩
      refine ⟨text, ?_⟩
      have hdata := congrArg (fun b : ByteArray => b.data.toList) h
      simpa only [List.utf8Encode, List.data_toByteArray, utf8] using hdata
    · rintro ⟨text, rfl⟩
      exact ⟨text, rfl⟩

/-- The values. The number is `mantissa * 10 ^ exponent`. -/
inductive Json
  | null
  | bool (b : Bool)
  | num (mantissa exponent : Int)
  | str (s : Bytes)
  | arr (items : List Json)
  | obj (members : List (Bytes × Json))

namespace Json

/-! ### White space -/

/-- A space, a tab or the end of a line. -/
def isSpace (c : UInt8) : Bool := c = 0x20 || c = 0x09 || c = 0x0A || c = 0x0D

/-- The text after white space. -/
def skipSpace (text : Bytes) : Bytes := text.dropWhile isSpace

/-- The text after white space and the byte. -/
def token (c : UInt8) (text : Bytes) : Option Bytes :=
  match skipSpace text with
  | [] => none
  | b :: rest => if b = c then some rest else none

/-! ### Strings -/

/-- A hexadecimal digit. -/
def isHex (c : UInt8) : Bool :=
  (0x30 ≤ c && c ≤ 0x39) || (0x41 ≤ c && c ≤ 0x46) || (0x61 ≤ c && c ≤ 0x66)

/-- Its value. -/
def hexValue (c : UInt8) : Nat :=
  if c ≤ 0x39 then c.toNat - 0x30 else if c ≤ 0x46 then c.toNat - 0x37 else c.toNat - 0x57

/-- Four hexadecimal digits. -/
def readHex (text : Bytes) : Option (Nat × Bytes) :=
  if (text.take 4).length = 4 ∧ (text.take 4).all isHex then
    some ((text.take 4).foldl (fun n c => 16 * n + hexValue c) 0, text.drop 4)
  else none

/-- What follows `\u`: a character, or the first half of a surrogate pair and the second. -/
def readUnicode (text : Bytes) : Option (Bytes × Bytes) := do
  let (high, rest) ← readHex text
  -- outside of the surrogates a character stands alone
  if high < 0xD800 ∨ 0xE000 ≤ high then return (utf8 [Char.ofNat high], rest)
  else if 0xDC00 ≤ high ∨ rest.take 2 ≠ [0x5C, 0x75] then none
  else
    let (low, rest) ← readHex (rest.drop 2)
    if 0xDC00 ≤ low ∧ low < 0xE000 then
      return (utf8 [Char.ofNat (0x10000 + (high - 0xD800) * 0x400 + (low - 0xDC00))], rest)
    else none

/-- The escapes of one character. -/
def escapes : List (UInt8 × UInt8) :=
  [(0x22, 0x22), (0x5C, 0x5C), (0x2F, 0x2F), (0x62, 0x08), (0x66, 0x0C), (0x6E, 0x0A), (0x72, 0x0D),
    (0x74, 0x09)]

/-- What follows a backslash. -/
def readEscape : Bytes → Option (Bytes × Bytes)
  | [] => none
  | c :: rest =>
    if c = 0x75 then readUnicode rest else (escapes.lookup c).map fun b => ([b], rest)

/-- What follows the opening quote, up to the closing one. -/
def readChars : Nat → Bytes → Option (Bytes × Bytes)
  | 0, _ => none
  | _ + 1, [] => none
  | fuel + 1, c :: rest =>
    if c = 0x22 then some ([], rest)
    else if c = 0x5C then do
      let (bytes, rest) ← readEscape rest
      let (s, rest) ← readChars fuel rest
      return (bytes ++ s, rest)
    -- control characters are written as escapes only
    else if c < 0x20 then none
    else do
      let (s, rest) ← readChars fuel rest
      return (c :: s, rest)

/-- The characters up to the closing quote, if they are UTF-8. -/
def readString (fuel : Nat) (text : Bytes) : Option (Bytes × Bytes) := do
  let (s, rest) ← readChars fuel text
  if IsUtf8 s then return (s, rest) else none

/-! ### Numbers and words -/

/-- A decimal digit. -/
def isDigit (c : UInt8) : Bool := 0x30 ≤ c && c ≤ 0x39

/-- The value of decimal digits. -/
def digitsNat (digits : Bytes) : Nat := digits.foldl (fun n c => 10 * n + (c.toNat - 0x30)) 0

/-- The digits of the fraction, if there is one. -/
def readFraction : Bytes → Option (Bytes × Bytes)
  | [] => some ([], [])
  | c :: rest =>
    if c = 0x2E then
      if rest.takeWhile isDigit = [] then none
      else some (rest.takeWhile isDigit, rest.dropWhile isDigit)
    else some ([], c :: rest)

/-- A sign of the exponent and the text after it. -/
def readSign : Bytes → Bool × Bytes
  | [] => (false, [])
  | c :: rest =>
    if c = 0x2D then (true, rest)
    else if c = 0x2B then (false, rest)
    else (false, c :: rest)

/-- The exponent, if there is one. -/
def readExponent : Bytes → Option (Int × Bytes)
  | [] => some (0, [])
  | c :: rest =>
    if c = 0x65 ∨ c = 0x45 then
      let (negative, rest) := readSign rest
      let digits := rest.takeWhile isDigit
      if digits = [] then none
      else
        some (if negative then -(digitsNat digits : Int) else digitsNat digits,
          rest.dropWhile isDigit)
    else some (0, c :: rest)

/-- The number after its minus sign. -/
def readUnsigned (text : Bytes) : Option (Nat × Int × Bytes) := do
  let digits := text.takeWhile isDigit
  -- no number starts with a zero and another digit
  if digits = [] ∨ (digits.head? = some 0x30 ∧ 1 < digits.length) then none
  else
    let (fraction, rest) ← readFraction (text.dropWhile isDigit)
    let (exponent, rest) ← readExponent rest
    return (digitsNat (digits ++ fraction), exponent - fraction.length, rest)

/-- A number, with its sign. -/
def readNumber : Bytes → Option (Json × Bytes)
  | [] => none
  | c :: rest =>
    if c = 0x2D then
      (readUnsigned rest).map fun (mantissa, exponent, rest) =>
        (.num (-(mantissa : Int)) exponent, rest)
    else
      (readUnsigned (c :: rest)).map fun (mantissa, exponent, rest) => (.num mantissa exponent, rest)

/-- The words and their values. -/
def words : List (Bytes × Json) :=
  [(literal "null", .null), (literal "true", .bool true), (literal "false", .bool false)]

/-- One of the words. -/
def readWord (text : Bytes) : Option (Json × Bytes) :=
  words.findSome? fun (word, value) =>
    if word.isPrefixOf text then some (value, text.drop word.length) else none

/-! ### Values -/

mutual

/-- A value, with fuel for its parts. -/
def readValue : Nat → Bytes → Option (Json × Bytes)
  | 0, _ => none
  | fuel + 1, text =>
    match skipSpace text with
    | [] => none
    | c :: rest =>
      if c = 0x22 then (readString fuel rest).map fun (s, rest) => (.str s, rest)
      else if c = 0x7B then
        match token 0x7D rest with
        | some rest => some (.obj [], rest)
        | none => (readMembers fuel rest).map fun (members, rest) => (.obj members, rest)
      else if c = 0x5B then
        match token 0x5D rest with
        | some rest => some (.arr [], rest)
        | none => (readItems fuel rest).map fun (items, rest) => (.arr items, rest)
      else (readWord (c :: rest)).or (readNumber (c :: rest))

/-- The members of an object and its end. -/
def readMembers : Nat → Bytes → Option (List (Bytes × Json) × Bytes)
  | 0, _ => none
  | fuel + 1, text => do
    let rest ← token 0x22 text
    let (name, rest) ← readString fuel rest
    let rest ← token 0x3A rest
    let (value, rest) ← readValue fuel rest
    match token 0x2C rest with
    | some rest =>
      (readMembers fuel rest).map fun (members, rest) => ((name, value) :: members, rest)
    | none => (token 0x7D rest).map fun rest => ([(name, value)], rest)

/-- The items of an array and its end. -/
def readItems : Nat → Bytes → Option (List Json × Bytes)
  | 0, _ => none
  | fuel + 1, text => do
    let (value, rest) ← readValue fuel text
    match token 0x2C rest with
    | some rest => (readItems fuel rest).map fun (items, rest) => (value :: items, rest)
    | none => (token 0x5D rest).map fun rest => ([value], rest)

end

/-- The value of a whole text. -/
def parse (text : Bytes) : Option Json := do
  let (value, rest) ← readValue (text.length + 1) text
  if skipSpace rest = [] then return value else none

end Json

end Lib
