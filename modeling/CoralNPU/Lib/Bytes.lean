import CoralNPU.Lib.Except
import CoralNPU.Lib.Memory

namespace Lib

/-!
# Checked reads of byte strings

A program that reads a byte string, with every access checked against its length.

* `ReadError`, `Read` — the errors of the program, and the access out of bounds.
* `readAt`, `numAt` — a part of the string, and a little-endian number in it.
* `InBounds` — the program makes no access out of bounds; `InBounds.bind` is the rule for a
  sequence.
* `memchr`, `strcmp` — the two C functions, for the character `'\0'` and for equality, byte by
  byte.  `memchr_eq` and `strcmp_eq` say what they compute: `cString`, the string up to its
  terminator.
-/

variable {ε α β : Type}

/-- Why a program that reads a byte string ends early. -/
inductive ReadError (ε : Type)
  | failed (error : ε)
  | outOfBounds
  deriving DecidableEq, Repr

/-- The result of a program that reads a byte string. -/
abbrev Read (ε α : Type) := Except (ReadError ε) α

/-- No access is out of bounds. -/
def InBounds (x : Read ε α) : Prop := x ≠ .error .outOfBounds

/-- A value was not read out of bounds. -/
theorem InBounds.ok (a : α) : InBounds (.ok a : Read ε α) := fun h => by cases h

/-- Nor was an error that the program reports. -/
theorem InBounds.failed (e : ε) : InBounds (.error (.failed e) : Read ε α) := fun h => by cases h

/-- A sequence is in bounds when its parts are. -/
theorem InBounds.bind {x : Read ε α} {f : α → Read ε β} (hx : InBounds x)
    (hf : ∀ a, x = .ok a → InBounds (f a)) : InBounds (x >>= f) := by
  intro h
  rcases bind_eq_error.mp h with hx' | ⟨a, ha, hfa⟩
  · exact hx hx'
  · exact hf a ha hfa

/-! ### Parts of a byte string -/

/-- The `size` bytes at `offset`. -/
def readAt (bytes : List UInt8) (offset size : Nat) : Read ε (List UInt8) :=
  if offset + size ≤ bytes.length then .ok ((bytes.drop offset).take size)
  else .error .outOfBounds

/-- The little-endian number of `w` bytes at `offset`. -/
def numAt (w : Nat) (bytes : List UInt8) (offset : Nat) : Nat :=
  ofLE ((bytes.drop offset).take w)

/-- A read within the bytes. -/
theorem readAt_eq {bytes : List UInt8} {offset size : Nat} (h : offset + size ≤ bytes.length) :
    readAt bytes offset size = (.ok ((bytes.drop offset).take size) : Read ε _) :=
  if_pos h

/-- A part has the length asked for. -/
theorem length_part {bytes : List UInt8} {offset size : Nat}
    (h : offset + size ≤ bytes.length) : ((bytes.drop offset).take size).length = size := by
  rw [List.length_take, List.length_drop]
  omega

/-! ### Terminated strings -/

/-- The string up to its terminator, if there is one. -/
def cString (bytes : List UInt8) : Option (List UInt8) :=
  if 0 ∈ bytes then some (bytes.takeWhile (· ≠ 0)) else none

/-- The byte at `offset`. -/
def readByte (bytes : List UInt8) (offset : Nat) : Read ε UInt8 :=
  match bytes[offset]? with
  | some byte => .ok byte
  | none => .error .outOfBounds

/-- `memchr(bytes + offset, '\0', remaining) != NULL` -/
def memchr (bytes : List UInt8) (offset : Nat) : Nat → Read ε Bool
  | 0 => .ok false
  | remaining + 1 => do
    let byte ← readByte bytes offset
    if byte = 0 then return true
    else memchr bytes (offset + 1) remaining

/-- `strcmp(bytes + offset, expected) == 0` -/
def strcmp (bytes : List UInt8) (offset : Nat) : List UInt8 → Read ε Bool
  | [] => do
    let byte ← readByte bytes offset
    return byte = 0
  | c :: expected => do
    let byte ← readByte bytes offset
    if byte = c then strcmp bytes (offset + 1) expected
    else return false

/-- The byte at an offset. -/
theorem readByte_eq {bytes : List UInt8} {offset : Nat} {b : UInt8} {rest : List UInt8}
    (h : bytes.drop offset = b :: rest) : readByte bytes offset = (.ok b : Read ε _) := by
  have hget : bytes[offset]? = some b := by
    rw [← List.head?_drop, h, List.head?_cons]
  rw [readByte, hget]

/-- The bytes after it. -/
theorem drop_succ_of_cons {bytes : List UInt8} {offset : Nat} {b : UInt8} {rest : List UInt8}
    (h : bytes.drop offset = b :: rest) : bytes.drop (offset + 1) = rest := by
  rw [← List.tail_drop, h, List.tail_cons]

/-- What `memchr` computes, when it may look at the rest of the string. -/
theorem memchr_eq {bytes rest : List UInt8} :
    ∀ {offset : Nat}, bytes.drop offset = rest →
      memchr bytes offset rest.length = (.ok (decide (0 ∈ rest)) : Read ε _) := by
  induction rest with
  | nil => intro offset _; simp [memchr]
  | cons b rest ih =>
    intro offset h
    rw [List.length_cons, memchr, readByte_eq h, ok_bind]
    split
    next hb => simp [hb]
    next hb =>
      rw [ih (drop_succ_of_cons h)]
      simp [Ne.symm hb]

/-- What `strcmp` computes, for a string that has its terminator: it stops there. -/
theorem strcmp_eq {bytes expected : List UInt8} (hexpected : 0 ∉ expected) :
    ∀ {offset : Nat}, 0 ∈ bytes.drop offset →
      strcmp bytes offset expected
        = (.ok (decide (cString (bytes.drop offset) = some expected)) : Read ε _) := by
  induction expected with
  | nil =>
    intro offset hterminated
    obtain ⟨b, rest, hdrop⟩ := List.exists_cons_of_ne_nil (List.ne_nil_of_mem hterminated)
    rw [strcmp, readByte_eq hdrop, ok_bind, cString, if_pos hterminated, hdrop]
    by_cases hb : b = 0
    · simp [hb]
    · simp [hb]
  | cons c expected ih =>
    intro offset hterminated
    obtain ⟨hc, hexpected'⟩ : (0 : UInt8) ≠ c ∧ 0 ∉ expected := by simpa using hexpected
    obtain ⟨b, rest, hdrop⟩ := List.exists_cons_of_ne_nil (List.ne_nil_of_mem hterminated)
    rw [strcmp, readByte_eq hdrop, ok_bind]
    split
    next hb =>
      subst hb
      -- the terminator is further on
      have hrest : 0 ∈ bytes.drop (offset + 1) := by
        rw [drop_succ_of_cons hdrop]
        rw [hdrop] at hterminated
        exact (List.mem_cons.mp hterminated).resolve_left hc
      rw [ih hexpected' hrest, cString, cString, if_pos hterminated, if_pos hrest, hdrop,
        drop_succ_of_cons hdrop]
      simp [hc.symm]
    next hb =>
      rw [cString, if_pos hterminated, hdrop]
      by_cases hzero : b = 0
      · simp [hzero]
      · simp [hzero, hb]

end Lib
