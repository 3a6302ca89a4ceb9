import Mathlib.Data.List.Basic

namespace Lib

/-!
# Instruction formats

An instruction word of `W` bits as a list of fields, from the most significant one on.  A field has
fixed bits or is an operand.

* `BitField`, `widthOf`, `Operands` — the fields of an instruction, and values for its operands.
* `assemble`, `extract` — from the operands to the word and back.
* `extract_assemble`, `assemble_extract` — they are inverse to each other.
* `fixedAt`, `Clash` — two lists of fields that no word has both of.
* `encode`, `decode` — a set of instructions, of which some are enabled.
* `decode_eq_some_iff` — when all pairs clash, decoding is the inverse of encoding.
-/

/-! ### Fields -/

/-- A field: fixed bits, or an operand. -/
inductive BitField (ν : Type)
  | fixed {width : Nat} (bits : BitVec width)
  | operand (name : ν) (width : Nat)

variable {ν ι : Type} {W : Nat}

def BitField.width : BitField ν → Nat
  | @fixed _ width _ => width
  | .operand _ width => width

/-- The width of all fields. -/
def widthOf : List (BitField ν) → Nat
  | [] => 0
  | f :: fs => f.width + widthOf fs

/-- Values for the operands. -/
inductive Operands : List (BitField ν) → Type
  | nil : Operands []
  | fixed {width : Nat} {bits : BitVec width} {fs : List (BitField ν)} (rest : Operands fs) :
      Operands (.fixed bits :: fs)
  | operand {name : ν} {width : Nat} {fs : List (BitField ν)} (value : BitVec width)
      (rest : Operands fs) : Operands (.operand name width :: fs)

/-- The word with these operands. -/
def assemble (W : Nat) : (fs : List (BitField ν)) → Operands fs → BitVec W
  | [], .nil => 0#W
  | .fixed bits :: fs, .fixed ops => bits.setWidth W <<< widthOf fs ||| assemble W fs ops
  | .operand _ _ :: fs, .operand value ops =>
    value.setWidth W <<< widthOf fs ||| assemble W fs ops

/-- The operands of a word, if it has the fixed bits. -/
def extract (word : BitVec W) : (fs : List (BitField ν)) → Option (Operands fs)
  | [] => some .nil
  | @BitField.fixed _ width bits :: fs =>
    if word.extractLsb' (widthOf fs) width = bits then (extract word fs).map .fixed else none
  | .operand _ width :: fs => (extract word fs).map (.operand (word.extractLsb' (widthOf fs) width))

/-! ### Words -/

/-- A value in front of lower bits. -/
theorem getLsbD_field {w : Nat} (value : BitVec w) (low : BitVec W) {k : Nat}
    (hlow : ∀ i, k ≤ i → low.getLsbD i = false) {i : Nat} (hi : i < W) :
    (value.setWidth W <<< k ||| low).getLsbD i =
      if i < k then low.getLsbD i else value.getLsbD (i - k) := by
  rw [BitVec.getLsbD_or, BitVec.getLsbD_shiftLeft, BitVec.getLsbD_setWidth]
  by_cases hik : i < k
  · simp [hik]
  · have hlt : i - k < W := Nat.lt_of_le_of_lt (Nat.sub_le i k) hi
    rw [hlow i (Nat.not_lt.mp hik), if_neg hik, decide_eq_true hi, decide_eq_true hlt,
      decide_eq_false hik, Bool.not_false, Bool.true_and, Bool.true_and, Bool.true_and,
      Bool.or_false]

/-- The fields end at their width. -/
theorem getLsbD_assemble_of_le (fs : List (BitField ν)) (ops : Operands fs) {i : Nat}
    (hi : widthOf fs ≤ i) : (assemble W fs ops).getLsbD i = false := by
  have hfield : ∀ {w : Nat} (value : BitVec w) (fs : List (BitField ν)), w + widthOf fs ≤ i →
      (value.setWidth W <<< widthOf fs).getLsbD i = false := by
    intro w value fs hle
    rw [BitVec.getLsbD_shiftLeft, BitVec.getLsbD_setWidth,
      BitVec.getLsbD_of_ge value (i - widthOf fs) (by omega)]
    simp
  induction ops with
  | nil => exact BitVec.getLsbD_zero
  | @fixed width bits fs ops ih =>
    rw [assemble, BitVec.getLsbD_or, hfield bits fs hi, ih (Nat.le_trans (Nat.le_add_left _ _) hi)]
    rfl
  | @operand name width fs value ops ih =>
    rw [assemble, BitVec.getLsbD_or, hfield value fs hi, ih (Nat.le_trans (Nat.le_add_left _ _) hi)]
    rfl

/-- The value that stands in front of lower bits. -/
theorem extractLsb'_field {w : Nat} (value : BitVec w) (low : BitVec W) {k : Nat}
    (hlow : ∀ i, k ≤ i → low.getLsbD i = false) (hW : w + k ≤ W) :
    (value.setWidth W <<< k ||| low).extractLsb' k w = value := by
  refine BitVec.eq_of_getLsbD_eq fun i hi => ?_
  rw [BitVec.getLsbD_extractLsb', getLsbD_field value low hlow (by omega),
    if_neg (Nat.not_lt.mpr (Nat.le_add_right k i)), Nat.add_sub_cancel_left, decide_eq_true hi,
    Bool.true_and]

/-- Only the bits of the fields matter. -/
theorem extract_congr {word word' : BitVec W} : ∀ (fs : List (BitField ν)),
    (∀ i < widthOf fs, word.getLsbD i = word'.getLsbD i) → extract word fs = extract word' fs := by
  have hfield : ∀ (w : Nat) (fs : List (BitField ν)),
      (∀ i < w + widthOf fs, word.getLsbD i = word'.getLsbD i) →
      word.extractLsb' (widthOf fs) w = word'.extractLsb' (widthOf fs) w := by
    intro w fs h
    refine BitVec.eq_of_getLsbD_eq fun i hi => ?_
    rw [BitVec.getLsbD_extractLsb', BitVec.getLsbD_extractLsb', h _ (by omega)]
  intro fs
  induction fs with
  | nil => exact fun _ => rfl
  | cons f fs ih =>
    intro h
    have htail := ih fun i hi => h i (Nat.lt_of_lt_of_le hi (Nat.le_add_left _ _))
    cases f with
    | @fixed width bits => rw [extract, extract, hfield width fs h, htail]
    | operand name width => rw [extract, extract, hfield width fs h, htail]

/-- A field in front of others does not change what they are read as. -/
theorem extract_tail {w : Nat} (value : BitVec w) (fs : List (BitField ν)) (ops : Operands fs)
    (hW : widthOf fs ≤ W) :
    extract (value.setWidth W <<< widthOf fs ||| assemble W fs ops) fs
      = extract (assemble W fs ops) fs :=
  extract_congr fs fun i hi => by
    rw [getLsbD_field value _ (fun j hj => getLsbD_assemble_of_le fs ops hj)
      (Nat.lt_of_lt_of_le hi hW), if_pos hi]

/-- **The operands are read back.** -/
theorem extract_assemble {fs : List (BitField ν)} (hW : widthOf fs ≤ W) (ops : Operands fs) :
    extract (assemble W fs ops) fs = some ops := by
  induction ops with
  | nil => rfl
  | @fixed width bits fs ops ih =>
    have hle : widthOf fs ≤ W := Nat.le_trans (Nat.le_add_left _ _) hW
    rw [assemble, extract, extract_tail bits fs ops hle, ih hle, if_pos, Option.map_some]
    exact extractLsb'_field bits _ (fun j hj => getLsbD_assemble_of_le fs ops hj) hW
  | @operand name width fs value ops ih =>
    have hle : widthOf fs ≤ W := Nat.le_trans (Nat.le_add_left _ _) hW
    rw [assemble, extract, extract_tail value fs ops hle, ih hle, Option.map_some,
      extractLsb'_field value _ (fun j hj => getLsbD_assemble_of_le fs ops hj) hW]

/-- The bits of a word with these operands. -/
theorem getLsbD_assemble_of_extract {word : BitVec W} (fs : List (BitField ν)) : ∀ {ops : Operands fs},
    extract word fs = some ops → ∀ i < widthOf fs, i < W →
      (assemble W fs ops).getLsbD i = word.getLsbD i := by
  have hfield : ∀ {w : Nat} (value : BitVec w) (fs : List (BitField ν)) (ops : Operands fs),
      word.extractLsb' (widthOf fs) w = value →
      (∀ i < widthOf fs, i < W → (assemble W fs ops).getLsbD i = word.getLsbD i) →
      ∀ i < w + widthOf fs, i < W → (value.setWidth W <<< widthOf fs |||
        assemble W fs ops).getLsbD i = word.getLsbD i := by
    intro w value fs ops hvalue htail i hi hW
    rw [getLsbD_field value _ (fun j hj => getLsbD_assemble_of_le fs ops hj) hW]
    split
    next hlt => exact htail i hlt hW
    next hge =>
      rw [← hvalue, BitVec.getLsbD_extractLsb', Nat.add_sub_cancel' (Nat.not_lt.mp hge)]
      simp only [show i - widthOf fs < w by omega, decide_true, Bool.true_and]
  induction fs with
  | nil => exact fun _ i hi => absurd hi (Nat.not_lt_zero i)
  | cons f fs ih =>
    intro ops h
    cases f with
    | fixed bits =>
      rw [extract] at h
      split at h
      next hbits =>
        obtain ⟨ops, hops, rfl⟩ := Option.map_eq_some_iff.mp h
        exact hfield bits fs ops hbits (ih hops)
      next => cases h
    | operand name width =>
      rw [extract, Option.map_eq_some_iff] at h
      obtain ⟨ops, hops, rfl⟩ := h
      exact hfield _ fs ops rfl (ih hops)

/-- **The word is put together again.** -/
theorem assemble_extract {word : BitVec W} {fs : List (BitField ν)} (hW : widthOf fs = W)
    {ops : Operands fs} (h : extract word fs = some ops) : assemble W fs ops = word :=
  BitVec.eq_of_getLsbD_eq fun i hi => getLsbD_assemble_of_extract fs h i (hW ▸ hi) hi

/-! ### Clashes -/

/-- The bits of the fixed field of this width that ends at bit `offset`. -/
def fixedAt (offset width : Nat) : List (BitField ν) → Option (BitVec width)
  | [] => none
  | @BitField.fixed _ w bits :: fs =>
    if h : widthOf fs = offset ∧ w = width then some (bits.cast h.2) else fixedAt offset width fs
  | .operand _ _ :: fs => fixedAt offset width fs

/-- A word has the fixed bits of its fields. -/
theorem extractLsb'_of_fixedAt {word : BitVec W} {offset width : Nat} {bits : BitVec width} :
    ∀ {fs : List (BitField ν)} {ops : Operands fs}, extract word fs = some ops →
      fixedAt offset width fs = some bits → word.extractLsb' offset width = bits := by
  intro fs
  induction fs with
  | nil => exact fun _ h => by cases h
  | cons f fs ih =>
    intro ops hextract hfixed
    cases f with
    | fixed bits' =>
      rw [extract] at hextract
      split at hextract
      next hbits =>
        obtain ⟨ops, hops, -⟩ := Option.map_eq_some_iff.mp hextract
        rw [fixedAt] at hfixed
        split at hfixed
        next h =>
          obtain ⟨rfl, rfl⟩ := h
          exact hbits.trans (Option.some.inj hfixed)
        next => exact ih hops hfixed
      next => cases hextract
    | operand name w =>
      rw [extract, Option.map_eq_some_iff] at hextract
      obtain ⟨ops, hops, -⟩ := hextract
      exact ih hops hfixed

/-- Both have a fixed field in the same place, with different bits. -/
def Clash (fs gs : List (BitField ν)) : Prop :=
  ∃ (offset width : Nat) (bits bits' : BitVec width), fixedAt offset width fs = some bits ∧
    fixedAt offset width gs = some bits' ∧ bits ≠ bits'

theorem Clash.extract_eq_none {fs gs : List (BitField ν)} (h : Clash fs gs) {word : BitVec W}
    {ops : Operands fs} (hfs : extract word fs = some ops) : extract word gs = none := by
  obtain ⟨offset, width, bits, bits', hbits, hbits', hne⟩ := h
  cases hgs : extract word gs with
  | none => rfl
  | some ops' =>
    exact absurd ((extractLsb'_of_fixedAt hfs hbits).symm.trans (extractLsb'_of_fixedAt hgs hbits')) hne

/-! ### Sets of instructions -/

section Instructions

variable (layout : ι → List (BitField ν))

/-- An instruction with its operands. -/
abbrev Instruction (layout : ι → List (BitField ν)) := Σ i, Operands (layout i)

def encode (W : Nat) (x : Instruction layout) : BitVec W := assemble W (layout x.1) x.2

/-- The first of the instructions that the word is one of. -/
def decode (instructions : List ι) (word : BitVec W) : Option (Instruction layout) :=
  instructions.findSome? fun i => (extract word (layout i)).map (⟨i, ·⟩)

variable {layout}

/-- **Decoding is the inverse of encoding.** -/
theorem decode_eq_some_iff (hwidth : ∀ i, widthOf (layout i) = W)
    (hclash : ∀ i j, i ≠ j → Clash (layout i) (layout j)) {instructions : List ι} {word : BitVec W}
    {x : Instruction layout} :
    decode layout instructions word = some x ↔ x.1 ∈ instructions ∧ encode layout W x = word := by
  induction instructions with
  | nil => simp [decode]
  | cons i instructions ih =>
    rw [decode, List.findSome?_cons, List.mem_cons]
    cases hextract : extract word (layout i) with
    | none =>
      refine ih.trans (and_congr_left fun hencode => (or_iff_right ?_).symm)
      rintro rfl
      rw [← hencode, encode, extract_assemble (Nat.le_of_eq (hwidth x.1))] at hextract
      cases hextract
    | some ops =>
      constructor
      · rintro h
        obtain rfl := Option.some.inj h
        exact ⟨.inl rfl, assemble_extract (hwidth i) hextract⟩
      · rintro ⟨-, rfl⟩
        have hx := extract_assemble (Nat.le_of_eq (hwidth x.1)) x.2
        by_cases hi : i = x.1
        · subst hi
          obtain rfl : ops = x.2 := Option.some.inj (hextract.symm.trans hx)
          rfl
        · have hnone := (hclash i x.1 hi).extract_eq_none hextract
          rw [encode, hx] at hnone
          cases hnone

end Instructions

end Lib
