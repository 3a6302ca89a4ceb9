import CoralNPU.Lib.Memory
import CoralNPU.Lib.While

namespace Lib

namespace Rv32

/-!
# Routines of an RV32I assembly file

The instructions of a small part of RV32I, with labels as in the text of the file.

* `AddressSpace`, `loadWord`, `storeWord`, `fill` — memory with addresses of 32 bits that wrap around.
* `Reg`, `Line`, `Code`, `Machine`, `step` — the machine.  A program counter is the text from there
  on.  The link register holds the text behind a call, or nothing for the caller of the routine that
  is looked at.
* `Runs` — how a run ends.
-/

/-- A word of 32 bits, or an address. -/
abbrev Word := BitVec 32

/-- The bytes of a memory, by address. -/
abbrev AddressSpace := Word → UInt8

/-! ### Memory -/

/-- The little-endian word at an address. -/
def loadWord (m : AddressSpace) (a : Word) : Word :=
  BitVec.ofNat 32 (ofLE [m a, m (a + 1), m (a + 2), m (a + 3)])

/-- Store a word. -/
def storeWord (m : AddressSpace) (a v : Word) : AddressSpace :=
  fun p => (toLE 4 v.toNat).getD (p - a).toNat (m p)

/-- The `len` bytes from `a` on are those of `f`, by their distance from `a`. -/
def fill (m : AddressSpace) (a : Word) (len : Nat) (f : Word → UInt8) : AddressSpace :=
  fun p => if (p - a).toNat < len then f (p - a) else m p

/-- Storing a word that was loaded. -/
theorem storeWord_loadWord (m m' : AddressSpace) (a b : Word) :
    storeWord m a (loadWord m' b) = fill m a 4 fun d => m' (b + d) := by
  have hword : toLE 4 (loadWord m' b).toNat = [m' b, m' (b + 1), m' (b + 2), m' (b + 3)] := by
    have hlt : ofLE [m' b, m' (b + 1), m' (b + 2), m' (b + 3)] < 2 ^ 32 :=
      Nat.lt_of_lt_of_eq (ofLE_lt _) (by simp)
    rw [loadWord, BitVec.toNat_ofNat, Nat.mod_eq_of_lt hlt]
    exact toLE_ofLE [m' b, m' (b + 1), m' (b + 2), m' (b + 3)]
  funext p
  rw [storeWord, hword, fill]
  -- the distance is one of four, or the byte is not stored
  have hd : p - a = BitVec.ofNat 32 (p - a).toNat := by rw [BitVec.ofNat_toNat, BitVec.setWidth_eq]
  have hbytes : ∀ k x, [m' b, m' (b + 1), m' (b + 2), m' (b + 3)].getD k x
      = if k < 4 then m' (b + BitVec.ofNat 32 k) else x := by
    intro k x
    match k with
    | 0 => rw [if_pos (by decide), BitVec.add_zero]; rfl
    | 1 => rfl
    | 2 => rfl
    | 3 => rfl
    | k + 4 => rw [if_neg (by omega)]; rfl
  rw [hbytes, ← hd]

/-- Storing zero fills four bytes. -/
theorem storeWord_zero (m : AddressSpace) (a : Word) : storeWord m a 0 = fill m a 4 fun _ => 0 := by
  funext p
  rw [storeWord, fill]
  have hword : toLE 4 (0 : Word).toNat = List.replicate 4 0 := rfl
  rw [hword]
  split
  next h => rw [List.getD_replicate _ h]
  next h => rw [List.getD_eq_default _ _ (by rw [List.length_replicate]; omega)]

/-- Filling one range behind another. -/
theorem fill_fill (m : AddressSpace) (a : Word) {k len : Nat} (hlen : k + len ≤ 2 ^ 32)
    {f g u : Word → UInt8} (hf : ∀ d : Word, d.toNat < k → f d = u d)
    (hg : ∀ d : Word, k ≤ d.toNat → d.toNat < k + len → g (d - BitVec.ofNat 32 k) = u d) :
    fill (fill m a k f) (a + BitVec.ofNat 32 k) len g = fill m a (k + len) u := by
  funext p
  have hsub : p - (a + BitVec.ofNat 32 k) = p - a - BitVec.ofNat 32 k := by
    rw [BitVec.sub_sub]
  simp only [fill]
  rw [hsub]
  generalize p - a = d
  have hlt := d.isLt
  have hsub : (d - BitVec.ofNat 32 k).toNat = (2 ^ 32 - k % 2 ^ 32 + d.toNat) % 2 ^ 32 := by
    rw [BitVec.toNat_sub, BitVec.toNat_ofNat]
  by_cases hk : d.toNat < k
  · rw [if_neg (by omega), if_pos hk, if_pos (by omega), hf d hk]
  · by_cases hd : d.toNat < k + len
    · rw [if_pos (by omega), if_pos hd, hg d (by omega) hd]
    · rw [if_neg (by omega), if_neg hk, if_neg hd]

/-- Filling leaves the bytes behind the range alone. -/
theorem fill_of_le (m : AddressSpace) {a p : Word} {len : Nat} (h : len ≤ (p - a).toNat)
    (f : Word → UInt8) : fill m a len f p = m p := if_neg (by omega)

/-- Filling no bytes changes nothing. -/
theorem fill_zero (m : AddressSpace) (a : Word) (f : Word → UInt8) : fill m a 0 f = m := rfl

/-- The bytes from one address to another. -/
theorem fill_sub (m : AddressSpace) {a b : Word} (h : a ≤ b) (f : Word → UInt8) (p : Word) :
    fill m a (b - a).toNat f p = if a ≤ p ∧ p < b then f (p - a) else m p := by
  have hiff : (p - a).toNat < (b - a).toNat ↔ a ≤ p ∧ p < b := by bv_omega
  exact if_congr hiff rfl rfl

/-! ### Alignment -/

/-- The address of a word. -/
abbrev WordAligned (a : Word) : Prop := a.toNat % 4 = 0

/-- The test of the code: the low two bits are clear. -/
theorem wordAligned_iff (a : Word) : WordAligned a ↔ a &&& 3 = 0 := by
  rw [← BitVec.toNat_inj, BitVec.toNat_and]
  exact iff_of_eq (congrArg (· = 0) (Nat.and_two_pow_sub_one_eq_mod a.toNat 2)).symm

/-- The next word, of a range that has one more. -/
theorem toNat_add_four {a b : Word} {n : Nat} (h : b.toNat = a.toNat + 4 * (n + 1)) :
    (a + 4).toNat = a.toNat + 4 := by
  have hlt := b.isLt
  exact BitVec.toNat_add_of_lt (show a.toNat + 4 < 2 ^ 32 by omega)

/-- The word after an aligned word is aligned. -/
theorem WordAligned.add_four {a : Word} (h : WordAligned a) : WordAligned (a + 4) := by
  have hadd : (a + 4).toNat = (a.toNat + 4) % 4294967296 := BitVec.toNat_add a 4
  rw [WordAligned, hadd]
  omega

/-- Whether there is a word behind the next one. -/
theorem add_four_lt_iff {a b : Word} {n : Nat} (h : b.toNat = a.toNat + 4 * (n + 1)) :
    a + 4 < b ↔ 0 < n := by
  rw [BitVec.lt_def, toNat_add_four h]
  omega

/-- The words from one address to another. -/
theorem exists_words {a b : Word} (ha : WordAligned a) (hb : WordAligned b) (h : a < b) :
    ∃ n, b.toNat = a.toNat + 4 * (n + 1) ∧ (b - a).toNat = 4 * (n + 1) := by
  have hsub := BitVec.toNat_sub_of_le (BitVec.le_of_lt h)
  rw [BitVec.lt_def] at h
  exact ⟨(b.toNat - a.toNat) / 4 - 1, by omega, by omega⟩

/-- Addresses are tested together. -/
theorem wordAligned_or (a b : Word) : WordAligned (a ||| b) ↔ WordAligned a ∧ WordAligned b := by
  have hor : (a ||| b) &&& 3 = (a &&& 3) ||| (b &&& 3) := BitVec.and_or_distrib_right
  rw [wordAligned_iff, wordAligned_iff, wordAligned_iff, hor]
  exact BitVec.or_eq_zero_iff

/-! ### Instructions -/

/-- The registers, by their names in the calling convention. -/
inductive Reg
  | zero | ra | sp | gp | tp
  | t0 | t1 | t2 | t3 | t4 | t5 | t6
  | s0 | s1 | s2 | s3 | s4 | s5 | s6 | s7 | s8 | s9 | s10 | s11
  | a0 | a1 | a2 | a3 | a4 | a5 | a6 | a7
  deriving DecidableEq, Repr

/-- A line of the text: a label, or an instruction. -/
inductive Line (L : Type)
  | label (l : L)
  | lw (rd : Reg) (offset : Word) (rs1 : Reg)
  | sw (rs2 : Reg) (offset : Word) (rs1 : Reg)
  | addi (rd rs1 : Reg) (imm : Word)
  | andi (rd rs1 : Reg) (imm : Word)
  | or (rd rs1 rs2 : Reg)
  | sub (rd rs1 rs2 : Reg)
  | bne (rs1 rs2 : Reg) (l : L)
  | bltu (rs1 rs2 : Reg) (l : L)
  | bgeu (rs1 rs2 : Reg) (l : L)
  | la (rd : Reg) (address : Word)
  | call (l : L)
  | ret
  | ebreak

/-- The text, or what is left of it. -/
abbrev Code (L : Type) := List (Line L)

variable {L : Type} [DecidableEq L]

/-- The text behind a label. -/
def codeAt (l : L) : Code L → Code L
  | [] => []
  | .label l' :: rest => if l' = l then rest else codeAt l rest
  | _ :: rest => codeAt l rest

/-- `bnez rs1, l` -/
def Line.bnez (rs1 : Reg) (l : L) : Line L := .bne rs1 .zero l

/-! ### The machine -/

/-- What a machine holds. `link` stands for the address in `ra`, which `ret` goes back to: the text
    behind a call, or nothing for the caller of the routine that is looked at. -/
structure Machine (L : Type) where
  pc : Code L
  link : Option (Code L)
  regs : Reg → Word
  mem : AddressSpace

/-- Why a run ends: the routine that is looked at is done, a breakpoint, a word access to another
    address than that of a word, or nothing is left of the text. -/
inductive Halt
  | ret
  | ebreak
  | misaligned
  | endOfCode
  deriving DecidableEq, Repr

/-- The value of a register. -/
def read (regs : Reg → Word) (r : Reg) : Word := if r = .zero then 0 else regs r

/-- The registers after a write. -/
def write (regs : Reg → Word) (rd : Reg) (v : Word) : Reg → Word :=
  fun r => if r = rd then v else regs r

/-- A write leaves the other registers alone. -/
theorem write_of_ne (regs : Reg → Word) {rd r : Reg} (h : r ≠ rd) (v : Word) :
    write regs rd v r = regs r := if_neg h

/-- One line. -/
def step (code : Code L) (s : Machine L) : Machine L ⊕ Halt × Machine L :=
  match s.pc with
  | [] => .inr (.endOfCode, s)
  | line :: rest =>
    match line with
    | .label _ => .inl { s with pc := rest }
    | .lw rd offset rs1 =>
      let address := read s.regs rs1 + offset
      if ¬ WordAligned address then .inr (.misaligned, s)
      else .inl { s with pc := rest, regs := write s.regs rd (loadWord s.mem address) }
    | .sw rs2 offset rs1 =>
      let address := read s.regs rs1 + offset
      if ¬ WordAligned address then .inr (.misaligned, s)
      else .inl { s with pc := rest, mem := storeWord s.mem address (read s.regs rs2) }
    | .addi rd rs1 imm => .inl { s with pc := rest, regs := write s.regs rd (read s.regs rs1 + imm) }
    | .andi rd rs1 imm =>
      .inl { s with pc := rest, regs := write s.regs rd (read s.regs rs1 &&& imm) }
    | .or rd rs1 rs2 =>
      .inl { s with pc := rest, regs := write s.regs rd (read s.regs rs1 ||| read s.regs rs2) }
    | .sub rd rs1 rs2 =>
      .inl { s with pc := rest, regs := write s.regs rd (read s.regs rs1 - read s.regs rs2) }
    | .bne rs1 rs2 l =>
      .inl { s with pc := if read s.regs rs1 ≠ read s.regs rs2 then codeAt l code else rest }
    | .bltu rs1 rs2 l =>
      .inl { s with pc := if read s.regs rs1 < read s.regs rs2 then codeAt l code else rest }
    | .bgeu rs1 rs2 l =>
      .inl { s with pc := if read s.regs rs2 ≤ read s.regs rs1 then codeAt l code else rest }
    | .la rd address => .inl { s with pc := rest, regs := write s.regs rd address }
    | .call l => .inl { s with pc := codeAt l code, link := some rest }
    | .ret =>
      match s.link with
      | none => .inr (.ret, s)
      | some caller => .inl { s with pc := caller }
    | .ebreak => .inr (.ebreak, s)

/-- The machine gets from one state to the other. -/
abbrev Reaches (code : Code L) : Machine L → Machine L → Prop := Continues (step code)

/-- The run from a state ends, for this reason and in that state. -/
abbrev Runs (code : Code L) (s : Machine L) (halt : Halt) (s' : Machine L) : Prop :=
  Exits (step code) s (halt, s')

/-- The run ends in a trap. -/
def Traps (code : Code L) (s : Machine L) : Prop := ∃ s', Runs code s .ebreak s'

/-- The run comes to a `ret` with this memory, and has changed no other registers than these. -/
def Returns (code : Code L) (s : Machine L) (clobbered : List Reg) (mem : AddressSpace) : Prop :=
  ∃ rest regs, Reaches code s ⟨.ret :: rest, s.link, regs, mem⟩ ∧ ∀ r ∉ clobbered, regs r = s.regs r

/-! ### Rules -/

section Rules

variable {code rest : Code L} {link : Option (Code L)} {regs : Reg → Word} {mem : AddressSpace}
  {rs1 rs2 rd : Reg} {l : L}

/-- A word is loaded from an aligned address. -/
theorem reaches_lw {a offset : Word} (h : WordAligned a) (ha : read regs rs1 + offset = a) :
    Reaches code ⟨.lw rd offset rs1 :: rest, link, regs, mem⟩
      ⟨rest, link, write regs rd (loadWord mem a), mem⟩ := by
  subst ha
  exact .single (if_neg (not_not.mpr h))

/-- A word is stored at an aligned address. -/
theorem reaches_sw {a offset : Word} (h : WordAligned a) (ha : read regs rs1 + offset = a) :
    Reaches code ⟨.sw rs2 offset rs1 :: rest, link, regs, mem⟩
      ⟨rest, link, regs, storeWord mem a (read regs rs2)⟩ := by
  subst ha
  exact .single (if_neg (not_not.mpr h))

/-- A constant is added. -/
theorem reaches_addi {imm : Word} :
    Reaches code ⟨.addi rd rs1 imm :: rest, link, regs, mem⟩
      ⟨rest, link, write regs rd (read regs rs1 + imm), mem⟩ := .single rfl

/-- Bits are masked with a constant. -/
theorem reaches_andi {imm : Word} :
    Reaches code ⟨.andi rd rs1 imm :: rest, link, regs, mem⟩
      ⟨rest, link, write regs rd (read regs rs1 &&& imm), mem⟩ := .single rfl

/-- Two registers are joined bit by bit. -/
theorem reaches_or :
    Reaches code ⟨.or rd rs1 rs2 :: rest, link, regs, mem⟩
      ⟨rest, link, write regs rd (read regs rs1 ||| read regs rs2), mem⟩ := .single rfl

/-- A register is subtracted. -/
theorem reaches_sub :
    Reaches code ⟨.sub rd rs1 rs2 :: rest, link, regs, mem⟩
      ⟨rest, link, write regs rd (read regs rs1 - read regs rs2), mem⟩ := .single rfl

/-- An address is put into a register. -/
theorem reaches_la {address : Word} :
    Reaches code ⟨.la rd address :: rest, link, regs, mem⟩
      ⟨rest, link, write regs rd address, mem⟩ := .single rfl

/-- A call goes on at the label, and links back. -/
theorem reaches_call :
    Reaches code ⟨.call l :: rest, link, regs, mem⟩ ⟨codeAt l code, some rest, regs, mem⟩ :=
  .single rfl

/-- A label does nothing. -/
theorem reaches_label :
    Reaches code ⟨.label l :: rest, link, regs, mem⟩ ⟨rest, link, regs, mem⟩ := .single rfl

/-- A branch goes to its label or falls through. -/
theorem reaches_branch {s : Machine L} (s' : Machine L) {taken : Prop} [Decidable taken]
    {target fallthrough : Code L}
    (h : step code s = .inl { s' with pc := if taken then target else fallthrough }) :
    (taken → Reaches code s { s' with pc := target }) ∧
      (¬ taken → Reaches code s { s' with pc := fallthrough }) := by
  constructor
  · intro ht
    rw [if_pos ht] at h
    exact .single h
  · intro ht
    rw [if_neg ht] at h
    exact .single h

/-- Branch if not equal. -/
theorem reaches_bne :
    (read regs rs1 ≠ read regs rs2 → Reaches code ⟨.bne rs1 rs2 l :: rest, link, regs, mem⟩
      ⟨codeAt l code, link, regs, mem⟩) ∧
    (¬ read regs rs1 ≠ read regs rs2 → Reaches code ⟨.bne rs1 rs2 l :: rest, link, regs, mem⟩
      ⟨rest, link, regs, mem⟩) :=
  reaches_branch ⟨[], link, regs, mem⟩ rfl

/-- Branch if below, unsigned. -/
theorem reaches_bltu :
    (read regs rs1 < read regs rs2 → Reaches code ⟨.bltu rs1 rs2 l :: rest, link, regs, mem⟩
      ⟨codeAt l code, link, regs, mem⟩) ∧
    (¬ read regs rs1 < read regs rs2 → Reaches code ⟨.bltu rs1 rs2 l :: rest, link, regs, mem⟩
      ⟨rest, link, regs, mem⟩) :=
  reaches_branch ⟨[], link, regs, mem⟩ rfl

/-- Branch if not below, unsigned. -/
theorem reaches_bgeu :
    (read regs rs2 ≤ read regs rs1 → Reaches code ⟨.bgeu rs1 rs2 l :: rest, link, regs, mem⟩
      ⟨codeAt l code, link, regs, mem⟩) ∧
    (¬ read regs rs2 ≤ read regs rs1 → Reaches code ⟨.bgeu rs1 rs2 l :: rest, link, regs, mem⟩
      ⟨rest, link, regs, mem⟩) :=
  reaches_branch ⟨[], link, regs, mem⟩ rfl

end Rules

section Returns

variable {code : Code L} {s s' : Machine L} {clobbered : List Reg} {mem : AddressSpace}

/-- A subroutine returns if what it reaches does, with the same link and the registers it keeps. -/
theorem Returns.of_reaches (h : Reaches code s s') (hlink : s'.link = s.link)
    (hregs : ∀ r ∉ clobbered, s'.regs r = s.regs r) (hr : Returns code s' clobbered mem) :
    Returns code s clobbered mem := by
  obtain ⟨rest, regs, hrest, hkeep⟩ := hr
  rw [hlink] at hrest
  exact ⟨rest, regs, h.trans hrest, fun r hr => (hkeep r hr).trans (hregs r hr)⟩

/-- More registers may count as clobbered. -/
theorem Returns.mono {more : List Reg} (h : Returns code s clobbered mem) (hsub : clobbered ⊆ more) :
    Returns code s more mem := by
  obtain ⟨rest, regs, hrest, hkeep⟩ := h
  exact ⟨rest, regs, hrest, fun r hr => hkeep r fun hr' => hr (hsub hr')⟩

/-- A routine returns to the caller that is not looked at. -/
theorem Returns.runs (h : Returns code s clobbered mem) (hlink : s.link = none) :
    ∃ s', Runs code s .ret s' ∧ s'.mem = mem ∧ ∀ r ∉ clobbered, s'.regs r = s.regs r := by
  obtain ⟨rest, regs, hrest, hkeep⟩ := h
  rw [hlink] at hrest
  exact ⟨⟨.ret :: rest, none, regs, mem⟩, Exits.of_continues hrest (Exits.of_inr rfl), rfl, hkeep⟩

/-- The bytes that a routine leaves behind. -/
theorem Returns.fills {a b : Word} {f : Word → UInt8}
    (h : Returns code s clobbered (fill mem a (b - a).toNat f)) (hlink : s.link = none) (hle : a ≤ b) :
    ∃ s', Runs code s .ret s' ∧ ∀ p, s'.mem p = if a ≤ p ∧ p < b then f (p - a) else mem p := by
  obtain ⟨s', hruns, hmem, -⟩ := h.runs hlink
  refine ⟨s', hruns, fun p => ?_⟩
  rw [hmem]
  exact fill_sub mem hle f p

/-- A routine returns to the text behind its call. -/
theorem Returns.reaches {caller : Code L} (h : Returns code s clobbered mem)
    (hlink : s.link = some caller) :
    ∃ regs, Reaches code s ⟨caller, some caller, regs, mem⟩ := by
  obtain ⟨rest, regs, hrest, -⟩ := h
  rw [hlink] at hrest
  exact ⟨regs, hrest.tail rfl⟩

end Returns

/-- Code that reaches a breakpoint traps. -/
theorem Traps.of_reaches {code rest : Code L} {s : Machine L} {link : Option (Code L)}
    {regs : Reg → Word} {mem : AddressSpace}
    (h : Reaches code s ⟨.ebreak :: rest, link, regs, mem⟩) : Traps code s :=
  ⟨_, Exits.of_continues h (Exits.of_inr rfl)⟩

/-- Code that halts otherwise does not. -/
theorem Runs.not_traps {code : Code L} {s s' : Machine L} {halt : Halt} (h : Runs code s halt s')
    (hhalt : halt ≠ .ebreak) : ¬ Traps code s := by
  rintro ⟨s₁, htrap⟩
  exact hhalt (congrArg Prod.fst (Exits.unique h htrap))

end Rv32

end Lib
