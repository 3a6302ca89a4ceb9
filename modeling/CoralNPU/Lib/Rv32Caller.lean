import CoralNPU.Lib.Rv32

namespace Lib

namespace Rv32

namespace Caller

open Relation

/-!
# RV32I text that calls functions by their addresses

The text of a routine that calls functions which are given otherwise: by what they leave, when they
return.

* `State`, `Function` — registers, memory and control registers; a function maps them to those that it
  returns with, if it does.
* `Line`, `Machine`, `step` — the machine, which remembers every call with the state it is made in.
* `Preserves` — the calling convention, and a part of memory that functions leave alone.
* `TableAt` — a table of words.

A call leaves `ra` as it is: the text has no addresses, and nothing looks at it.
-/

/-- The number of a control and status register. -/
abbrev Csr := BitVec 12

/-- What a function finds and leaves. -/
structure State where
  regs : Reg → Word
  mem : AddressSpace
  csrs : Csr → Word

/-- The functions by their addresses: what they return with, or nothing if they do not return. -/
abbrev Function := Word → State → Option State

/-- A line of the text. `la` also stands for `li`, and `jalr` for `jalr ra, 0(rs1)`. -/
inductive Line (L : Type)
  | label (l : L)
  | lw (rd : Reg) (offset : Word) (rs1 : Reg)
  | sw (rs2 : Reg) (offset : Word) (rs1 : Reg)
  | addi (rd rs1 : Reg) (imm : Word)
  | la (rd : Reg) (value : Word)
  | beq (rs1 rs2 : Reg) (l : L)
  | bne (rs1 rs2 : Reg) (l : L)
  | bltu (rs1 rs2 : Reg) (l : L)
  | bgeu (rs1 rs2 : Reg) (l : L)
  | j (l : L)
  | jalr (rs1 : Reg)
  | call (address : Word)
  | csrr (rd : Reg) (csr : Csr)
  | csrw (csr : Csr) (rs1 : Reg)
  | csrs (csr : Csr) (rs1 : Reg)
  | fenceI
  | ebreak
  | word (w : Word)

/-- The text, or what is left of it. -/
abbrev Code (L : Type) := List (Line L)

variable {L : Type} [DecidableEq L]

/-- The text behind a label. -/
def codeAt (l : L) : Code L → Code L
  | [] => []
  | .label l' :: rest => if l' = l then rest else codeAt l rest
  | _ :: rest => codeAt l rest

/-- `mv rd, rs1` -/
def Line.mv (rd rs1 : Reg) : Line L := .addi rd rs1 0

/-- `beqz rs1, l` -/
def Line.beqz (rs1 : Reg) (l : L) : Line L := .beq rs1 .zero l

/-- The calls are those that have been made, with the states they were made in. -/
structure Machine (L : Type) where
  pc : Code L
  state : State
  calls : List (Word × State)

/-- Why a run ends: a breakpoint, an instruction that is given by its word, a word access to another
    address than that of a word, a function that does not return, or the end of the text. -/
inductive Halt
  | ebreak
  | word (w : Word)
  | misaligned
  | noReturn
  | endOfCode
  deriving DecidableEq, Repr

/-- The state after a write to a register. -/
def State.set (s : State) (rd : Reg) (v : Word) : State := { s with regs := write s.regs rd v }

/-- The addresses of the calls. -/
def Machine.called (m : Machine L) : List Word := m.calls.map Prod.fst

/-- The function at `address` is called, and `rest` comes behind it. -/
def callStep (function : Function) (m : Machine L) (address : Word) (rest : Code L) :
    Machine L ⊕ Halt × Machine L :=
  let calls := m.calls ++ [(address, m.state)]
  match function address m.state with
  | none => .inr (.noReturn, { m with calls })
  | some state => .inl ⟨rest, state, calls⟩

/-- One line. `counter` gives the values of control registers that count by themselves. -/
def step (function : Function) (counter : Csr → State → Word) (code : Code L) (m : Machine L) :
    Machine L ⊕ Halt × Machine L :=
  match m.pc with
  | [] => .inr (.endOfCode, m)
  | line :: rest =>
    let regs := m.state.regs
    match line with
    | .label _ | .fenceI => .inl { m with pc := rest }
    | .lw rd offset rs1 =>
      let address := read regs rs1 + offset
      if ¬ WordAligned address then .inr (.misaligned, m)
      else .inl { m with pc := rest, state := m.state.set rd (loadWord m.state.mem address) }
    | .sw rs2 offset rs1 =>
      let address := read regs rs1 + offset
      if ¬ WordAligned address then .inr (.misaligned, m)
      else .inl { m with
        pc := rest
        state := { m.state with mem := storeWord m.state.mem address (read regs rs2) } }
    | .addi rd rs1 imm => .inl { m with pc := rest, state := m.state.set rd (read regs rs1 + imm) }
    | .la rd value => .inl { m with pc := rest, state := m.state.set rd value }
    | .beq rs1 rs2 l =>
      .inl { m with pc := if read regs rs1 = read regs rs2 then codeAt l code else rest }
    | .bne rs1 rs2 l =>
      .inl { m with pc := if read regs rs1 ≠ read regs rs2 then codeAt l code else rest }
    | .bltu rs1 rs2 l =>
      .inl { m with pc := if read regs rs1 < read regs rs2 then codeAt l code else rest }
    | .bgeu rs1 rs2 l =>
      .inl { m with pc := if read regs rs2 ≤ read regs rs1 then codeAt l code else rest }
    | .j l => .inl { m with pc := codeAt l code }
    | .jalr rs1 => callStep function m (read regs rs1) rest
    | .call address => callStep function m address rest
    | .csrr rd csr => .inl { m with pc := rest, state := m.state.set rd (counter csr m.state) }
    | .csrw csr rs1 =>
      .inl { m with
        pc := rest
        state := { m.state with
          csrs := fun c => if c = csr then read regs rs1 else m.state.csrs c } }
    | .csrs csr rs1 =>
      .inl { m with
        pc := rest
        state := { m.state with
          csrs := fun c => if c = csr then m.state.csrs c ||| read regs rs1 else m.state.csrs c } }
    | .ebreak => .inr (.ebreak, m)
    | .word w => .inr (.word w, m)

section Rules

variable {function : Function} {counter : Csr → State → Word} {code rest : Code L} {s : State}
  {calls : List (Word × State)} {rd rs1 rs2 : Reg} {l : L}

/-- The machine gets from one state to the other. -/
abbrev Reaches (function : Function) (counter : Csr → State → Word) (code : Code L) :
    Machine L → Machine L → Prop := Continues (step function counter code)

/-- The run ends, for this reason and in that state. -/
abbrev Runs (function : Function) (counter : Csr → State → Word) (code : Code L) (m : Machine L)
    (halt : Halt) (m' : Machine L) : Prop := Exits (step function counter code) m (halt, m')

/-- A label does nothing. -/
theorem reaches_label : Reaches function counter code ⟨.label l :: rest, s, calls⟩ ⟨rest, s, calls⟩ :=
  .single rfl

/-- So does a fence. -/
theorem reaches_fenceI : Reaches function counter code ⟨.fenceI :: rest, s, calls⟩ ⟨rest, s, calls⟩ :=
  .single rfl

/-- A word is loaded from an aligned address. -/
theorem reaches_lw {a offset : Word} (h : WordAligned a) (ha : read s.regs rs1 + offset = a) :
    Reaches function counter code ⟨.lw rd offset rs1 :: rest, s, calls⟩
      ⟨rest, s.set rd (loadWord s.mem a), calls⟩ := by
  subst ha
  exact .single (if_neg (not_not.mpr h))

/-- A word is stored at an aligned address. -/
theorem reaches_sw {a offset : Word} (h : WordAligned a) (ha : read s.regs rs1 + offset = a) :
    Reaches function counter code ⟨.sw rs2 offset rs1 :: rest, s, calls⟩
      ⟨rest, { s with mem := storeWord s.mem a (read s.regs rs2) }, calls⟩ := by
  subst ha
  exact .single (if_neg (not_not.mpr h))

/-- A constant is added. -/
theorem reaches_addi {imm : Word} :
    Reaches function counter code ⟨.addi rd rs1 imm :: rest, s, calls⟩
      ⟨rest, s.set rd (read s.regs rs1 + imm), calls⟩ := .single rfl

/-- An address is put into a register. -/
theorem reaches_la {v : Word} :
    Reaches function counter code ⟨.la rd v :: rest, s, calls⟩ ⟨rest, s.set rd v, calls⟩ :=
  .single rfl

/-- A control register is read. -/
theorem reaches_csrr {csr : Csr} :
    Reaches function counter code ⟨.csrr rd csr :: rest, s, calls⟩
      ⟨rest, s.set rd (counter csr s), calls⟩ := .single rfl

/-- A control register is written. -/
theorem reaches_csrw {csr : Csr} :
    Reaches function counter code ⟨.csrw csr rs1 :: rest, s, calls⟩
      ⟨rest, { s with csrs := fun c => if c = csr then read s.regs rs1 else s.csrs c }, calls⟩ :=
  .single rfl

/-- Bits of a control register are set. -/
theorem reaches_csrs {csr : Csr} :
    Reaches function counter code ⟨.csrs csr rs1 :: rest, s, calls⟩
      ⟨rest, { s with csrs := fun c => if c = csr then s.csrs c ||| read s.regs rs1 else s.csrs c },
        calls⟩ := .single rfl

/-- A branch goes to its label or falls through. -/
theorem reaches_branch {m : Machine L} {taken : Prop} [Decidable taken] {target fallthrough : Code L}
    (h : step function counter code m
      = .inl { m with pc := if taken then target else fallthrough }) :
    (taken → Reaches function counter code m { m with pc := target }) ∧
      (¬ taken → Reaches function counter code m { m with pc := fallthrough }) := by
  constructor
  · intro ht
    rw [if_pos ht] at h
    exact .single h
  · intro ht
    rw [if_neg ht] at h
    exact .single h

/-- Branch if equal. -/
theorem reaches_beq :
    (read s.regs rs1 = read s.regs rs2 → Reaches function counter code
      ⟨.beq rs1 rs2 l :: rest, s, calls⟩ ⟨codeAt l code, s, calls⟩) ∧
    (¬ read s.regs rs1 = read s.regs rs2 → Reaches function counter code
      ⟨.beq rs1 rs2 l :: rest, s, calls⟩ ⟨rest, s, calls⟩) := reaches_branch rfl

/-- Branch if not equal. -/
theorem reaches_bne :
    (read s.regs rs1 ≠ read s.regs rs2 → Reaches function counter code
      ⟨.bne rs1 rs2 l :: rest, s, calls⟩ ⟨codeAt l code, s, calls⟩) ∧
    (¬ read s.regs rs1 ≠ read s.regs rs2 → Reaches function counter code
      ⟨.bne rs1 rs2 l :: rest, s, calls⟩ ⟨rest, s, calls⟩) := reaches_branch rfl

/-- Branch if below, unsigned. -/
theorem reaches_bltu :
    (read s.regs rs1 < read s.regs rs2 → Reaches function counter code
      ⟨.bltu rs1 rs2 l :: rest, s, calls⟩ ⟨codeAt l code, s, calls⟩) ∧
    (¬ read s.regs rs1 < read s.regs rs2 → Reaches function counter code
      ⟨.bltu rs1 rs2 l :: rest, s, calls⟩ ⟨rest, s, calls⟩) := reaches_branch rfl

/-- Branch if not below, unsigned. -/
theorem reaches_bgeu :
    (read s.regs rs2 ≤ read s.regs rs1 → Reaches function counter code
      ⟨.bgeu rs1 rs2 l :: rest, s, calls⟩ ⟨codeAt l code, s, calls⟩) ∧
    (¬ read s.regs rs2 ≤ read s.regs rs1 → Reaches function counter code
      ⟨.bgeu rs1 rs2 l :: rest, s, calls⟩ ⟨rest, s, calls⟩) := reaches_branch rfl

/-- A call through a register runs the function at that address. -/
theorem reaches_jalr {a : Word} {s' : State} (ha : read s.regs rs1 = a)
    (h : function a s = some s') :
    Reaches function counter code ⟨.jalr rs1 :: rest, s, calls⟩ ⟨rest, s', calls ++ [(a, s)]⟩ := by
  subst ha
  refine .single ?_
  show callStep function _ (read s.regs rs1) rest = _
  rw [callStep, h]

/-- A direct call likewise. -/
theorem reaches_call {a : Word} {s' : State} (h : function a s = some s') :
    Reaches function counter code ⟨.call a :: rest, s, calls⟩ ⟨rest, s', calls ++ [(a, s)]⟩ := by
  refine .single ?_
  show callStep function _ a rest = _
  rw [callStep, h]

/-- A call that does not return ends the run. -/
theorem runs_call {a : Word} (h : function a s = none) :
    Runs function counter code ⟨.call a :: rest, s, calls⟩ .noReturn
      ⟨.call a :: rest, s, calls ++ [(a, s)]⟩ := by
  refine Exits.of_inr ?_
  show callStep function _ a rest = _
  rw [callStep, h]

/-- See `runs_call`. -/
theorem runs_jalr {a : Word} (ha : read s.regs rs1 = a) (h : function a s = none) :
    Runs function counter code ⟨.jalr rs1 :: rest, s, calls⟩ .noReturn
      ⟨.jalr rs1 :: rest, s, calls ++ [(a, s)]⟩ := by
  subst ha
  refine Exits.of_inr ?_
  show callStep function _ (read s.regs rs1) rest = _
  rw [callStep, h]

/-- Registers that are set to zero, one after the other. -/
theorem reaches_clear (rs : List Reg) : ∀ s : State, ∃ s', Reaches function counter code
    ⟨rs.map (fun r => .mv r .zero) ++ rest, s, calls⟩ ⟨rest, s', calls⟩ ∧ s'.mem = s.mem ∧
      ∀ r ∉ rs, s'.regs r = s.regs r := by
  induction rs with
  | nil => exact fun s => ⟨s, .refl, rfl, fun _ _ => rfl⟩
  | cons r rs ih =>
    intro s
    obtain ⟨s', hreaches, hmem, hregs⟩ := ih (s.set r (read s.regs .zero + 0))
    refine ⟨s', ReflTransGen.trans reaches_addi hreaches, hmem, fun r' hr' => ?_⟩
    rw [hregs r' fun h => hr' (List.mem_cons_of_mem _ h)]
    exact write_of_ne _ (List.ne_of_not_mem_cons hr') _

end Rules

/-! ### Functions that return -/

/-- The registers that a function hands back as it found them. -/
def calleeSaved : List Reg :=
  [.sp, .gp, .tp, .s0, .s1, .s2, .s3, .s4, .s5, .s6, .s7, .s8, .s9, .s10, .s11]

/-- What functions leave alone: these registers, and the memory below `limit`. -/
structure Preserves (limit : Nat) (s s' : State) : Prop where
  saved : ∀ r ∈ calleeSaved, s'.regs r = s.regs r
  below : ∀ p : Word, p.toNat < limit → s'.mem p = s.mem p

/-! ### Words -/

/-- A store leaves the bytes behind the word alone. -/
theorem storeWord_of_le (m : AddressSpace) {a p : Word} (h : 4 ≤ (p - a).toNat) (v : Word) :
    storeWord m a v p = m p :=
  List.getD_eq_default _ _ (by rw [length_toLE]; exact h)

/-- Loading a word that was stored. -/
theorem loadWord_storeWord (m : AddressSpace) (a v : Word) : loadWord (storeWord m a v) a = v := by
  have hbytes : [storeWord m a v a, storeWord m a v (a + 1), storeWord m a v (a + 2),
      storeWord m a v (a + 3)] = toLE 4 v.toNat := by
    have h0 : (a - a).toNat = 0 := by bv_omega
    have h1 : (a + 1 - a).toNat = 1 := by bv_omega
    have h2 : (a + 2 - a).toNat = 2 := by bv_omega
    have h3 : (a + 3 - a).toNat = 3 := by bv_omega
    simp only [storeWord, h0, h1, h2, h3]
    rfl
  have hlt : v.toNat < 256 ^ 4 := v.isLt
  rw [loadWord, hbytes, ofLE_toLE, Nat.mod_eq_of_lt hlt, BitVec.ofNat_toNat, BitVec.setWidth_eq]

/-! ### Tables -/

/-- The words from an address on. -/
def TableAt (mem : AddressSpace) : Word → List Word → Prop
  | _, [] => True
  | a, w :: ws => loadWord mem a = w ∧ TableAt mem (a + 4) ws

/-- Memories that agree below a limit load the same words there. -/
theorem loadWord_congr {mem mem' : AddressSpace} {limit : Nat} {a : Word}
    (h : ∀ p : Word, p.toNat < limit → mem' p = mem p) (ha : a.toNat + 4 ≤ limit)
    (hlimit : limit ≤ 2 ^ 32) : loadWord mem' a = loadWord mem a := by
  rw [loadWord, loadWord, h a (by omega), h (a + 1) (by bv_omega), h (a + 2) (by bv_omega),
    h (a + 3) (by bv_omega)]

/-- So a table below the limit stays where it is. -/
theorem TableAt.congr {mem mem' : AddressSpace} {limit : Nat}
    (h : ∀ p : Word, p.toNat < limit → mem' p = mem p) (hlimit : limit < 2 ^ 32) {ws : List Word} :
    ∀ {a : Word}, a.toNat + 4 * ws.length ≤ limit → TableAt mem a ws → TableAt mem' a ws := by
  induction ws with
  | nil => exact fun _ _ => trivial
  | cons w ws ih =>
    intro a ha ⟨hw, hws⟩
    rw [List.length_cons] at ha
    refine ⟨(loadWord_congr h (by omega) (by omega)).trans hw, ih ?_ hws⟩
    have hnext : (a + 4).toNat = a.toNat + 4 := BitVec.toNat_add_of_lt (show a.toNat + 4 < 2 ^ 32 by omega)
    omega

/-- The last word of a table. -/
theorem tableAt_append_singleton {mem : AddressSpace} {w : Word} {ws : List Word} :
    ∀ {a : Word}, TableAt mem a (ws ++ [w]) ↔
      TableAt mem a ws ∧ loadWord mem (a + BitVec.ofNat 32 (4 * ws.length)) = w := by
  induction ws with
  | nil =>
    intro a
    have hstart : a + BitVec.ofNat 32 (4 * 0) = a := BitVec.add_zero a
    rw [List.nil_append, TableAt, TableAt, TableAt, and_comm, List.length_nil, hstart]
  | cons w' ws ih =>
    intro a
    rw [List.cons_append, TableAt, TableAt, ih, and_assoc, List.length_cons]
    have haddress : a + 4 + BitVec.ofNat 32 (4 * ws.length)
        = a + BitVec.ofNat 32 (4 * (ws.length + 1)) := by
      rw [Nat.mul_succ, BitVec.ofNat_add]
      bv_omega
    rw [haddress]

end Caller

end Rv32

end Lib
