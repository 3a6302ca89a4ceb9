import CoralNPU.Lib.BitFormat

namespace CoralNPU.Zvt

open Lib

/-!
# Zvt — the encodings of the instructions

`RISCVInstrInfoZvt.td`, which the LLVM patch adds: the instructions of the matrix extension.

* `Opcodes` — the values that come from the other files of the target.
* `zvtMSetMType`, `zvtMSetSingle`, `zvtTileMove`, `zvtTileZero`, `zvtTileDiscard`, `zvtTileMemOp`,
  `zvtMatmul` — the classes.
* `Mnemonic`, `layout` — the instructions; `Feature`, `enabled` — the predicates they stand under.
* `encodeZvt`, `decodeZvt` — what the definitions mean: the word of an instruction, and the
  instruction of a word for some features.  The patch puts the definitions into a decoder namespace
  of their own, `Zvt`, but adds no table of it to the disassembler.
* `decodeZvt_eq_some_iff` — decoding is the inverse of encoding.
-/

/-! ### The classes -/

/-- `RISCVOpcode`, `RISCVVFormat` and `RISCVMOP`, as far as the instructions use them. -/
structure Opcodes where
  opV : BitVec 7
  opVE : BitVec 7
  loadFP : BitVec 7
  storeFP : BitVec 7
  opcfg : BitVec 3
  opmvx : BitVec 3
  mopLDUnitStride : BitVec 2
  opcodes_nodup : [opV, opVE, loadFP, storeFP].Nodup
  opcfg_ne_opmvx : opcfg ≠ opmvx

/-- The operands of the classes. -/
inductive Operand
  | rs1 | rs2 | rd | vs1 | vs2 | vd
  deriving DecidableEq, Repr

/-- The fields of an instruction, from the lowest bit on. -/
abbrev Format := List (BitField Operand)

variable (k : Opcodes)

/-- `ZvtMSetMType` -/
def zvtMSetMType : Format :=
  [.fixed 0b1000001#7, .operand .rs2 5, .operand .rs1 5, .fixed k.opcfg, .fixed 0b00000#5, .fixed k.opV]

/-- `ZvtMSetSingle` -/
def zvtMSetSingle (rs2val : BitVec 5) : Format :=
  [.fixed 0b1000010#7, .fixed rs2val, .operand .rs1 5, .fixed k.opcfg, .operand .rd 5, .fixed k.opV]

/-- `ZvtTileMove`. The instructions set `rs2` or `vd` themselves. -/
def zvtTileMove (funct6 : BitVec 6) (rs2 vd : BitField Operand) : Format :=
  [.fixed funct6, .fixed 1#1, rs2, .operand .rs1 5, .fixed k.opmvx, vd, .fixed k.opV]

/-- `ZvtTileZero` -/
def zvtTileZero : Format :=
  [.fixed 0b010000#6, .fixed 1#1, .fixed 0b11110#5, .fixed 0b00000#5, .fixed k.opmvx, .operand .rd 4,
    .fixed 0#1, .fixed k.opV]

/-- `ZvtTileDiscard` -/
def zvtTileDiscard : Format :=
  [.fixed 0b010000#6, .fixed 1#1, .fixed 0b11100#5, .fixed 0b00000#5, .fixed k.opmvx,
    .fixed 0b00000#5, .fixed k.opV]

/-- `ZvtTileMemOp` -/
def zvtTileMemOp (nf : BitVec 3) (opcode : BitVec 7) : Format :=
  [.fixed nf, .fixed 1#1, .fixed k.mopLDUnitStride, .fixed 1#1, .operand .rs2 5, .operand .rs1 5,
    .fixed 0b111#3, .fixed 0b00000#5, .fixed opcode]

/-- `ZvtMatmul` -/
def zvtMatmul (funct3 : BitVec 3) (alt : BitVec 1) : Format :=
  [.fixed 0b111100#6, .fixed 1#1, .operand .vs2 5, .operand .vs1 5, .fixed funct3, .operand .rd 4,
    .fixed alt, .fixed k.opVE]

/-! ### The instructions -/

/-- The element width of a tile access. -/
inductive Eew
  | e8 | e16 | e32 | e64
  deriving DecidableEq, Repr

/-- `nf` selects it. -/
def Eew.nf : Eew → BitVec 3
  | .e8 => 0b000
  | .e16 => 0b001
  | .e32 => 0b010
  | .e64 => 0b011

/-- The dimension that `MSETTN`, `MSETTM` and `MSETTK` set. -/
inductive TileDim
  | n | m | k
  deriving DecidableEq, Repr

/-- `rs2val` -/
def TileDim.rs2val : TileDim → BitVec 5
  | .n => 0b00000
  | .m => 0b00001
  | .k => 0b00010

/-- The instructions. -/
inductive Mnemonic
  | msetmtype
  | msett (dim : TileDim)
  | vtmvVT
  | vtmvTV
  | vtzero
  | vtdiscard
  | vtle (eew : Eew)
  | vtse (eew : Eew)
  | vtmmu
  | vtmms
  | vtfmm
  | vtfmmAlt
  deriving DecidableEq, Repr

/-- The instructions in the order of the file, under their names there. -/
def definitions : List (String × Mnemonic) :=
  [("MSETMTYPE", .msetmtype), ("MSETTN", .msett .n), ("MSETTM", .msett .m), ("MSETTK", .msett .k),
    ("VTMV_V_T", .vtmvVT), ("VTMV_T_V", .vtmvTV), ("VTZERO", .vtzero), ("VTDISCARD", .vtdiscard),
    ("VTLE32", .vtle .e32), ("VTSE32", .vtse .e32), ("VTLE8", .vtle .e8), ("VTSE8", .vtse .e8),
    ("VTLE16", .vtle .e16), ("VTSE16", .vtse .e16), ("VTLE64", .vtle .e64), ("VTSE64", .vtse .e64),
    ("VTMMU_TVV", .vtmmu), ("VTMMS_TVV", .vtmms), ("VTFMM_TVV", .vtfmm),
    ("VTFMM_ALT_TVV", .vtfmmAlt)]

/-- The class of an instruction with its arguments. -/
def layout : Mnemonic → Format
  | .msetmtype => zvtMSetMType k
  | .msett dim => zvtMSetSingle k dim.rs2val
  | .vtmvVT => zvtTileMove k 0b010000 (.fixed 0b11111#5) (.operand .vd 5)
  | .vtmvTV => zvtTileMove k 0b010111 (.operand .rs2 5) (.fixed 0b00000#5)
  | .vtzero => zvtTileZero k
  | .vtdiscard => zvtTileDiscard k
  | .vtle eew => zvtTileMemOp k eew.nf k.loadFP
  | .vtse eew => zvtTileMemOp k eew.nf k.storeFP
  | .vtmmu => zvtMatmul k 0b000 0
  | .vtmms => zvtMatmul k 0b000 1
  | .vtfmm => zvtMatmul k 0b001 0
  | .vtfmmAlt => zvtMatmul k 0b001 1

/-- The extensions of the family. -/
inductive Feature
  | zvtbase | zvt8e | zvt16e | zvt64e | zvti8i32mm | zvtf8f32mm | zvtf16f32mm | zvtf32f32mm
  deriving DecidableEq, Repr

/-- The predicate of an instruction. -/
def enabled (features : Feature → Bool) : Mnemonic → Bool
  | .msetmtype | .msett _ | .vtmvVT | .vtmvTV | .vtzero | .vtdiscard => features .zvtbase
  | .vtle .e32 | .vtse .e32 => features .zvtbase
  | .vtle .e8 | .vtse .e8 => features .zvt8e
  | .vtle .e16 | .vtse .e16 => features .zvt16e
  | .vtle .e64 | .vtse .e64 => features .zvt64e
  | .vtmmu | .vtmms => features .zvti8i32mm
  | .vtfmm => features .zvtf16f32mm || features .zvtf32f32mm
  | .vtfmmAlt => features .zvtf8f32mm

/-- The word of an instruction. -/
def encodeZvt (x : Instruction (layout k)) : BitVec 32 := encode (layout k) 32 x

/-- The instruction of a word, by the definitions that the features of the target enable. -/
def decodeZvt (features : Feature → Bool) (word : BitVec 32) : Option (Instruction (layout k)) :=
  decode (layout k) ((definitions.map Prod.snd).filter (enabled features)) word

/-! ### Every word is one instruction -/

/-- Every instruction has 32 bits. -/
theorem widthOf_layout (m : Mnemonic) : widthOf (layout k m) = 32 := by
  cases m <;> rfl

/-- Every mnemonic is defined. -/
theorem mem_definitions (m : Mnemonic) : m ∈ definitions.map Prod.snd := by
  cases m with
  | msett dim => cases dim <;> decide
  | vtle eew => cases eew <;> decide
  | vtse eew => cases eew <;> decide
  | _ => decide

/-- The major opcodes, and `funct3` under `OP_V`. -/
inductive Group
  | config | move | load | store | matmul
  deriving DecidableEq

/-- The group of an instruction. -/
def groupOf : Mnemonic → Group
  | .msetmtype | .msett _ => .config
  | .vtmvVT | .vtmvTV | .vtzero | .vtdiscard => .move
  | .vtle _ => .load
  | .vtse _ => .store
  | .vtmmu | .vtmms | .vtfmm | .vtfmmAlt => .matmul

/-- The major opcode of a group. -/
def Group.major : Group → BitVec 7
  | .config | .move => k.opV
  | .load => k.loadFP
  | .store => k.storeFP
  | .matmul => k.opVE

/-- The low seven bits are the major opcode. -/
theorem fixedAt_major (m : Mnemonic) : fixedAt 0 7 (layout k m) = some ((groupOf m).major k) := by
  cases m <;> rfl

/-- Groups differ in it, the two that share `OP-V` apart. -/
theorem major_ne {g g' : Group} (h : g ≠ g') (hconfig : g = .config → g' ≠ .move)
    (hmove : g = .move → g' ≠ .config) : g.major k ≠ g'.major k := by
  have hnodup := k.opcodes_nodup
  simp only [List.nodup_cons, List.mem_cons, List.not_mem_nil, or_false, not_or] at hnodup
  obtain ⟨⟨h₁, h₂, h₃⟩, ⟨h₄, h₅⟩, h₆, -⟩ := hnodup
  cases g <;> cases g' <;> simp_all [Group.major, eq_comm]

/-- Instructions of two groups. -/
theorem clash_of_group_ne {m m' : Mnemonic} (h : groupOf m ≠ groupOf m') :
    Clash (layout k m) (layout k m') := by
  have hconfig : ∀ m, groupOf m = .config → fixedAt 12 3 (layout k m) = some k.opcfg := by
    intro m hm
    cases m <;> first | rfl | cases hm
  have hmove : ∀ m, groupOf m = .move → fixedAt 12 3 (layout k m) = some k.opmvx := by
    intro m hm
    cases m <;> first | rfl | cases hm
  by_cases hcm : groupOf m = .config ∧ groupOf m' = .move
  · exact ⟨12, 3, _, _, hconfig m hcm.1, hmove m' hcm.2, k.opcfg_ne_opmvx⟩
  by_cases hmc : groupOf m = .move ∧ groupOf m' = .config
  · exact ⟨12, 3, _, _, hmove m hmc.1, hconfig m' hmc.2, k.opcfg_ne_opmvx.symm⟩
  exact ⟨0, 7, _, _, fixedAt_major k m, fixedAt_major k m',
    major_ne k h (fun hg hg' => hcm ⟨hg, hg'⟩) (fun hg hg' => hmc ⟨hg, hg'⟩)⟩

/-- Element widths differ in their `nf` bits. -/
theorem nf_injective : Function.Injective Eew.nf := by
  intro a b h
  cases a <;> cases b <;> first | rfl | exact absurd h (by decide)

/-- Tile dimensions differ in their `rs2` bits. -/
theorem rs2val_injective : Function.Injective TileDim.rs2val := by
  intro a b h
  cases a <;> cases b <;> first | rfl | exact absurd h (by decide)

/-- **No word is two instructions.** -/
theorem clash_of_ne {m m' : Mnemonic} (h : m ≠ m') : Clash (layout k m) (layout k m') := by
  by_cases hgroup : groupOf m = groupOf m'
  · -- in a group the bits in front of the operands differ, or the bit behind the tile
    cases m with
    | msetmtype =>
      cases m' with
      | msetmtype => exact absurd rfl h
      | msett dim => exact ⟨25, 7, _, _, rfl, rfl, by simp⟩
      | _ => cases hgroup
    | msett dim =>
      cases m' with
      | msetmtype => exact ⟨25, 7, _, _, rfl, rfl, by simp⟩
      | msett dim' =>
        exact ⟨20, 5, _, _, rfl, rfl, fun heq => h (congrArg _ (rs2val_injective heq))⟩
      | _ => cases hgroup
    | vtle eew =>
      cases m' with
      | vtle eew' => exact ⟨29, 3, _, _, rfl, rfl, fun heq => h (congrArg _ (nf_injective heq))⟩
      | _ => cases hgroup
    | vtse eew =>
      cases m' with
      | vtse eew' => exact ⟨29, 3, _, _, rfl, rfl, fun heq => h (congrArg _ (nf_injective heq))⟩
      | _ => cases hgroup
    | vtmvTV =>
      cases m' with
      | vtmvTV => exact absurd rfl h
      | vtmvVT | vtzero | vtdiscard => exact ⟨26, 6, _, _, rfl, rfl, by simp⟩
      | _ => cases hgroup
    | vtmvVT | vtzero | vtdiscard =>
      cases m' with
      | vtmvTV => exact ⟨26, 6, _, _, rfl, rfl, by simp⟩
      | vtmvVT | vtzero | vtdiscard =>
        first
        | exact absurd rfl h
        | exact ⟨20, 5, _, _, rfl, rfl, by simp⟩
      | _ => cases hgroup
    | vtmmu | vtmms =>
      cases m' with
      | vtmmu | vtmms =>
        first
        | exact absurd rfl h
        | exact ⟨7, 1, _, _, rfl, rfl, by simp⟩
      | vtfmm | vtfmmAlt => exact ⟨12, 3, _, _, rfl, rfl, by simp⟩
      | _ => cases hgroup
    | vtfmm | vtfmmAlt =>
      cases m' with
      | vtfmm | vtfmmAlt =>
        first
        | exact absurd rfl h
        | exact ⟨7, 1, _, _, rfl, rfl, by simp⟩
      | vtmmu | vtmms => exact ⟨12, 3, _, _, rfl, rfl, by simp⟩
      | _ => cases hgroup
  · exact clash_of_group_ne k hgroup

/-- **Decoding is the inverse of encoding**: a word decodes to an instruction exactly if it is the
    word of the instruction and the target has its extension. -/
theorem decodeZvt_eq_some_iff (features : Feature → Bool) (word : BitVec 32)
    (x : Instruction (layout k)) :
    decodeZvt k features word = some x ↔ enabled features x.1 = true ∧ encodeZvt k x = word := by
  rw [decodeZvt, encodeZvt, decode_eq_some_iff (widthOf_layout k) (fun _ _ => clash_of_ne k),
    List.mem_filter]
  exact and_congr_left fun _ => and_iff_right (mem_definitions x.1)

/-- The values of RISC-V. -/
def riscvOpcodes : Opcodes where
  opV := 0b1010111
  opVE := 0b1110111
  loadFP := 0b0000111
  storeFP := 0b0100111
  opcfg := 0b111
  opmvx := 0b110
  mopLDUnitStride := 0b00
  opcodes_nodup := by decide
  opcfg_ne_opmvx := by decide

/-- `vtmms.tvv mt1, v8, v16` -/
example : encodeZvt riscvOpcodes ⟨.vtmms, .fixed (.fixed (.operand 8 (.operand 16 (.fixed (.operand 1
    (.fixed (.fixed .nil)))))))⟩ = 0xf28801f7 := by decide

end CoralNPU.Zvt
