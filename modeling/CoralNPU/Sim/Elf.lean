import CoralNPU.Lib.Bytes
import CoralNPU.Lib.Traced
import CoralNPU.Sim.Host

namespace CoralNPU.Sim

open Lib

/-!
# The ELF loader

`iree_hal_coralnpu_simulator_load_elf_with_layout` on a file given as a byte string.  Every
access to the file is checked against its length, and the writes to device memory are events.

* `Ehdr`, `Phdr`, `Shdr`, `Sym` — the fields that the loader uses of the four ELF records, and
  where they lie.
* `isElf32`, `validateSegment`, `copySegment`, `zeroFill`, `loadSegments` — the segments.
* `stringEquals`, `findSymbol` — the symbols.
* `loadElf` — the loader; `elfAt` — files that it accepts.

`ElfSymbols` proves what the symbol search finds and that no access is out of bounds,
`ElfSegments` what is in device memory afterwards.
-/

/-! ### Records of an ELF file -/

/-- The little-endian 32-bit number at `offset` of a record. -/
def word (record : List UInt8) (offset : Nat) : UInt32 := UInt32.ofNat (numAt 4 record offset)

/-- The little-endian 16-bit number at `offset` of a record. -/
def half (record : List UInt8) (offset : Nat) : UInt16 := UInt16.ofNat (numAt 2 record offset)

/-- `Elf32_Ehdr`, of 52 bytes -/
structure Ehdr where
  ident : List UInt8
  machine : UInt16
  entry : UInt32
  phoff : UInt32
  shoff : UInt32
  phentsize : UInt16
  phnum : UInt16
  shentsize : UInt16
  shnum : UInt16
  deriving DecidableEq

/-- The file header in its 52 bytes. -/
def Ehdr.ofBytes (record : List UInt8) : Ehdr where
  ident := record.take 16
  machine := half record 18
  entry := word record 24
  phoff := word record 28
  shoff := word record 32
  phentsize := half record 42
  phnum := half record 44
  shentsize := half record 46
  shnum := half record 48

/-- `Elf32_Phdr`, of 32 bytes -/
structure Phdr where
  type : UInt32
  offset : UInt32
  paddr : UInt32
  filesz : UInt32
  memsz : UInt32
  flags : UInt32
  deriving DecidableEq

/-- A program header in its 32 bytes. -/
def Phdr.ofBytes (record : List UInt8) : Phdr where
  type := word record 0
  offset := word record 4
  paddr := word record 12
  filesz := word record 16
  memsz := word record 20
  flags := word record 24

/-- `Elf32_Shdr`, of 40 bytes -/
structure Shdr where
  type : UInt32
  offset : UInt32
  size : UInt32
  link : UInt32
  entsize : UInt32
  deriving DecidableEq

/-- A section header in its 40 bytes. -/
def Shdr.ofBytes (record : List UInt8) : Shdr where
  type := word record 4
  offset := word record 16
  size := word record 20
  link := word record 24
  entsize := word record 36

/-- `Elf32_Sym`, of 16 bytes -/
structure Sym where
  name : UInt32
  value : UInt32
  size : UInt32
  shndx : UInt16
  deriving DecidableEq

/-- A symbol in its 16 bytes. -/
def Sym.ofBytes (record : List UInt8) : Sym where
  name := word record 0
  value := word record 4
  size := word record 8
  shndx := half record 14

/-- What the loader makes of the accesses to a file. -/
abbrev ElfRead (α : Type) := Read Status α

/-- A record of `size` bytes at `offset` of the file. -/
def readRecord {α : Type} (ofBytes : List UInt8 → α) (size : Nat) (image : List UInt8)
    (offset : Nat) : ElfRead α := do
  return ofBytes (← readAt image offset size)

/-- The file header. -/
def readEhdr (image : List UInt8) : ElfRead Ehdr := readRecord Ehdr.ofBytes 52 image 0

/-- `*(const Elf32_Phdr *)(data + ehdr->e_phoff + i * sizeof(Elf32_Phdr))` -/
def readPhdr (image : List UInt8) (ehdr : Ehdr) (i : Nat) : ElfRead Phdr :=
  readRecord Phdr.ofBytes 32 image (ehdr.phoff.toNat + i * 32)

/-- `section_headers[i]` -/
def readShdr (image : List UInt8) (ehdr : Ehdr) (i : Nat) : ElfRead Shdr :=
  readRecord Shdr.ofBytes 40 image (ehdr.shoff.toNat + i * 40)

/-- `symbols[j]` -/
def readSym (image : List UInt8) (symbolSection : Shdr) (j : Nat) : ElfRead Sym :=
  readRecord Sym.ofBytes 16 image (symbolSection.offset.toNat + j * 16)

/-- An error that the loader reports. -/
def failed {α : Type} (code : StatusCode) (message : String) : ElfRead α :=
  .error (.failed ⟨code, message⟩)

/-- `EM_RISCV` -/
def emRiscv : UInt16 := 243

/-- `PT_LOAD` -/
def ptLoad : UInt32 := 1

/-- `PF_X` -/
def pfX : UInt32 := 1

/-- `SHT_SYMTAB` -/
def shtSymtab : UInt32 := 2

/-- `SHN_UNDEF` -/
def shnUndef : UInt16 := 0

/-- `iree_hal_coralnpu_simulator_is_elf32`: the magic number, 32 bits, little-endian. -/
def isElf32 (image : List UInt8) : ElfRead Bool :=
  if image.length < 52 then .ok false
  else do
    let ident ← readAt image 0 16
    return ident.take 6 = [0x7F, 0x45, 0x4C, 0x46, 1, 1]

/-! ### Symbols -/

/-- A C string: the bytes before its terminator. -/
structure CString where
  bytes : List UInt8
  noNul : 0 ∉ bytes

/-- The text that `%s` prints. -/
def CString.text (s : CString) : String := String.ofList (s.bytes.map fun b => Char.ofNat b.toNat)

/-- `iree_hal_coralnpu_string_equals`.  The comparison may look at the string table only. -/
def stringEquals (stringTable : List UInt8) (stringOffset : UInt32) (expected : CString) :
    ElfRead Bool :=
  if stringOffset.toNat ≥ stringTable.length then .ok false
  else do
    let terminated ←
      memchr stringTable stringOffset.toNat (stringTable.length - stringOffset.toNat)
    if terminated then strcmp stringTable stringOffset.toNat expected.bytes
    else return false

/-- The loop over the entries of a symbol table. -/
def findInTable (image : List UInt8) (symbolSection : Shdr) (stringTable : List UInt8)
    (symbolName : CString) : List Nat → ElfRead (Option (UInt32 × UInt32))
  | [] => .ok none
  | j :: js => do
    let symbol ← readSym image symbolSection j
    if symbol.shndx = shnUndef then
      findInTable image symbolSection stringTable symbolName js
    else do
      let equal ← stringEquals stringTable symbol.name symbolName
      if !equal then findInTable image symbolSection stringTable symbolName js
      else return some (symbol.value, symbol.size)

/-- The loop over the section headers. -/
def findInSections (image : List UInt8) (ehdr : Ehdr) (symbolName : CString) :
    List Nat → ElfRead (UInt32 × UInt32)
  | [] => failed .notFound ("required ELF symbol " ++ "\x60" ++ symbolName.text ++ "\x60"
      ++ " was not found")
  | i :: is => do
    let symbolSection ← readShdr image ehdr i
    if symbolSection.type ≠ shtSymtab then findInSections image ehdr symbolName is
    else if symbolSection.entsize ≠ 16 ∨ symbolSection.link ≥ ehdr.shnum.toUInt32 then
      failed .invalidArgument "invalid ELF symbol table"
    else do
      let stringSection ← readShdr image ehdr symbolSection.link.toNat
      let symbolTableEnd := symbolSection.offset.toUInt64 + symbolSection.size.toUInt64
      let stringTableEnd := stringSection.offset.toUInt64 + stringSection.size.toUInt64
      if symbolTableEnd.toNat > image.length ∨ stringTableEnd.toNat > image.length then
        failed .invalidArgument "ELF symbol table is out of bounds"
      else do
        let stringTable ← readAt image stringSection.offset.toNat stringSection.size.toNat
        let found ← findInTable image symbolSection stringTable symbolName
          (List.range (symbolSection.size.toNat / 16))
        match found with
        | some symbol => return symbol
        | none => findInSections image ehdr symbolName is

/-- `iree_hal_coralnpu_find_symbol`.  Returns the value and the size of the symbol. -/
def findSymbol (image : List UInt8) (symbolName : CString) : ElfRead (UInt32 × UInt32) := do
  let ehdr ← readEhdr image
  if ehdr.shentsize ≠ 40 then failed .invalidArgument "unexpected ELF section header size"
  else
    let sectionTableEnd := ehdr.shoff.toUInt64 + ehdr.shnum.toUInt64 * 40
    if sectionTableEnd.toNat > image.length then
      failed .invalidArgument "ELF section header table is out of bounds"
    else findInSections image ehdr symbolName (List.range ehdr.shnum.toNat)

/-! ### Segments -/

/-- `simulator_write_mem(address, bytes, size)` -/
structure Write where
  address : UInt32
  bytes : List UInt8
  deriving DecidableEq

/-- A step of the loader: it writes to device memory, and may fail. -/
abbrev Loader (α : Type) := Traced Write (ReadError Status) α

/-- `0x%08` -/
def hex32 (v : UInt32) : String :=
  let digits := Nat.toDigits 16 v.toNat
  String.ofList ('0' :: 'x' :: (List.replicate (8 - digits.length) '0' ++ digits))

/-- `coralnpu_itcm_start` -/
def itcmStart : UInt32 := 0x00000000

/-- `coralnpu_itcm_size` -/
def itcmSize : UInt32 := 0x00008000

/-- `coralnpu_ddr_start` -/
def ddrStart : UInt32 := 0x80000000

/-- `coralnpu_ddr_size` -/
def ddrSize : UInt32 := 0x80000000

/-- `iree_hal_coralnpu_validate_segment` -/
def validateSegment (address : UInt32) (size : UInt64) : ElfRead Unit :=
  if size = 0 then .ok ()
  else if rangeFits itcmStart itcmSize address size || rangeFits dtcmStart dtcmSize address size ||
      rangeFits ddrStart ddrSize address size then .ok ()
  else failed .outOfRange ("ELF PT_LOAD segment at " ++ hex32 address ++ " size=" ++ toString size
    ++ " is outside ITCM/DTCM/DDR")

/-- `simulator_write_mem` with the `size` bytes at `offset` of a buffer. -/
def writeFrom (address : UInt32) (source : List UInt8) (offset size : Nat) : Loader Unit := do
  let bytes ← Traced.lift (readAt source offset size)
  Traced.emit ⟨address, bytes⟩

/-- `iree_hal_coralnpu_copy_segment` -/
def copySegment (address : UInt32) (source : List UInt8) (offset : Nat) (size : UInt64) :
    Loader Unit :=
  if size = 0 then pure ()
  else if rangeFits itcmStart itcmSize address size then writeFrom address source offset size.toNat
  else if rangeFits dtcmStart dtcmSize address size then writeFrom address source offset size.toNat
  else if rangeFits ddrStart ddrSize address size then writeFrom address source offset size.toNat
  else Traced.lift (failed .outOfRange ("ELF segment at " ++ hex32 address ++ " size="
    ++ toString size ++ " is outside ITCM/DTCM/DDR"))

/-- `zero_buffer` -/
def zeroBuffer : List UInt8 := List.replicate 256 0

/-- `chunk`: at most `sizeof(zero_buffer)`. -/
def zeroChunk (remaining : UInt64) : UInt64 := if remaining < 256 then remaining else 256

theorem zeroChunk_le (remaining : UInt64) :
    (zeroChunk remaining).toNat ≤ remaining.toNat ∧ (zeroChunk remaining).toNat ≤ 256 := by
  unfold zeroChunk
  split
  next h => exact ⟨Nat.le_refl _, Nat.le_of_lt (UInt64.lt_iff_toNat_lt.mp h)⟩
  next h => exact ⟨UInt64.le_iff_toNat_le.mp (UInt64.not_lt.mp h), Nat.le_refl _⟩

theorem zeroChunk_pos {remaining : UInt64} (h : remaining ≠ 0) :
    0 < (zeroChunk remaining).toNat := by
  unfold zeroChunk
  split
  · exact Nat.pos_of_ne_zero fun hzero => h (UInt64.toNat_inj.mp hzero)
  · decide

/-- What is left after a chunk. -/
theorem toNat_sub_zeroChunk (remaining : UInt64) :
    (remaining - zeroChunk remaining).toNat = remaining.toNat - (zeroChunk remaining).toNat :=
  UInt64.toNat_sub_of_le _ _ (UInt64.le_iff_toNat_le.mpr (zeroChunk_le remaining).1)

/-- The loop that fills a segment up with zeros. -/
def zeroFill (zeroAddress : UInt32) (remaining : UInt64) : Loader Unit :=
  if remaining = 0 then pure ()
  else do
    copySegment zeroAddress zeroBuffer 0 (zeroChunk remaining)
    zeroFill (zeroAddress + (zeroChunk remaining).toUInt32) (remaining - zeroChunk remaining)
termination_by remaining.toNat
decreasing_by
  have hpos := zeroChunk_pos ‹¬ remaining = 0›
  have hle := zeroChunk_le remaining
  rw [toNat_sub_zeroChunk]
  omega

/-- The zeros of a segment after its file bytes. -/
def fillSegment (phdr : Phdr) : Loader Unit :=
  if phdr.memsz > phdr.filesz then
    zeroFill (phdr.paddr + phdr.filesz) (phdr.memsz - phdr.filesz).toUInt64
  else pure ()

/-- The entry point lies in the segment, and the segment is executable. -/
def Phdr.hasEntry (phdr : Phdr) (entry : UInt32) : Bool :=
  decide (phdr.flags &&& pfX ≠ 0 ∧ entry ≥ phdr.paddr ∧
    entry.toUInt64 < phdr.paddr.toUInt64 + phdr.memsz.toUInt64)

/-- The body of the loop over the program headers.  Returns `entry_is_executable`. -/
def loadSegment (image : List UInt8) (ehdr : Ehdr) (entryIsExecutable : Bool) (i : Nat) :
    Loader Bool := do
  let phdr ← Traced.lift (readPhdr image ehdr i)
  if phdr.type ≠ ptLoad then return entryIsExecutable
  else if phdr.memsz < phdr.filesz then
    Traced.lift (failed .invalidArgument "ELF PT_LOAD memsz is smaller than filesz")
  else if (phdr.offset.toUInt64 + phdr.filesz.toUInt64).toNat > image.length then
    Traced.lift (failed .invalidArgument "ELF PT_LOAD data is out of bounds")
  else do
    Traced.lift (validateSegment phdr.paddr phdr.memsz.toUInt64)
    let entryIsExecutable := if phdr.hasEntry ehdr.entry then true else entryIsExecutable
    copySegment phdr.paddr image phdr.offset.toNat phdr.filesz.toUInt64
    fillSegment phdr
    return entryIsExecutable

/-- The loop over the program headers. -/
def loadSegments (image : List UInt8) (ehdr : Ehdr) : Bool → List Nat → Loader Bool
  | entryIsExecutable, [] => pure entryIsExecutable
  | entryIsExecutable, i :: is => do
    let entryIsExecutable ← loadSegment image ehdr entryIsExecutable i
    loadSegments image ehdr entryIsExecutable is

/-! ### The loader -/

/-- `"coralnpu_dispatch_request"` -/
def dispatchRequestName : CString where
  bytes := ['c', 'o', 'r', 'a', 'l', 'n', 'p', 'u', '_', 'd', 'i', 's', 'p', 'a', 't', 'c', 'h',
    '_', 'r', 'e', 'q', 'u', 'e', 's', 't'].map fun c => UInt8.ofNat c.toNat
  noNul := by decide

/-- `"__heap_start"` -/
def heapStartName : CString where
  bytes := ['_', '_', 'h', 'e', 'a', 'p', '_', 's', 't', 'a', 'r', 't'].map fun c =>
    UInt8.ofNat c.toNat
  noNul := by decide

/-- `"__heap_end"` -/
def heapEndName : CString where
  bytes := ['_', '_', 'h', 'e', 'a', 'p', '_', 'e', 'n', 'd'].map fun c => UInt8.ofNat c.toNat
  noNul := by decide

/-- The symbols of the layout. -/
def findLayout (image : List UInt8) (startPc : UInt32) : ElfRead ElfLayout := do
  let (dispatchRequestAddr, dispatchRequestSize) ← findSymbol image dispatchRequestName
  let (heapStartAddr, _) ← findSymbol image heapStartName
  let (heapEndAddr, _) ← findSymbol image heapEndName
  return { startPc, dispatchRequestAddr, dispatchRequestSize, heapStartAddr, heapEndAddr }

/-- `iree_hal_coralnpu_simulator_load_elf_with_layout` up to its last checks. -/
def loadUnchecked (image : List UInt8) : Loader ElfLayout := do
  let isElf ← Traced.lift (isElf32 image)
  if !isElf then
    Traced.lift (failed .invalidArgument "dispatch image is not little-endian ELF32")
  else do
    let ehdr ← Traced.lift (readEhdr image)
    if ehdr.machine ≠ emRiscv then
      Traced.lift (failed .invalidArgument "ELF is not RISC-V")
    else if ehdr.phentsize ≠ 32 then
      Traced.lift (failed .invalidArgument "unexpected ELF program header size")
    else if (ehdr.phoff.toUInt64 + ehdr.phnum.toUInt64 * 32).toNat > image.length then
      Traced.lift (failed .invalidArgument "ELF program header table is out of bounds")
    else do
      let entryIsExecutable ← loadSegments image ehdr false (List.range ehdr.phnum.toNat)
      if !entryIsExecutable then
        Traced.lift (failed .invalidArgument ("ELF entry point " ++ hex32 ehdr.entry
          ++ " is not inside an executable PT_LOAD segment"))
      else Traced.lift (findLayout image ehdr.entry)

/-- `iree_hal_coralnpu_simulator_load_elf_with_layout` -/
def loadElf (image : List UInt8) : Loader ElfLayout := do
  let layout ← loadUnchecked image
  match checkLayout layout with
  | .ok () => return layout
  | .error failure => Traced.lift (.error (.failed failure))

/-! ### A small executable -/

/-- An executable with one segment at `address`, of four file bytes and 296 zeros, and with the
    three symbols of the layout.  Its entry point is the start of the segment. -/
def elfAt (address : Nat) : List UInt8 :=
  -- file header
  [0x7F, 0x45, 0x4C, 0x46, 1, 1] ++ List.replicate 10 0 ++ toLE 2 2 ++ toLE 2 243 ++ toLE 4 1
    ++ toLE 4 address ++ toLE 4 52 ++ toLE 4 84 ++ toLE 4 0 ++ toLE 2 52 ++ toLE 2 32 ++ toLE 2 1
    ++ toLE 2 40 ++ toLE 2 2 ++ toLE 2 0
  -- program header
  ++ [1, 0, address, address, 4, 300, 5, 4].flatMap (toLE 4)
  -- section headers: the symbol table and the string table
  ++ [0, 2, 0, 0, 164, 48, 1, 0, 4, 16].flatMap (toLE 4)
  ++ [0, 3, 0, 0, 212, 51, 0, 0, 1, 0].flatMap (toLE 4)
  -- symbols
  ++ [1, 0x00010000, 60, 0x00010000].flatMap (toLE 4)
  ++ [27, 0x00010040, 0, 0x00010000].flatMap (toLE 4)
  ++ [40, 0x00018000, 0, 0x00010000].flatMap (toLE 4)
  -- strings
  ++ [0] ++ dispatchRequestName.bytes ++ [0] ++ heapStartName.bytes ++ [0] ++ heapEndName.bytes
    ++ [0]

/-- The executable with its segment in the ITCM. -/
def smallElf : List UInt8 := elfAt 0

/-- The layout of `smallElf`. -/
def smallLayout : ElfLayout where
  startPc := 0
  dispatchRequestAddr := 0x00010000
  dispatchRequestSize := 60
  heapStartAddr := 0x00010040
  heapEndAddr := 0x00018000

end CoralNPU.Sim
