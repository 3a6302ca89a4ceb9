import CoralNPU.Lib.Except
import CoralNPU.Lib.Record
import CoralNPU.Lib.Region

namespace CoralNPU.Target

open Lib

/-!
# The binary of an executable

What the target backend writes for a linked library.

* `LLVMTarget`, `getExecutableTarget` — the target, and the attribute that the backend makes of it.
* `appendDebugDatabase` — a debug database and a footer behind the library.
* `findDatabase` — how the footer is used: the library and the database of a file.
* `serializeExecutable` — the binary, for every kind of target and with every error.
* `Serialized`, `serializeExecutable_serializes` — when there is a binary, and what is in it.

The compilation itself is left out, and so are remarks and dumped files.
-/

/-! ### The format -/

/-- `llvm::Triple::ObjectFormatType`, as far as it is told apart. -/
inductive ObjectFormat
  | coff | elf | machO | wasm | unknown
  deriving DecidableEq

/-- `IREE::HAL::LLVMTarget`, with what is known about its triple. -/
structure LLVMTarget where
  linkStatic : Bool
  linkEmbedded : Bool
  objectFormat : ObjectFormat
  archName : String

/-- `IREE::HAL::ExecutableTargetAttr`: the format that a variant names, and the target that its
    configuration holds.  The two are independent in an attribute that was read. -/
structure ExecutableTarget where
  format : String
  target : LLVMTarget

/-- The format that `getExecutableTarget` names. -/
def executableFormat (target : LLVMTarget) : String :=
  if target.linkStatic then "static"
  else
    (if target.linkEmbedded then "embedded-elf-"
    else "system-" ++ match target.objectFormat with
      | .coff => "dll-"
      | .elf => "elf-"
      | .machO => "dylib-"
      | .wasm => "wasm-"
      | .unknown => "unknown-") ++ target.archName

/-- `getExecutableTarget` -/
def getExecutableTarget (target : LLVMTarget) : ExecutableTarget := ⟨executableFormat target, target⟩

/-! ### The debug database -/

/-- `Footer`, without its magic. -/
structure Footer where
  version : Nat
  flags : Nat
  libraryOffset : Nat
  librarySize : Nat
  debugOffset : Nat
  debugSize : Nat

/-- `IREEDBG\0` -/
def magic : List UInt8 := [0x49, 0x52, 0x45, 0x45, 0x44, 0x42, 0x47, 0]

def Footer.widths : List Nat := [4, 4, 8, 8, 8, 8]

/-- The bytes of the footer in memory. -/
def Footer.bytes (f : Footer) : List UInt8 :=
  magic ++ writeFields [(4, f.version), (4, f.flags), (8, f.libraryOffset), (8, f.librarySize),
    (8, f.debugOffset), (8, f.debugSize)]

/-- `sizeof(footer)` -/
def Footer.size : Nat := 48

/-- `appendDebugDatabase`, for a debug file that could be read. -/
def appendDebugDatabase (baseFile debugFile : List UInt8) : List UInt8 :=
  let baseFileSize := alignUp 16 baseFile.length
  let debugFileSize := alignUp 16 debugFile.length
  let footer : Footer :=
    { version := 0, flags := 0, libraryOffset := 0, librarySize := baseFile.length,
      debugOffset := baseFileSize, debugSize := debugFile.length }
  let file := resize baseFile (baseFileSize + debugFileSize + Footer.size)
  let file := overwrite file baseFileSize debugFile
  overwrite file (baseFileSize + debugFileSize) footer.bytes

/-- The library and the debug database that the footer of a file points to. -/
def findDatabase (file : List UInt8) : Option (List UInt8 × List UInt8) :=
  let footer := file.drop (file.length - Footer.size)
  if footer.take 8 ≠ magic then none
  else match readFields Footer.widths (footer.drop 8) with
    | [_, _, libraryOffset, librarySize, debugOffset, debugSize] =>
      some ((file.drop libraryOffset).take librarySize, (file.drop debugOffset).take debugSize)
    | _ => none

@[simp] theorem Footer.length_bytes (f : Footer) : f.bytes.length = Footer.size := by
  simp [bytes, magic, size]

/-- **The parts of the file**: the library, the database and the footer, the first two filled up. -/
theorem appendDebugDatabase_eq (baseFile debugFile : List UInt8) :
    appendDebugDatabase baseFile debugFile
      = resize baseFile (alignUp 16 baseFile.length) ++ (resize debugFile (alignUp 16 debugFile.length) ++
        Footer.bytes ⟨0, 0, 0, baseFile.length, alignUp 16 baseFile.length, debugFile.length⟩) := by
  have hbase : baseFile.length ≤ alignUp 16 baseFile.length := le_alignUp (by decide) _
  have hdebug : debugFile.length ≤ alignUp 16 debugFile.length := le_alignUp (by decide) _
  have hfooter (f : Footer) : f.bytes.length ≤ Footer.size := f.length_bytes.le
  have hresize (f : Footer) : resize f.bytes Footer.size = f.bytes := by
    rw [resize_eq_append (hfooter f), f.length_bytes, Nat.sub_self]
    exact List.append_nil _
  rw [appendDebugDatabase, Nat.add_assoc, resize_add hbase,
    overwrite_zeros (length_resize _ _) hdebug, ← Nat.add_zero Footer.size,
    overwrite_zeros (by rw [List.length_append, length_resize, length_resize]) (hfooter _), hresize]
  simp only [List.replicate_zero, List.append_nil, List.append_assoc]

/-- The sizes that the footer holds are read as they were written. -/
theorem readFields_footer (f : Footer) (hlibrary : f.librarySize < 2 ^ 64)
    (hoffset : f.debugOffset < 2 ^ 64) (hdebug : f.debugSize < 2 ^ 64) :
    ∃ version flags, readFields Footer.widths (f.bytes.drop 8)
      = [version, flags, f.libraryOffset % 2 ^ 64, f.librarySize, f.debugOffset, f.debugSize] := by
  have hread := readFields_writeFields [(4, f.version), (4, f.flags), (8, f.libraryOffset),
    (8, f.librarySize), (8, f.debugOffset), (8, f.debugSize)]
  refine ⟨f.version % 256 ^ 4, f.flags % 256 ^ 4, hread.trans ?_⟩
  simpa using ⟨hlibrary, hoffset, hdebug⟩

/-- **The footer finds both files again**, byte by byte, in a file whose size fits. -/
theorem findDatabase_append {baseFile debugFile : List UInt8}
    (h : (appendDebugDatabase baseFile debugFile).length < 2 ^ 64) :
    findDatabase (appendDebugDatabase baseFile debugFile) = some (baseFile, debugFile) := by
  rw [appendDebugDatabase_eq] at h ⊢
  have hbase : baseFile.length ≤ alignUp 16 baseFile.length := le_alignUp (by decide) _
  have hdebug : debugFile.length ≤ alignUp 16 debugFile.length := le_alignUp (by decide) _
  generalize alignUp 16 baseFile.length = baseFileSize at *
  generalize alignUp 16 debugFile.length = debugFileSize at *
  simp only [List.length_append, length_resize, Footer.length_bytes] at h
  have hlibrary : baseFile.length < 2 ^ 64 := by omega
  have hoffset : baseFileSize < 2 ^ 64 := by omega
  have hsize : debugFile.length < 2 ^ 64 := by omega
  obtain ⟨version, flags, hread⟩ := readFields_footer
    ⟨0, 0, 0, baseFile.length, baseFileSize, debugFile.length⟩ hlibrary hoffset hsize
  generalize hfooter : Footer.bytes ⟨0, 0, 0, baseFile.length, baseFileSize, debugFile.length⟩
    = footer at *
  have hlen : footer.length = Footer.size := hfooter ▸ Footer.length_bytes _
  have hmagic : footer.take 8 = magic := by
    rw [← hfooter]
    rfl
  have hdrop : (resize baseFile baseFileSize ++ (resize debugFile debugFileSize ++ footer)).drop
      ((resize baseFile baseFileSize ++ (resize debugFile debugFileSize ++ footer)).length - Footer.size)
      = footer := by
    rw [← List.append_assoc, List.length_append, hlen, Nat.add_sub_cancel, List.drop_left]
  rw [findDatabase, hdrop, if_neg (not_not.mpr hmagic), hread]
  show some (_, _) = _
  rw [Nat.zero_mod, List.drop_zero, take_resize_append hbase, List.drop_left' (length_resize _ _),
    take_resize_append hdebug]

/-! ### The binary -/

/-- What the linker leaves: the library, and a debug database if there is one.  `none` is a file that
    cannot be read. -/
structure LinkArtifacts where
  libraryPath : String
  libraryFile : Option (List UInt8)
  debugFile : Option (Option (List UInt8))

/-- `IREE::HAL::ExecutableBinaryOp` -/
structure ExecutableBinary where
  format : String
  data : List UInt8
  mimeType : Option String
  deriving DecidableEq

def ObjectFormat.mimeType : ObjectFormat → String
  | coff => "application/x-msdownload"
  | elf => "application/x-elf"
  | machO => "application/x-dylib"
  | wasm => "application/wasm"
  | unknown => "application/octet-stream"

/-- What the compilation of a module comes to before its binary is written: the number of its object
    files, whether `outputStaticLibrary` succeeds, and what `linkDynamicLibrary` returns. -/
structure Compiled where
  libraryName : String
  objectFiles : Nat
  staticLibraryWritten : Bool
  linkArtifacts : Option LinkArtifacts

/-- `serializeStaticLibraryExecutable`: the binary holds the name of the library. -/
def serializeStaticLibraryExecutable (compiled : Compiled) : Except String ExecutableBinary := do
  if compiled.objectFiles ≠ 1 then
    throw "generating static libraries from multiple object files is not supported"
  if !compiled.staticLibraryWritten then
    throw "static library generation failed"
  return ⟨"static", compiled.libraryName.toUTF8.toList ++ [0], none⟩

/-- `serializeDynamicLibraryExecutable` -/
def serializeDynamicLibraryExecutable (variant : ExecutableTarget) (compiled : Compiled) :
    Except String ExecutableBinary :=
  match compiled.linkArtifacts with
  | none => throw ("failed to link executable and generate target dylib (check above for more " ++
      "specific error messages)")
  | some linkArtifacts =>
    match linkArtifacts.libraryFile with
    | none => throw ("failed to read back dylib temp file at " ++ linkArtifacts.libraryPath)
    | some file =>
      if variant.target.linkEmbedded then
        return ⟨variant.format, file, some "application/x-elf"⟩
      else
        match linkArtifacts.debugFile with
        | none => return ⟨variant.format, file, some variant.target.objectFormat.mimeType⟩
        | some none => throw "failed to append debug database"
        | some (some debugFile) =>
          return ⟨variant.format, appendDebugDatabase file debugFile,
            some variant.target.objectFormat.mimeType⟩

/-- `serializeExecutable`, around the compilation. -/
def serializeExecutable (variant : ExecutableTarget) (compiled : Compiled) :
    Except String ExecutableBinary :=
  if variant.target.linkEmbedded && variant.target.linkStatic then
    throw "cannot embed ELF and produce static library simultaneously"
  else if variant.target.linkStatic then serializeStaticLibraryExecutable compiled
  else serializeDynamicLibraryExecutable variant compiled

/-- **A binary** that was written: the name of a static library; a library for embedding, as it is; or a
    library of the system, with its debug database if there is one.  A library has the format of the
    variant. -/
inductive Serialized (variant : ExecutableTarget) (compiled : Compiled) : ExecutableBinary → Prop
  | static (isStatic : variant.target.linkStatic = true)
      (notEmbedded : variant.target.linkEmbedded = false)
      (oneFile : compiled.objectFiles = 1) (written : compiled.staticLibraryWritten = true) :
      Serialized variant compiled ⟨"static", compiled.libraryName.toUTF8.toList ++ [0], none⟩
  | embedded {linkArtifacts : LinkArtifacts} {file : List UInt8}
      (notStatic : variant.target.linkStatic = false)
      (isEmbedded : variant.target.linkEmbedded = true)
      (linked : compiled.linkArtifacts = some linkArtifacts)
      (library : linkArtifacts.libraryFile = some file) :
      Serialized variant compiled ⟨variant.format, file, some "application/x-elf"⟩
  | system {linkArtifacts : LinkArtifacts} {file data : List UInt8}
      (notStatic : variant.target.linkStatic = false)
      (notEmbedded : variant.target.linkEmbedded = false)
      (linked : compiled.linkArtifacts = some linkArtifacts)
      (library : linkArtifacts.libraryFile = some file)
      (alone : linkArtifacts.debugFile = none → data = file)
      (database : ∀ debug, linkArtifacts.debugFile = some debug → ∃ debugFile, debug = some debugFile ∧
        file <+: data ∧ (data.length < 2 ^ 64 → findDatabase data = some (file, debugFile))) :
      Serialized variant compiled
        ⟨variant.format, data, some variant.target.objectFormat.mimeType⟩

/-- The library is at the start of the file. -/
theorem prefix_appendDebugDatabase (baseFile debugFile : List UInt8) :
    baseFile <+: appendDebugDatabase baseFile debugFile := by
  rw [appendDebugDatabase_eq, resize_eq_append (le_alignUp (by decide) _), List.append_assoc]
  exact List.prefix_append _ _

theorem serializeStaticLibraryExecutable_eq_ok {compiled : Compiled} {binary : ExecutableBinary}
    (h : serializeStaticLibraryExecutable compiled = .ok binary) :
    compiled.objectFiles = 1 ∧ compiled.staticLibraryWritten = true ∧
      binary = ⟨"static", compiled.libraryName.toUTF8.toList ++ [0], none⟩ := by
  unfold serializeStaticLibraryExecutable at h
  by_cases hone : compiled.objectFiles = 1
  · cases hwritten : compiled.staticLibraryWritten with
    | false => simp [hone, hwritten] at h
    | true =>
      refine ⟨hone, rfl, ?_⟩
      simpa [hone, hwritten, pure, Except.pure] using h.symm
  · simp [hone] at h

theorem serializeDynamicLibraryExecutable_serialized {variant : ExecutableTarget} {compiled : Compiled}
    {binary : ExecutableBinary} (hstatic : variant.target.linkStatic = false)
    (h : serializeDynamicLibraryExecutable variant compiled = .ok binary) :
    Serialized variant compiled binary := by
  unfold serializeDynamicLibraryExecutable at h
  cases hlinked : compiled.linkArtifacts with
  | none => simp [hlinked] at h
  | some linkArtifacts =>
    cases hlibrary : linkArtifacts.libraryFile with
    | none => simp [hlinked, hlibrary] at h
    | some file =>
      simp only [hlinked, hlibrary] at h
      cases hembedded : variant.target.linkEmbedded with
      | true =>
        rw [hembedded, if_pos rfl] at h
        obtain rfl := Except.ok.inj h
        exact .embedded hstatic hembedded hlinked hlibrary
      | false =>
        rw [hembedded, if_neg Bool.false_ne_true] at h
        cases hdebug : linkArtifacts.debugFile with
        | none =>
          rw [hdebug] at h
          obtain rfl := Except.ok.inj h
          exact .system hstatic hembedded hlinked hlibrary (fun _ => rfl) fun debug hsome => by
            rw [hdebug] at hsome
            cases hsome
        | some debug =>
          cases debug with
          | none => simp [hdebug] at h
          | some debugFile =>
            rw [hdebug] at h
            obtain rfl := Except.ok.inj h
            refine .system hstatic hembedded hlinked hlibrary (fun hnone => ?_) fun debug hsome => ?_
            · rw [hdebug] at hnone
              cases hnone
            · rw [hdebug] at hsome
              obtain rfl := Option.some.inj hsome
              exact ⟨debugFile, rfl, prefix_appendDebugDatabase _ _, findDatabase_append⟩

theorem serializeExecutable_serialized {variant : ExecutableTarget} {compiled : Compiled}
    {binary : ExecutableBinary} (h : serializeExecutable variant compiled = .ok binary) :
    Serialized variant compiled binary := by
  unfold serializeExecutable at h
  cases hstatic : variant.target.linkStatic with
  | true =>
    cases hembedded : variant.target.linkEmbedded with
    | true => simp [hstatic, hembedded] at h
    | false =>
      rw [hstatic, hembedded] at h
      obtain ⟨hone, hwritten, rfl⟩ := serializeStaticLibraryExecutable_eq_ok h
      exact .static hstatic hembedded hone hwritten
  | false =>
    rw [hstatic, Bool.and_false, if_neg Bool.false_ne_true, if_neg Bool.false_ne_true] at h
    exact serializeDynamicLibraryExecutable_serialized hstatic h

/-- What can be written is written. -/
theorem Serialized.exists_ok {variant : ExecutableTarget} {compiled : Compiled} {binary : ExecutableBinary}
    (h : Serialized variant compiled binary) : ∃ b, serializeExecutable variant compiled = .ok b := by
  cases h with
  | static isStatic notEmbedded oneFile written =>
    refine ⟨⟨"static", compiled.libraryName.toUTF8.toList ++ [0], none⟩, ?_⟩
    simp [serializeExecutable, serializeStaticLibraryExecutable, isStatic, notEmbedded, oneFile, written,
      pure, Except.pure]
  | @embedded linkArtifacts file notStatic isEmbedded linked library =>
    refine ⟨⟨variant.format, file, some "application/x-elf"⟩, ?_⟩
    simp [serializeExecutable, serializeDynamicLibraryExecutable, notStatic, isEmbedded, linked, library,
      pure, Except.pure]
  | @system linkArtifacts file data notStatic notEmbedded linked library alone database =>
    cases hdebug : linkArtifacts.debugFile with
    | none =>
      refine ⟨⟨variant.format, file, some variant.target.objectFormat.mimeType⟩, ?_⟩
      simp [serializeExecutable, serializeDynamicLibraryExecutable, notStatic, notEmbedded, linked,
        library, hdebug, pure, Except.pure]
    | some debug =>
      obtain ⟨debugFile, rfl, -⟩ := database debug hdebug
      refine ⟨⟨variant.format, appendDebugDatabase file debugFile,
        some variant.target.objectFormat.mimeType⟩, ?_⟩
      simp [serializeExecutable, serializeDynamicLibraryExecutable, notStatic, notEmbedded, linked,
        library, hdebug, pure, Except.pure]

/-- **Serialization** ends with a binary exactly when there is something to write, and every binary holds
    what it should: the footer of a library with a debug database leads to both, byte by byte, and the
    library is still at the start of the file. -/
theorem serializeExecutable_serializes (variant : ExecutableTarget) (compiled : Compiled) :
    (∀ binary, serializeExecutable variant compiled = .ok binary → Serialized variant compiled binary) ∧
      ∀ binary, Serialized variant compiled binary → ∃ b, serializeExecutable variant compiled = .ok b :=
  ⟨fun _ => serializeExecutable_serialized, fun _ => Serialized.exists_ok⟩

end CoralNPU.Target
