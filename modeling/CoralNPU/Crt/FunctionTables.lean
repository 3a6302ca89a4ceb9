import Mathlib.Data.List.Flatten
import CoralNPU.Crt.LinkerScript
import CoralNPU.Crt.StartRun

namespace CoralNPU.Crt

open Lib Lib.Rv32.Caller
open Lib.Rv32 (Word AddressSpace WordAligned)

/-!
# Crt — the tables of constructors and destructors in the linker script

The output sections `.init.array` and `.fini.array` of `coralnpu_tcm.ld.tpl`.

* `TableSection`, `selectTables` — input sections that hold function addresses.
* `FunctionTables`, `linkTables` — the two output sections. The first one has no `KEEP`, so unreferenced
  sections are collected, and is filled up to a multiple of 16 bytes.
* `initWords`, `length_initWords` — what the loop over the first table finds there.
-/

/-- An input section of function addresses. -/
structure TableSection extends InputSection where
  entries : List Word
  size_eq : size = 4 * entries.length
  alignment_eq : alignment = 4

/-- The sections that the patterns select, as `select` does. -/
def selectTables (patterns : List Pattern) (objects : List TableSection) : List TableSection :=
  patterns.flatMap fun pattern => objects.filter fun s => pattern.matches s.toInputSection

/-- The blocks of some tables. -/
def blocks (tables : List TableSection) : List Block := tables.map fun s => s.toBlock

/-- The addresses of some tables, in order. -/
def addresses (tables : List TableSection) : List Word := tables.flatMap TableSection.entries

/-- The patterns of `.init.array`. -/
def initArrayPatterns : List Pattern := [.exactly ".init_array", .starting ".init_array."]

/-- The patterns of `.fini.array`. -/
def finiArrayPatterns : List Pattern := [.exactly ".fini_array", .starting ".fini_array."]

/-- The constructors of a program. -/
def constructorsOf (objects : List TableSection) : List Word :=
  addresses (selectTables initArrayPatterns objects)

/-- The destructors of a program. -/
def destructorsOf (objects : List TableSection) : List Word :=
  addresses (selectTables finiArrayPatterns objects)

/-- What the linker makes of the tables: their ends, and the addresses in them. -/
structure FunctionTables where
  initArrayStart : Nat
  initArrayEnd : Nat
  constructors : List Word
  finiArrayStart : Nat
  finiArrayEnd : Nat
  destructors : List Word

/-- The two output sections from the location counter on.  Of what has no `KEEP`, `--gc-sections` leaves
    the sections that are `live`: a section that is kept refers to them. -/
def linkTables (live : TableSection → Bool) (dot : Nat) (objects : List TableSection) :
    FunctionTables :=
  let init := (selectTables initArrayPatterns objects).filter live
  let fini := selectTables finiArrayPatterns objects
  let initArray := outputSection dot (blocks init)
  -- `. = ALIGN(16)` in front of `__init_array_end__`
  let initArrayEnd := alignUp 16 initArray.stop
  let finiArrayStart := alignUp (strictest 1 (blocks fini)) initArrayEnd
  { initArrayStart := initArray.start
    initArrayEnd
    constructors := addresses init
    finiArrayStart
    finiArrayEnd := placeEnd finiArrayStart (blocks fini)
    destructors := addresses fini }

/-- Tables stand behind one another without gaps. -/
theorem placeEnd_blocks (tables : List TableSection) : ∀ dot, 4 ∣ dot →
    placeEnd dot (blocks tables) = dot + 4 * (addresses tables).length := by
  induction tables with
  | nil => exact fun _ _ => rfl
  | cons t ts ih =>
    intro dot hdot
    have hstart : alignUp t.alignment dot = dot := by
      obtain ⟨k, rfl⟩ := hdot
      rw [t.alignment_eq, alignUp]
      omega
    have hsize := t.size_eq
    have hcons : (addresses (t :: ts)).length = t.entries.length + (addresses ts).length := by
      rw [addresses, List.flatMap_cons, List.length_append]
      rfl
    show placeEnd (alignUp t.alignment dot + t.size) (blocks ts) = _
    rw [hstart, ih _ (by omega), hcons]
    omega

/-- The alignment of an output section with tables only. -/
theorem strictest_blocks (n : Nat) (tables : List TableSection) :
    strictest n (blocks tables) = if tables = [] then n else max 4 n := by
  induction tables with
  | nil => rfl
  | cons t ts ih =>
    show max t.alignment (strictest n (blocks ts)) = _
    rw [ih, t.alignment_eq, if_neg (List.cons_ne_nil t ts)]
    split
    · rfl
    · exact Nat.max_eq_right (Nat.le_max_left 4 n)

section Tables

variable (live : TableSection → Bool) (dot : Nat) (objects : List TableSection)

theorem sixteen_dvd_initArrayStart : 16 ∣ (linkTables live dot objects).initArrayStart := by
  have hdvd := outputSection_dvd dot (blocks ((selectTables initArrayPatterns objects).filter live))
  rw [strictest_blocks] at hdvd
  split at hdvd
  · exact hdvd
  · exact hdvd

/-- The size of the table of constructors is the next multiple of 16 bytes. -/
theorem initArrayEnd_eq : (linkTables live dot objects).initArrayEnd = (linkTables live dot objects).initArrayStart
    + 16 * (((linkTables live dot objects).constructors.length + 3) / 4) := by
  obtain ⟨k, hk⟩ := sixteen_dvd_initArrayStart live dot objects
  have hstop : (outputSection dot (blocks ((selectTables initArrayPatterns objects).filter live))).stop
      = (linkTables live dot objects).initArrayStart + 4 * (linkTables live dot objects).constructors.length :=
    placeEnd_blocks _ _ (show 4 ∣ (linkTables live dot objects).initArrayStart by omega)
  show alignUp 16 (outputSection dot _).stop = _
  rw [hstop, hk, alignUp]
  omega

theorem four_dvd_finiArrayStart : 4 ∣ (linkTables live dot objects).finiArrayStart := by
  have hinit := initArrayEnd_eq live dot objects
  obtain ⟨k, hk⟩ := sixteen_dvd_initArrayStart live dot objects
  show 4 ∣ alignUp (strictest 1 _) (linkTables live dot objects).initArrayEnd
  rw [strictest_blocks]
  split
  · rw [alignUp]
    omega
  · exact dvd_alignUp 4 _

theorem finiArrayEnd_eq : (linkTables live dot objects).finiArrayEnd
    = (linkTables live dot objects).finiArrayStart + 4 * (linkTables live dot objects).destructors.length :=
  placeEnd_blocks _ _ (four_dvd_finiArrayStart live dot objects)

/-- What is left of the constructors, with nothing in between. -/
theorem constructors_sublist :
    List.Sublist (linkTables live dot objects).constructors (constructorsOf objects) :=
  (List.filter_sublist).flatMap TableSection.entries

/-- The words between `__init_array_start__` and `__init_array_end__`: the constructors, and zeros up
    to the multiple of 16 bytes. -/
def initWords (t : FunctionTables) : List Word :=
  t.constructors ++ List.replicate ((t.initArrayEnd - t.initArrayStart) / 4 - t.constructors.length) 0

theorem length_initWords :
    (linkTables live dot objects).initArrayEnd = (linkTables live dot objects).initArrayStart
      + 4 * (initWords (linkTables live dot objects)).length := by
  have hend := initArrayEnd_eq live dot objects
  rw [initWords, List.length_append, List.length_replicate]
  omega

/-- There is no padding exactly for a multiple of four constructors. -/
theorem initWords_eq_iff : initWords (linkTables live dot objects) = (linkTables live dot objects).constructors ↔
    4 ∣ (linkTables live dot objects).constructors.length := by
  have hend := initArrayEnd_eq live dot objects
  rw [initWords, List.append_right_eq_self, List.replicate_eq_nil_iff]
  omega

end Tables

end CoralNPU.Crt
