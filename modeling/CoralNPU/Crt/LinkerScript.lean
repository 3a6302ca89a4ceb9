import CoralNPU.Lib.Layout

namespace CoralNPU.Crt

open Lib

/-!
# Crt — `.bss` and `.noinit` in the linker script

The part of `coralnpu_tcm.ld.tpl` from the end of `.data` to the end of `.noinit`.  What the script
puts in front only says where the location counter stands then.

* `InputSection`, `Pattern` — the sections of the object files, and the patterns that select them.
* `OutputSection`, `Image`, `link` — what the linker makes of them, if it fits the memory region.
* `link_bounds`, `four_dvd_bss_start`, `bss_stop`, `mem_bss_inputs` — what the startup code needs to
  know about an image.
-/

/-- A section of an object file. -/
structure InputSection extends Block where
  name : String

/-- What stands in `*(…)`: a name, as `.bss`, or what a name starts with, as `.bss.` for `.bss.*`. -/
inductive Pattern
  | exactly (name : String)
  | starting (stem : String)
  deriving DecidableEq, Repr

/-- Whether a pattern selects a section, by its name. -/
def Pattern.matches : Pattern → InputSection → Bool
  | .exactly name, s => s.name == name
  | .starting stem, s => stem.toList.isPrefixOf s.name.toList

/-- The sections that the patterns select, pattern by pattern, in the order of the object files. -/
def select (patterns : List Pattern) (objects : List InputSection) : List Block :=
  patterns.flatMap fun pattern =>
    (objects.filter fun s => pattern.matches s).map InputSection.toBlock

/-- The patterns of `.bss`. -/
def bssPatterns : List Pattern :=
  [.exactly ".sbss", .starting ".sbss.", .exactly ".bss", .starting ".bss."]

/-- The patterns of `.noinit`. -/
def noinitPatterns : List Pattern := [.exactly ".noinit", .starting ".noinit."]

/-- A line of `MEMORY`. -/
structure MemoryRegion where
  origin : Nat
  length : Nat
  fits : origin + length < 0x100000000

/-- `DTCM`, with the values that the build puts into the template. -/
def DTCM : MemoryRegion := ⟨0x00010000, 32 * 1024, by decide⟩

/-- An output section: what `.` is at its start and at its end, and where its input sections are. -/
structure OutputSection where
  start : Nat
  stop : Nat
  inputs : List Region

/-- An output section with `ALIGN(16)`. The alignments of its input sections may be larger. -/
def outputSection (dot : Nat) (blocks : List Block) : OutputSection :=
  let start := alignUp (strictest 16 blocks) dot
  { start, stop := placeEnd start blocks, inputs := place start blocks }

/-- What the linker writes. `__bss_start__` and `__bss_end__` are the ends of `bss`. -/
structure Image where
  bss : OutputSection
  noinit : OutputSection

/-- The two output sections from the location counter on, or nothing if the region overflows. -/
def link (region : MemoryRegion) (dot : Nat) (objects : List InputSection) : Option Image :=
  let bss := outputSection dot (select bssPatterns objects)
  let noinit := outputSection bss.stop (select noinitPatterns objects)
  if noinit.stop ≤ region.origin + region.length then some { bss, noinit } else none

/-! ### The image -/

/-- The alignment in the script is a power of two. -/
theorem isPowerOfTwo_sixteen : Nat.isPowerOfTwo 16 := ⟨4, rfl⟩

/-- An output section is as aligned as its strictest input. -/
theorem outputSection_dvd (dot : Nat) (blocks : List Block) :
    strictest 16 blocks ∣ (outputSection dot blocks).start := dvd_alignUp _ dot

/-- It begins at the location counter or later, and ends after its beginning. -/
theorem outputSection_le (dot : Nat) (blocks : List Block) :
    dot ≤ (outputSection dot blocks).start ∧
      (outputSection dot blocks).start ≤ (outputSection dot blocks).stop := by
  have hpos := Nat.pos_of_isPowerOfTwo (isPowerOfTwo_strictest isPowerOfTwo_sixteen blocks)
  exact ⟨le_alignUp hpos dot, le_placeEnd _ blocks⟩

/-- The size of an output section is that of its input sections with their padding. -/
theorem outputSection_stop (dot : Nat) (blocks : List Block) :
    (outputSection dot blocks).stop = (outputSection dot blocks).start + placeEnd 0 blocks :=
  placeEnd_add (fun _ hb => Nat.dvd_trans (dvd_strictest isPowerOfTwo_sixteen hb)
    (outputSection_dvd dot blocks)) 0

section Image

variable {region : MemoryRegion} {dot : Nat} {objects : List InputSection} {image : Image}

/-- The two sections of an image, one after the other, in the region. -/
theorem link_eq (h : link region dot objects = some image) :
    image.bss = outputSection dot (select bssPatterns objects) ∧
      image.noinit = outputSection image.bss.stop (select noinitPatterns objects) ∧
      image.noinit.stop ≤ region.origin + region.length := by
  simp only [link] at h
  split at h
  next hfits =>
    obtain rfl := Option.some.inj h
    exact ⟨rfl, rfl, hfits⟩
  next => cases h

/-- All addresses have 32 bits, and `.noinit` lies behind `.bss`. -/
theorem link_bounds (h : link region dot objects = some image) :
    image.bss.start ≤ image.bss.stop ∧ image.bss.stop ≤ image.noinit.start ∧
      image.noinit.start ≤ image.noinit.stop ∧ image.noinit.stop < 0x100000000 := by
  obtain ⟨hbss, hnoinit, hfits⟩ := link_eq h
  have hregion := region.fits
  refine ⟨?_, ?_, ?_, by omega⟩
  · rw [hbss]
    exact (outputSection_le _ _).2
  · rw [hnoinit]
    exact (outputSection_le _ _).1
  · rw [hnoinit]
    exact (outputSection_le _ _).2

/-- `__bss_start__` is the address of a word. -/
theorem four_dvd_bss_start (h : link region dot objects = some image) : 4 ∣ image.bss.start := by
  obtain ⟨hbss, -, -⟩ := link_eq h
  have h16 : 16 ∣ strictest 16 (select bssPatterns objects) :=
    isPowerOfTwo_dvd isPowerOfTwo_sixteen (isPowerOfTwo_strictest isPowerOfTwo_sixteen _)
      (le_strictest 16 _)
  rw [hbss]
  exact Nat.dvd_trans (by decide : 4 ∣ 16) (Nat.dvd_trans h16 (outputSection_dvd _ _))

/-- The length of `.bss` is that of its inputs. -/
theorem bss_stop (h : link region dot objects = some image) :
    image.bss.stop = image.bss.start + placeEnd 0 (select bssPatterns objects) := by
  obtain ⟨hbss, -, -⟩ := link_eq h
  rw [hbss]
  exact outputSection_stop _ _

/-- The inputs of `.bss` lie in it. -/
theorem mem_bss_inputs (h : link region dot objects = some image) {r : Region}
    (hr : r ∈ image.bss.inputs) :
    image.bss.start ≤ r.first ∧ r.first + r.length ≤ image.bss.stop := by
  obtain ⟨hbss, -, -⟩ := link_eq h
  rw [hbss] at hr ⊢
  exact mem_place hr

end Image

end CoralNPU.Crt
