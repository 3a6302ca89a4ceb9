import CoralNPU.Crt.Section
import CoralNPU.Crt.LinkerScript

namespace CoralNPU.Crt

open Lib Lib.Rv32 Relation

/-!
# Crt — the startup code zeroes `.bss`

The lines of `_start` that call `crt_section_clear`, with the addresses that the linker puts in.

* `zeroBss` — the lines.
* `StartupClears` — they zero `.bss`, and keep `.noinit`.
* `clearError_iff` — the linker script does not align `__bss_end__`, and the routine asks for it.
* `startup_clears_iff` — so they do this for the sizes that happen to fit.
-/

/-- The lines of `_start` below "Zero out the bss section". -/
def zeroBss (image : Image) : Code Label :=
  [.la .a0 (BitVec.ofNat 32 image.bss.start),
    .la .a1 (BitVec.ofNat 32 image.bss.stop),
    .call .crt_section_clear]

/-- The machine in front of these lines. -/
def starting (image : Image) (regs : Reg → Word) (mem : AddressSpace) : Machine Label :=
  ⟨zeroBss image, none, regs, mem⟩

/-- The lines are left behind, every byte of an input section of `.bss` is zero then, and the bytes of
    `.noinit` are as before. -/
def StartupClears (image : Image) : Prop :=
  ∀ regs mem, ¬ Traps crt (starting image regs mem) ∧
    ∃ s', Runs crt (starting image regs mem) .endOfCode s' ∧
      (∀ r ∈ image.bss.inputs, ∀ p, r.Has p → s'.mem (BitVec.ofNat 32 p) = 0) ∧
      ∀ p, image.noinit.start ≤ p → p < image.noinit.stop →
        s'.mem (BitVec.ofNat 32 p) = mem (BitVec.ofNat 32 p)

section Startup

variable {region : MemoryRegion} {dot : Nat} {objects : List InputSection} {image : Image}

/-- The arguments of the call are rejected if `.bss` does not end at the address of a word. -/
theorem clearError_iff (h : link region dot objects = some image) :
    ClearError (BitVec.ofNat 32 image.bss.start) (BitVec.ofNat 32 image.bss.stop) ↔
      ¬ 4 ∣ placeEnd 0 (select bssPatterns objects) := by
  obtain ⟨hle, hnoinit, hle', hlt⟩ := link_bounds h
  have hstart := four_dvd_bss_start h
  have hstop := bss_stop h
  have htoNat : ∀ p, p ≤ image.bss.stop → (BitVec.ofNat 32 p).toNat = p := by
    intro p hp
    rw [BitVec.toNat_ofNat, Nat.mod_eq_of_lt (by omega)]
  rw [ClearError, BitVec.lt_def, ← BitVec.toNat_inj.ne, WordAligned, WordAligned,
    htoNat _ hle, htoNat _ (Nat.le_refl _)]
  omega

/-- The registers at the call. -/
def arguments (image : Image) (regs : Reg → Word) : Reg → Word :=
  write (write regs .a0 (BitVec.ofNat 32 image.bss.start)) .a1 (BitVec.ofNat 32 image.bss.stop)

/-- The startup code calls `crt_section_clear` with the bounds of `.bss`. -/
theorem zeroBss_reaches (image : Image) (regs : Reg → Word) (mem : AddressSpace) :
    Reaches crt (starting image regs mem)
      ⟨codeAt .crt_section_clear crt, some [], arguments image regs, mem⟩ :=
  ReflTransGen.trans reaches_la (ReflTransGen.trans reaches_la reaches_call)

/-- It traps if the length of `.bss` is no multiple of four. -/
theorem startup_traps (h : link region dot objects = some image)
    (hsize : ¬ 4 ∣ placeEnd 0 (select bssPatterns objects)) (regs : Reg → Word) (mem : AddressSpace) :
    Traps crt (starting image regs mem) := by
  obtain ⟨s', htraps⟩ :=
    section_clear_traps (some []) (arguments image regs) mem ((clearError_iff h).mpr hsize)
  exact ⟨s', Exits.of_continues (zeroBss_reaches image regs mem) htraps⟩

/-- The memory behind the call. -/
theorem startup_runs (h : link region dot objects = some image)
    (hsize : 4 ∣ placeEnd 0 (select bssPatterns objects)) (regs : Reg → Word) (mem : AddressSpace) :
    ∃ s', Runs crt (starting image regs mem) .endOfCode s' ∧ ∀ p < 0x100000000,
      s'.mem (BitVec.ofNat 32 p) =
        if image.bss.start ≤ p ∧ p < image.bss.stop then 0 else mem (BitVec.ofNat 32 p) := by
  have hargs : ¬ ClearError (arguments image regs .a0) (arguments image regs .a1) :=
    fun herror => (clearError_iff h).mp herror hsize
  have hle : arguments image regs .a0 ≤ arguments image regs .a1 := BitVec.not_lt.mp (not_or.mp hargs).1
  obtain ⟨regs', hreturned⟩ := (section_clear_returns (some []) _ mem hargs).reaches rfl
  refine ⟨_, Exits.of_continues ((zeroBss_reaches image regs mem).trans hreturned)
    (Exits.of_inr rfl), fun p hp => ?_⟩
  obtain ⟨hle', hnoinit, hle'', hlt⟩ := link_bounds h
  refine (fill_sub mem hle (fun _ => 0) _).trans (if_congr ?_ rfl rfl)
  show BitVec.ofNat 32 image.bss.start ≤ _ ∧ _ < BitVec.ofNat 32 image.bss.stop ↔ _
  rw [BitVec.le_def, BitVec.lt_def, BitVec.toNat_ofNat, BitVec.toNat_ofNat, BitVec.toNat_ofNat]
  omega

/-- **The startup code zeroes `.bss` exactly for the sizes that are whole words.** -/
theorem startup_clears_iff (h : link region dot objects = some image) :
    StartupClears image ↔ 4 ∣ placeEnd 0 (select bssPatterns objects) := by
  constructor
  · intro hclears
    by_contra hsize
    exact (hclears (fun _ => 0) fun _ => 0).1 (startup_traps h hsize _ _)
  · intro hsize regs mem
    obtain ⟨s', hruns, hmem⟩ := startup_runs h hsize regs mem
    obtain ⟨hle, hnoinit, hle', hlt⟩ := link_bounds h
    refine ⟨hruns.not_traps (by decide), s', hruns, fun r hr p hp => ?_, fun p hlo hhi => ?_⟩
    · obtain ⟨hfirst, hlast⟩ := mem_bss_inputs h hr
      obtain ⟨hlo, hhi⟩ := hp
      rw [hmem p (by omega), if_pos ⟨by omega, by omega⟩]
    · rw [hmem p (by omega), if_neg (by omega)]

end Startup

/-- A table of two words, a halfword in front of it, and the request of the host. -/
def wholeWords : List InputSection :=
  [⟨⟨8, 4, 2, rfl⟩, ".bss.table"⟩, ⟨⟨2, 2, 1, rfl⟩, ".sbss"⟩,
    ⟨⟨64, 16, 4, rfl⟩, ".noinit.coralnpu_dispatch_request"⟩]

/-- A program with whole words starts. -/
theorem wholeWords_clear :
    ∃ image, link DTCM 0x10010 wholeWords = some image ∧ StartupClears image := by
  obtain ⟨image, himage⟩ : ∃ image, link DTCM 0x10010 wholeWords = some image := ⟨_, rfl⟩
  exact ⟨image, himage, (startup_clears_iff himage).mpr (by decide)⟩

/-- One byte, so that `.bss` ends behind the address of a word. -/
def oneByte : List InputSection := [⟨⟨1, 1, 0, rfl⟩, ".sbss"⟩]

/-- One with a single byte does not. -/
theorem oneByte_traps :
    ∃ image, link DTCM 0x10010 oneByte = some image ∧ ¬ StartupClears image := by
  obtain ⟨image, himage⟩ : ∃ image, link DTCM 0x10010 oneByte = some image := ⟨_, rfl⟩
  refine ⟨image, himage, fun hclears => ?_⟩
  exact (hclears (fun _ => 0) fun _ => 0).1 (startup_traps himage (by decide) _ _)

end CoralNPU.Crt
