import CoralNPU.Crt.FunctionTables
import CoralNPU.Crt.Startup

namespace CoralNPU.Crt

open Lib Lib.Rv32.Caller Relation
open Lib.Rv32 (Reg Word AddressSpace loadWord WordAligned)

/-!
# Crt — from reset to the end of the program

The entry point in a linked image.

* `Loaded`, `Application` — the image in memory, and functions that return.
* `CompleteRun` — what a run is to do: clear `.bss`, call every constructor once and in order, `main`,
  `__cxa_finalize`, and every destructor once and in reverse order.
* `start_complete_iff` — it does so when `.bss` is whole words, no constructor was collected and their
  table needs no padding.  Otherwise `crt_section_clear` does not return, constructors are left out, or
  the loop calls the padding, which is address 0, where `_start` is.
-/

/-- The image is in memory, and everything up to the tables is below `limit`. -/
structure Loaded (sym : Symbols) (t : FunctionTables) (image : Image) (mem : AddressSpace)
    (limit : Nat) : Prop where
  initArrayStart : sym.initArrayStart = BitVec.ofNat 32 t.initArrayStart
  initArrayEnd : sym.initArrayEnd = BitVec.ofNat 32 t.initArrayEnd
  finiArrayStart : sym.finiArrayStart = BitVec.ofNat 32 t.finiArrayStart
  finiArrayEnd : sym.finiArrayEnd = BitVec.ofNat 32 t.finiArrayEnd
  bssStart : sym.bssStart = BitVec.ofNat 32 image.bss.start
  bssEnd : sym.bssEnd = BitVec.ofNat 32 image.bss.stop
  initArray : TableAt mem sym.initArrayStart (initWords t)
  finiArray : TableAt mem sym.finiArrayStart t.destructors
  below : t.initArrayEnd ≤ limit ∧ t.finiArrayEnd ≤ limit

/-- The functions of the application return.  `_start`, which the linker script puts at address 0, does
    not. -/
structure Application (function : Function) (sym : Symbols) (t : FunctionTables) : Prop where
  constructors : AllReturn function t.constructors
  destructors : AllReturn function t.destructors
  main : ∀ s, (function sym.main s).isSome
  cxaFinalize : ∀ s, (function sym.cxaFinalize s).isSome
  start : ∀ s, function 0 s = none
  clear_not_mem : sym.crtSectionClear ∉ t.constructors ∧ sym.crtSectionClear ∉ t.destructors

/-- What a run from reset is to do, for a program with these constructors and destructors. -/
structure CompleteRun (function : Function) (sym : Symbols) (constructors destructors : List Word)
    (halt : Halt) (m : Machine StartLabel) : Prop where
  called : m.called = sym.crtSectionClear :: constructors ++ [sym.main, sym.cxaFinalize]
    ++ destructors.reverse
  pointers : ∀ c ∈ m.calls, c.2.regs .sp = sym.stackEnd ∧ c.2.regs .gp = sym.globalPointer
  cleared : ∃ s s', m.calls.head? = some (sym.crtSectionClear, s) ∧
    function sym.crtSectionClear s = some s' ∧
    ∀ p, sym.bssStart ≤ p → p < sym.bssEnd → s'.mem p = 0
  /-- The result of `main` is in `_ret`, and tells how the run ends. -/
  exit : ∃ s s', m.calls[constructors.length + 1]? = some (sym.main, s) ∧ s.regs .a0 = 0 ∧
    s.regs .a1 = 0 ∧ function sym.main s = some s' ∧
    loadWord m.state.mem sym.ret = s'.regs .a0 ∧
    halt = if s'.regs .a0 = 0 then .word mpause else .ebreak

section Boot

variable {function : Function} (counter : Csr → State → Word) {sym : Symbols} {limit dot : Nat}
  {live : TableSection → Bool} {objects : List TableSection} {region : MemoryRegion} {dotBss : Nat}
  {sections : List InputSection} {image : Image} {s₀ : State}

/-- A table that the linker puts below `limit`. -/
theorem table_of_linked {mem : AddressSpace} {start stop : Nat} {startSym stopSym : Word}
    {ws : List Word} (hstart : startSym = BitVec.ofNat 32 start) (hstop : stopSym = BitVec.ofNat 32 stop)
    (haligned : 4 ∣ start) (hsize : stop = start + 4 * ws.length) (hbelow : stop ≤ limit)
    (hlimit : limit < 2 ^ 32) (hwords : TableAt mem startSym ws) :
    Table mem limit startSym stopSym ws := by
  have hstart' : startSym.toNat = start := by
    rw [hstart, BitVec.toNat_ofNat, Nat.mod_eq_of_lt (by omega)]
  have hstop' : stopSym.toNat = stop := by
    rw [hstop, BitVec.toNat_ofNat, Nat.mod_eq_of_lt (by omega)]
  refine ⟨?_, by omega, hwords, by omega⟩
  rw [WordAligned]
  omega

theorem Loaded.initTable {mem : AddressSpace}
    (h : Loaded sym (linkTables live dot objects) image mem limit) (hlimit : limit < 2 ^ 32) :
    Table mem limit sym.initArrayStart sym.initArrayEnd (initWords (linkTables live dot objects)) :=
  table_of_linked h.initArrayStart h.initArrayEnd
    (Nat.dvd_trans (by decide) (sixteen_dvd_initArrayStart live dot objects))
    (length_initWords live dot objects) h.below.1 hlimit h.initArray

theorem Loaded.finiTable {mem : AddressSpace}
    (h : Loaded sym (linkTables live dot objects) image mem limit) (hlimit : limit < 2 ^ 32) :
    Table mem limit sym.finiArrayStart sym.finiArrayEnd (linkTables live dot objects).destructors :=
  table_of_linked h.finiArrayStart h.finiArrayEnd (four_dvd_finiArrayStart live dot objects)
    (finiArrayEnd_eq live dot objects) h.below.2 hlimit h.finiArray

/-- `crt_section_clear` returns exactly if `.bss` is whole words. -/
theorem Loaded.clearError_iff {mem : AddressSpace}
    (h : Loaded sym (linkTables live dot objects) image mem limit)
    (hlink : link region dotBss sections = some image) :
    ClearError sym.bssStart sym.bssEnd ↔ ¬ 4 ∣ placeEnd 0 (select bssPatterns sections) := by
  rw [h.bssStart, h.bssEnd]
  exact Crt.clearError_iff hlink

/-- Calls that keep the pointers. -/
theorem HasCalled.pointers {m m' : Machine StartLabel} {ws : List Word}
    (h : HasCalled limit m ws m')
    (hm : ∀ c ∈ m.calls, c.2.regs .sp = sym.stackEnd ∧ c.2.regs .gp = sym.globalPointer)
    (hsp : m.state.regs .sp = sym.stackEnd) (hgp : m.state.regs .gp = sym.globalPointer) :
    (∀ c ∈ m'.calls, c.2.regs .sp = sym.stackEnd ∧ c.2.regs .gp = sym.globalPointer) ∧
      m'.state.regs .sp = sym.stackEnd ∧ m'.state.regs .gp = sym.globalPointer := by
  obtain ⟨⟨calls, hcalls, -, hkept⟩, hstate⟩ := h
  refine ⟨fun c hc => ?_, (hstate.regs .sp (by decide)).trans hsp,
    (hstate.regs .gp (by decide)).trans hgp⟩
  rw [hcalls] at hc
  rcases List.mem_append.mp hc with hc | hc
  · exact hm c hc
  · exact ⟨((hkept c hc).regs .sp (by decide)).trans hsp, ((hkept c hc).regs .gp (by decide)).trans hgp⟩

/-- **Without padding** the run is complete, for what is left of the constructors. -/
theorem start_runs (hfw : Firmware function sym limit) (hbss : ¬ ClearError sym.bssStart sym.bssEnd)
    (hloaded : Loaded sym (linkTables live dot objects) image s₀.mem limit)
    (happ : Application function sym (linkTables live dot objects))
    (hwords : initWords (linkTables live dot objects) = (linkTables live dot objects).constructors) :
    ∃ halt m, Runs function counter (start sym) ⟨start sym, s₀, []⟩ halt m ∧
      CompleteRun function sym (linkTables live dot objects).constructors (destructorsOf objects)
        halt m := by
  -- the first lines, and the constructors
  obtain ⟨s, s₁, hstart, hsp, hgp, hcleared, hprepared⟩ :=
    start_reaches_constructors counter hfw hbss s₀
  have hinit := (hwords ▸ hloaded.initTable hfw.limit_lt).congr hfw.limit_lt hprepared.below
  obtain ⟨m₁, hconstructors, hcalled₁, hpc₁⟩ := constructors_reach counter hfw
    [(sym.crtSectionClear, s)] hinit happ.clear_not_mem.1 happ.constructors
  obtain ⟨hpointers₁, hsp₁, hgp₁⟩ := hcalled₁.pointers
    (fun c hc => by rw [List.mem_singleton.mp hc]; exact ⟨hsp, hgp⟩) hprepared.stack hprepared.global
  -- `main`
  obtain ⟨pc₁, state₁, calls₁⟩ := m₁
  obtain rfl : pc₁ = _ := hpc₁
  obtain ⟨s₂, hmainReached, hra, ha0, ha1, hkept₂⟩ :=
    loopEnd_reaches_main counter hfw state₁ calls₁
  obtain ⟨s₃, hs₃⟩ := Option.isSome_iff_exists.mp (happ.main s₂)
  obtain ⟨s₄, s₅, hmain, hresult, hregs, hmem₅⟩ :=
    main_reaches counter hfw calls₁ hra hs₃ happ.cxaFinalize
  have hsp₂ : s₂.regs .sp = sym.stackEnd := (hkept₂.regs .sp (by decide)).trans hsp₁
  have hgp₂ : s₂.regs .gp = sym.globalPointer := (hkept₂.regs .gp (by decide)).trans hgp₁
  -- the destructors
  have hbelow : ∀ p : Word, p.toNat < limit → s₅.mem p = s₀.mem p := fun p hp =>
    (hmem₅ p hp).trans ((hkept₂.below p hp).trans
      ((hcalled₁.kept.below p hp).trans (hprepared.below p hp)))
  obtain ⟨m₆, hdestructors, hcalled₆, hpc₆⟩ := destructors_reach counter hfw
    (calls₁ ++ [(sym.main, s₂), (sym.cxaFinalize, s₄)])
    ((hloaded.finiTable hfw.limit_lt).congr hfw.limit_lt hbelow) happ.clear_not_mem.2 happ.destructors
  have hpointers₅ : ∀ c ∈ calls₁ ++ [(sym.main, s₂), (sym.cxaFinalize, s₄)],
      c.2.regs .sp = sym.stackEnd ∧ c.2.regs .gp = sym.globalPointer := by
    intro c hc
    rcases List.mem_append.mp hc with hc | hc
    · exact hpointers₁ c hc
    · rcases List.mem_pair.mp hc with rfl | rfl
      · exact ⟨hsp₂, hgp₂⟩
      · exact ⟨(hregs .sp (by decide)).1.trans hsp₂, (hregs .gp (by decide)).1.trans hgp₂⟩
  obtain ⟨hpointers₆, -, -⟩ := hcalled₆.pointers hpointers₅
    ((hregs .sp (by decide)).2.trans hsp₂) ((hregs .gp (by decide)).2.trans hgp₂)
  obtain ⟨pc₆, state₆, calls₆⟩ := m₆
  obtain rfl : pc₆ = _ := hpc₆
  obtain ⟨m₇, hruns, hcalls₇, hret⟩ := exit_runs counter hfw state₆ calls₆
  have hs2 : state₆.regs .s2 = s₃.regs .a0 := (hcalled₆.kept.regs .s2 (by decide)).trans hresult
  -- all calls, in order
  obtain ⟨⟨ctors, hctors, hctorsWords, -⟩, -⟩ := hcalled₁
  obtain ⟨⟨dtors, hdtors, hdtorsWords, -⟩, -⟩ := hcalled₆
  replace hctors : calls₁ = [(sym.crtSectionClear, s)] ++ ctors := hctors
  replace hdtors : calls₆ = calls₁ ++ [(sym.main, s₂), (sym.cxaFinalize, s₄)] ++ dtors := hdtors
  have hcalls : m₇.calls = (sym.crtSectionClear, s) ::
      (ctors ++ ((sym.main, s₂) :: (sym.cxaFinalize, s₄) :: dtors)) := by
    rw [hcalls₇, hdtors, hctors, List.append_assoc, List.append_assoc]
    rfl
  have hlength : ctors.length = (linkTables live dot objects).constructors.length := by
    rw [← hctorsWords, List.length_map]
  refine ⟨_, m₇, Exits.of_continues (((hstart.trans hconstructors).trans (hmainReached.trans hmain)).trans
    hdestructors) hruns, ?_, ?_, ?_, ?_⟩
  · rw [Machine.called, hcalls, List.map_cons, List.map_append, hctorsWords, List.map_cons,
      List.map_cons, hdtorsWords]
    simp [linkTables, destructorsOf]
  · rw [hcalls₇]
    exact hpointers₆
  · exact ⟨s, s₁, by rw [hcalls]; rfl, hcleared, hprepared.bss⟩
  · refine ⟨s₂, s₃, ?_, ha0, ha1, hs₃, hret.trans hs2, by rw [hs2]⟩
    rw [hcalls, List.getElem?_cons_succ, ← hlength, List.getElem?_append_right (Nat.le_refl _),
      Nat.sub_self]
    rfl

/-- **With padding** the loop calls `_start`. -/
theorem start_stops (hfw : Firmware function sym limit) (hbss : ¬ ClearError sym.bssStart sym.bssEnd)
    (hloaded : Loaded sym (linkTables live dot objects) image s₀.mem limit)
    (happ : Application function sym (linkTables live dot objects))
    (hwords : initWords (linkTables live dot objects) ≠ (linkTables live dot objects).constructors) :
    ∃ m, Runs function counter (start sym) ⟨start sym, s₀, []⟩ .noReturn m ∧
      m.called = sym.crtSectionClear :: (linkTables live dot objects).constructors ++ [0] := by
  obtain ⟨s, s₁, hstart, -, -, -, hprepared⟩ :=
    start_reaches_constructors counter hfw hbss s₀
  obtain ⟨n, hn⟩ : ∃ n, initWords (linkTables live dot objects)
      = (linkTables live dot objects).constructors ++ 0 :: List.replicate n 0 := by
    have hsplit := hwords
    rw [initWords, Ne, List.append_right_eq_self, List.replicate_eq_nil_iff] at hsplit
    obtain ⟨n, hn⟩ := Nat.exists_eq_succ_of_ne_zero hsplit
    exact ⟨n, by rw [initWords, hn, List.replicate_succ]⟩
  have hinit := (hn ▸ hloaded.initTable hfw.limit_lt).congr hfw.limit_lt hprepared.below
  obtain ⟨m, hruns, hcalled⟩ := constructors_stop counter hfw
    [(sym.crtSectionClear, s)] hinit happ.clear_not_mem.1 happ.constructors happ.start
  refine ⟨m, Exits.of_continues hstart hruns, ?_⟩
  obtain ⟨⟨calls, hcalls, hcallsWords, -⟩, -⟩ := hcalled
  rw [Machine.called, hcalls, List.map_append, hcallsWords]
  rfl

/-- **With a `.bss` of a fraction of a word** the first call does not return. -/
theorem start_traps (hfw : Firmware function sym limit) (hbss : ClearError sym.bssStart sym.bssEnd)
    (s₀ : State) :
    ∃ m, Runs function counter (start sym) ⟨start sym, s₀, []⟩ .noReturn m ∧
      m.called = [sym.crtSectionClear] := by
  obtain ⟨s, hreaches, ha0, ha1, -⟩ := start_reaches_clear counter function sym s₀
  obtain ⟨m, htraps⟩ := section_clear_traps none s.regs s.mem (by rw [ha0, ha1]; exact hbss)
  have hnone : function sym.crtSectionClear s = none := by
    cases hcall : function sym.crtSectionClear s with
    | none => rfl
    | some s' =>
      obtain ⟨m', hruns, -⟩ := (hfw.clears s s').mp hcall
      cases congrArg Prod.fst (Exits.unique hruns htraps)
  exact ⟨_, Exits.of_continues hreaches (runs_call hnone), rfl⟩

/-- **The entry point is complete** exactly if `.bss` is whole words, no constructor was collected, and
    there are a multiple of four. -/
theorem start_complete_iff (hfw : Firmware function sym limit)
    (hlink : link region dotBss sections = some image)
    (hloaded : Loaded sym (linkTables live dot objects) image s₀.mem limit)
    (happ : Application function sym (linkTables live dot objects)) :
    (∃ halt m, Runs function counter (start sym) ⟨start sym, s₀, []⟩ halt m ∧
      CompleteRun function sym (constructorsOf objects) (destructorsOf objects) halt m) ↔
      4 ∣ placeEnd 0 (select bssPatterns sections) ∧
        (linkTables live dot objects).constructors = constructorsOf objects ∧
        4 ∣ (constructorsOf objects).length := by
  have hclear := hloaded.clearError_iff hlink
  constructor
  · rintro ⟨halt, m, hruns, hcomplete⟩
    have hbss : ¬ ClearError sym.bssStart sym.bssEnd := by
      intro herror
      obtain ⟨m', hruns', hcalled'⟩ := start_traps counter hfw herror s₀
      obtain rfl : m = m' := congrArg Prod.snd (Exits.unique hruns hruns')
      have hlength := congrArg List.length (hcomplete.called.symm.trans hcalled')
      simp at hlength
    have hwords : initWords (linkTables live dot objects) = (linkTables live dot objects).constructors := by
      by_contra hwords
      obtain ⟨m', hruns', hcalled'⟩ := start_stops counter hfw hbss hloaded happ hwords
      obtain rfl : m = m' := congrArg Prod.snd (Exits.unique hruns hruns')
      -- the calls differ in number
      have hlength := congrArg List.length (hcomplete.called.symm.trans hcalled')
      have hle := (constructors_sublist live dot objects).length_le
      simp only [List.length_append, List.length_cons, List.length_nil] at hlength
      omega
    obtain ⟨halt', m', hruns', hcomplete'⟩ := start_runs counter hfw hbss hloaded happ hwords
    obtain rfl : m = m' := congrArg Prod.snd (Exits.unique hruns hruns')
    have hcalled := hcomplete'.called.symm.trans hcomplete.called
    have hkept : (linkTables live dot objects).constructors = constructorsOf objects :=
      (List.cons.inj (List.append_cancel_right (List.append_cancel_right hcalled))).2
    exact ⟨not_not.mp (mt hclear.mpr hbss), hkept, hkept ▸ (initWords_eq_iff live dot objects).mp hwords⟩
  · rintro ⟨hwhole, hkept, hfour⟩
    have hwords := (initWords_eq_iff live dot objects).mpr (hkept ▸ hfour)
    exact hkept ▸ start_runs counter hfw (fun herror => hclear.mp herror hwhole) hloaded happ hwords

end Boot

/-! ### Four constructors -/

/-- An address that the tables below are full of. -/
def everywhere : Word := 0x01010101

theorem isPowerOfTwo_four : Nat.isPowerOfTwo 4 := ⟨2, rfl⟩

/-- Four constructors and a destructor. -/
def fourConstructors : List TableSection :=
  [⟨⟨⟨16, 4, isPowerOfTwo_four⟩, ".init_array"⟩, List.replicate 4 everywhere, rfl, rfl⟩,
    ⟨⟨⟨4, 4, isPowerOfTwo_four⟩, ".fini_array"⟩, [everywhere], rfl, rfl⟩]

/-- A `.bss` of one word. -/
def oneWord : List InputSection := [⟨⟨4, 4, isPowerOfTwo_four⟩, ".bss.counter"⟩]

/-- An image with the tables behind the text, and this `.bss`. -/
def smallImage : Symbols where
  stackEnd := 0x18000
  globalPointer := 0x10800
  bssStart := 0x10010
  bssEnd := 0x10014
  crtSectionClear := 0x40
  initArrayStart := 0x100
  initArrayEnd := 0x110
  exceptionHandler := 0x44
  ret := 0x10000
  main := 0x48
  cxaFinalize := 0x4c
  finiArrayStart := 0x110
  finiArrayEnd := 0x114

theorem smallImage_complete : ∃ function : Function, ∃ halt m,
    Runs function (fun _ _ => 0) (start smallImage)
        ⟨start smallImage, ⟨fun _ => 0, fun _ => 1, fun _ => 0⟩, []⟩ halt m ∧
      CompleteRun function smallImage (constructorsOf fourConstructors) (destructorsOf fourConstructors)
        halt m := by
  classical
  -- every function returns what it is given, except `crt_section_clear` and `_start`
  let clears (s : State) (m : Rv32.Machine Label) : Prop :=
    Rv32.Runs crt ⟨Rv32.codeAt .crt_section_clear crt, none, s.regs, s.mem⟩ .ret m
  let function : Function := fun a s =>
    if a = smallImage.crtSectionClear then
      if h : ∃ m, clears s m then some { s with regs := h.choose.regs, mem := h.choose.mem } else none
    else if a = 0 then none
    else some s
  have hother : ∀ a, a ≠ smallImage.crtSectionClear → a ≠ 0 → ∀ s, function a s = some s := by
    intro a ha hzero s
    simp only [function, if_neg ha, if_neg hzero]
  have hfirmware : Firmware function smallImage 0x2000 := by
    refine ⟨by decide, fun a ha s s' h => ?_, fun s s' => ?_, by decide, by decide, by decide,
      by decide, by decide⟩
    · simp only [function, if_neg ha] at h
      split at h
      · cases h
      · obtain rfl := Option.some.inj h
        exact ⟨fun _ _ => rfl, fun _ _ => rfl⟩
    · simp only [function, if_true]
      constructor
      · intro h
        split at h
        next hclears =>
          obtain rfl := Option.some.inj h
          exact ⟨_, hclears.choose_spec, rfl⟩
        next => cases h
      · rintro ⟨m, hm, rfl⟩
        have hclears : ∃ m, clears s m := ⟨m, hm⟩
        obtain heq : hclears.choose = m :=
          congrArg Prod.snd (Exits.unique hclears.choose_spec hm)
        rw [dif_pos hclears, heq]
  have hreturns : ∀ a, a ≠ smallImage.crtSectionClear → a ≠ 0 → ∀ s, (function a s).isSome := by
    intro a ha hzero s
    rw [hother a ha hzero]
    rfl
  have heverywhere : ∀ s, (function everywhere s).isSome := hreturns _ (by decide) (by decide)
  have happ : Application function smallImage (linkTables (fun _ => true) 0x100 fourConstructors) := by
    refine ⟨fun w hw => ?_, fun w hw => ?_, hreturns _ (by decide) (by decide),
      hreturns _ (by decide) (by decide), fun s => rfl, by decide⟩
    · obtain rfl : w = everywhere :=
        List.eq_of_mem_replicate (show w ∈ List.replicate 4 everywhere from hw)
      exact heverywhere
    · obtain rfl : w = everywhere := List.mem_singleton.mp (show w ∈ [everywhere] from hw)
      exact heverywhere
  obtain ⟨image, himage⟩ : ∃ image, link DTCM 0x10010 oneWord = some image := ⟨_, rfl⟩
  have hloaded : Loaded smallImage (linkTables (fun _ => true) 0x100 fourConstructors) image
      (fun _ => 1) 0x2000 := by
    obtain rfl := Option.some.inj himage
    exact ⟨rfl, rfl, rfl, rfl, rfl, rfl, ⟨rfl, rfl, rfl, rfl, trivial⟩, ⟨rfl, trivial⟩, by decide⟩
  exact ⟨function, (start_complete_iff (fun _ _ => 0) hfirmware himage hloaded happ).mpr
    ⟨by decide, rfl, by decide⟩⟩

end CoralNPU.Crt
