import CoralNPU.Crt.Start

namespace CoralNPU.Crt

open Lib Lib.Rv32.Caller Relation
open Lib.Rv32 (Reg Word AddressSpace read write loadWord storeWord WordAligned write_of_ne fill
  fill_sub)

/-!
# Crt — a run of the entry point

What `_start` calls, in which order, and how it ends.

* `Firmware` — the functions around `_start`, with `crt_section_clear` from `crt.S`.
* `Table` — a table of function addresses in memory.
* `start_reaches_constructors`, `constructors_reach`, `loopEnd_reaches_main`, `main_reaches`,
  `destructors_reach`, `exit_runs` — the parts of the text, in order.
-/

section Run

variable {function : Function} (counter : Csr → State → Word) {sym : Symbols} {limit : Nat}

/-- The functions around `_start`, and where the linker puts what it writes: everything below `limit`
    is text and tables. -/
structure Firmware (function : Function) (sym : Symbols) (limit : Nat) : Prop where
  limit_lt : limit < 2 ^ 32
  conventional : Conventional function sym limit
  /-- `crt_section_clear` is the routine of `crt.S`. -/
  clears : ∀ s s', function sym.crtSectionClear s = some s' ↔
    ∃ m, Rv32.Runs crt ⟨Rv32.codeAt .crt_section_clear crt, none, s.regs, s.mem⟩ .ret m ∧
      s' = { s with regs := m.regs, mem := m.mem }
  bss_above : limit ≤ sym.bssStart.toNat
  ret_above : limit ≤ sym.ret.toNat
  ret_aligned : WordAligned sym.ret
  main_ne : sym.main ≠ sym.crtSectionClear
  cxaFinalize_ne : sym.cxaFinalize ≠ sym.crtSectionClear

/-- The words from `start` to `stop` are function addresses. -/
structure Table (mem : AddressSpace) (limit : Nat) (start stop : Word) (ws : List Word) : Prop where
  aligned : WordAligned start
  size : stop.toNat = start.toNat + 4 * ws.length
  words : TableAt mem start ws
  below : stop.toNat ≤ limit

theorem Table.congr {mem mem' : AddressSpace} {start stop : Word} {ws : List Word}
    (h : Table mem limit start stop ws) (hlimit : limit < 2 ^ 32)
    (hmem : ∀ p : Word, p.toNat < limit → mem' p = mem p) : Table mem' limit start stop ws := by
  have hsize := h.size
  have hbelow := h.below
  exact ⟨h.aligned, h.size, h.words.congr hmem hlimit (by omega), h.below⟩

/-! ### The first lines -/

/-- The state when the constructors are about to be called. -/
structure Prepared (sym : Symbols) (limit : Nat) (s₀ s : State) : Prop where
  stack : s.regs .sp = sym.stackEnd
  global : s.regs .gp = sym.globalPointer
  bss : ∀ p, sym.bssStart ≤ p → p < sym.bssEnd → s.mem p = 0
  below : ∀ p : Word, p.toNat < limit → s.mem p = s₀.mem p

/-- From the first line to the call of `crt_section_clear`. -/
theorem start_reaches_clear (function : Function) (sym : Symbols) (s₀ : State) : ∃ s,
    Reaches function counter (start sym) ⟨start sym, s₀, []⟩
      ⟨.call sym.crtSectionClear :: runConstructors sym, s, []⟩ ∧
    s.regs .a0 = sym.bssStart ∧ s.regs .a1 = sym.bssEnd ∧ s.regs .sp = sym.stackEnd ∧
    s.regs .gp = sym.globalPointer ∧ s.mem = s₀.mem := by
  let s₁ : State := { s₀ with csrs := fun c => if c = minstret then read s₀.regs .zero else s₀.csrs c }
  let s₂ : State := { s₁ with csrs := fun c => if c = minstreth then read s₁.regs .zero else s₁.csrs c }
  let s₃ := s₂.set .a0 (counter minstret s₂)
  let s₄ := s₃.set .a1 (counter minstreth s₃)
  let s₅ := (s₄.set .sp sym.stackEnd).set .gp sym.globalPointer
  obtain ⟨s₆, hzero, hmem, hregs⟩ : ∃ s₆, Reaches function counter (start sym)
      ⟨zeroedRegisters.map (fun r => .mv r .zero) ++ .la .a0 sym.bssStart :: .la .a1 sym.bssEnd ::
        .call sym.crtSectionClear :: runConstructors sym, s₅, []⟩
      ⟨.la .a0 sym.bssStart :: .la .a1 sym.bssEnd ::
        .call sym.crtSectionClear :: runConstructors sym, s₆, []⟩ ∧
      s₆.mem = s₅.mem ∧ ∀ r ∉ zeroedRegisters, s₆.regs r = s₅.regs r :=
    reaches_clear zeroedRegisters s₅
  refine ⟨(s₆.set .a0 sym.bssStart).set .a1 sym.bssEnd, ?_, rfl, rfl, ?_, ?_, hmem⟩
  · refine ReflTransGen.trans reaches_fenceI ?_
    refine ReflTransGen.trans reaches_csrw ?_
    refine ReflTransGen.trans reaches_csrw ?_
    refine ReflTransGen.trans reaches_csrr ?_
    refine ReflTransGen.trans reaches_csrr ?_
    refine ReflTransGen.trans reaches_la ?_
    refine ReflTransGen.trans reaches_la ?_
    refine ReflTransGen.trans hzero ?_
    exact ReflTransGen.trans reaches_la reaches_la
  · exact hregs .sp (by decide)
  · exact hregs .gp (by decide)

/-- **The first lines** set the pointers up and zero `.bss`. -/
theorem start_reaches_constructors (hfw : Firmware function sym limit)
    (hbss : ¬ ClearError sym.bssStart sym.bssEnd) (s₀ : State) : ∃ s s',
    Reaches function counter (start sym) ⟨start sym, s₀, []⟩
      ⟨runConstructors sym, s', [(sym.crtSectionClear, s)]⟩ ∧
    s.regs .sp = sym.stackEnd ∧ s.regs .gp = sym.globalPointer ∧
    function sym.crtSectionClear s = some s' ∧ Prepared sym limit s₀ s' := by
  obtain ⟨s, hreaches, ha0, ha1, hsp, hgp, hmem⟩ :=
    start_reaches_clear counter function sym s₀
  obtain ⟨m, hruns, hm, hregs⟩ :=
    (section_clear_returns none s.regs s.mem (by rw [ha0, ha1]; exact hbss)).runs rfl
  have hcall := (hfw.clears s _).mpr ⟨m, hruns, rfl⟩
  have hle : sym.bssStart ≤ sym.bssEnd := BitVec.not_lt.mp (not_or.mp hbss).1
  have hfill : ∀ p, m.mem p = if sym.bssStart ≤ p ∧ p < sym.bssEnd then 0 else s₀.mem p := by
    intro p
    rw [hm, ha0, ha1, hmem]
    exact fill_sub s₀.mem hle (fun _ => 0) p
  refine ⟨s, _, hreaches.trans (reaches_call hcall), hsp, hgp, hcall, ⟨?_, ?_, fun p hlo hhi => ?_,
    fun p hp => ?_⟩⟩
  · exact (hregs .sp (by decide)).trans hsp
  · exact (hregs .gp (by decide)).trans hgp
  · exact (hfill p).trans (if_pos ⟨hlo, hhi⟩)
  · have habove := hfw.bss_above
    refine (hfill p).trans (if_neg fun h => ?_)
    have hlo := BitVec.le_def.mp h.1
    omega

/-! ### The constructors -/

/-- The lines in front of the loop. -/
theorem constructors_reach_loop (function : Function) {s : State} (calls : List (Word × State))
    {ws : List Word}
    (htable : Table s.mem limit sym.initArrayStart sym.initArrayEnd ws) : ∃ m',
    Reaches function counter (start sym) ⟨runConstructors sym, s, calls⟩ m' ∧
      HasCalled limit ⟨runConstructors sym, s, calls⟩ [] m' ∧
      (ws = [] → m'.pc = codeAt .init_array_loop_end (start sym)) ∧
      (ws ≠ [] → AtInit sym limit m' ws) := by
  let s' := (s.set .s0 sym.initArrayStart).set .s1 sym.initArrayEnd
  have hfront : Reaches function counter (start sym)
      ⟨runConstructors sym, s, calls⟩
      ⟨.bgeu .s0 .s1 .init_array_loop_end :: .label .init_array_loop ::
        codeAt .init_array_loop (start sym), s', calls⟩ :=
    ReflTransGen.trans reaches_la reaches_la
  have hkept : Kept limit s s' := (Kept.set (by decide) _).trans (Kept.set (by decide) _)
  have hcalled : ∀ pc, HasCalled limit ⟨runConstructors sym, s, calls⟩ []
      ⟨pc, s', calls⟩ :=
    fun pc => ⟨⟨[], (List.append_nil _).symm, rfl, nofun⟩, hkept⟩
  have hsize := htable.size
  have hle : read s'.regs .s1 ≤ read s'.regs .s0 ↔ ws = [] := by
    show sym.initArrayEnd ≤ sym.initArrayStart ↔ _
    rw [BitVec.le_def, ← List.length_eq_zero_iff]
    omega
  by_cases hws : ws = []
  · exact ⟨_, hfront.trans (reaches_bgeu.1 (hle.mpr hws)), hcalled _, fun _ => rfl,
      fun hne => absurd hws hne⟩
  · refine ⟨_, hfront.trans (ReflTransGen.trans (reaches_bgeu.2 (mt hle.mp hws)) reaches_label),
      hcalled _, fun heq => absurd heq hws, fun _ => ?_⟩
    exact ⟨rfl, htable.aligned, htable.size, htable.words, htable.below⟩

/-- **All constructors return.** -/
theorem constructors_reach (hfw : Firmware function sym limit) {s : State}
    (calls : List (Word × State)) {ws : List Word}
    (htable : Table s.mem limit sym.initArrayStart sym.initArrayEnd ws)
    (hclear : sym.crtSectionClear ∉ ws) (hreturn : AllReturn function ws) : ∃ m',
    Reaches function counter (start sym) ⟨runConstructors sym, s, calls⟩ m' ∧
      HasCalled limit ⟨runConstructors sym, s, calls⟩ ws m' ∧
      m'.pc = codeAt .init_array_loop_end (start sym) := by
  obtain ⟨m₁, hreaches, hcalled, hnil, hloop⟩ :=
    constructors_reach_loop counter function calls htable
  by_cases hws : ws = []
  · subst hws
    exact ⟨m₁, hreaches, hcalled, hnil rfl⟩
  · have hinit : AtInit sym limit m₁ (ws ++ []) := (List.append_nil ws).symm ▸ hloop hws
    obtain ⟨m₂, hreaches₂, hcalled₂, hend, -⟩ :=
      init_array_loop_reaches counter hfw.conventional hfw.limit_lt hclear hreturn hinit
    exact ⟨m₂, hreaches.trans hreaches₂, hcalled.trans hcalled₂, hend hws rfl⟩

/-- A word of the table does not return. -/
theorem constructors_stop (hfw : Firmware function sym limit) {s : State}
    (calls : List (Word × State)) {ws rest : List Word} {w : Word}
    (htable : Table s.mem limit sym.initArrayStart sym.initArrayEnd (ws ++ w :: rest))
    (hclear : sym.crtSectionClear ∉ ws) (hreturn : AllReturn function ws)
    (hstop : ∀ s, function w s = none) : ∃ m',
    Runs function counter (start sym) ⟨runConstructors sym, s, calls⟩ .noReturn m' ∧
      HasCalled limit ⟨runConstructors sym, s, calls⟩ (ws ++ [w]) m' := by
  obtain ⟨m₁, hreaches, hcalled, -, hloop⟩ :=
    constructors_reach_loop counter function calls htable
  have hne : ws ++ w :: rest ≠ [] := List.append_ne_nil_of_right_ne_nil _ (List.cons_ne_nil w rest)
  obtain ⟨m₂, hreaches₂, hcalled₂, -, hmore⟩ :=
    init_array_loop_reaches counter hfw.conventional hfw.limit_lt hclear hreturn (hloop hne)
  obtain ⟨m₃, hruns, hcalled₃⟩ :=
    (hmore (List.cons_ne_nil w rest)).noReturn counter (hstop _)
  exact ⟨m₃, Exits.of_continues (hreaches.trans hreaches₂) hruns,
    hcalled.trans (hcalled₂.trans hcalled₃)⟩

/-! ### `main` -/

/-- A store behind the tables. -/
theorem Kept.store {s : State} {a : Word} (ha : limit ≤ a.toNat) (haligned : WordAligned a) (v : Word) :
    Kept limit s { s with mem := storeWord s.mem a v } := by
  refine ⟨fun _ _ => rfl, fun p hp => storeWord_of_le _ ?_ v⟩
  have hlt := a.isLt
  have haligned' : a.toNat % 4 = 0 := haligned
  bv_omega

/-- From the end of the loop to the call of `main`. -/
theorem loopEnd_reaches_main (hfw : Firmware function sym limit) (s : State)
    (calls : List (Word × State)) : ∃ s',
    Reaches function counter (start sym) ⟨codeAt .init_array_loop_end (start sym), s, calls⟩
      ⟨.jalr .ra :: .mv .s2 .a0 :: .call sym.cxaFinalize :: runDestructors sym, s', calls⟩ ∧
    s'.regs .ra = sym.main ∧ s'.regs .a0 = 0 ∧ s'.regs .a1 = 0 ∧ Kept limit s s' := by
  let s₁ := s.set .t0 sym.exceptionHandler
  let s₂ : State := { s₁ with csrs := fun c => if c = mtvec then read s₁.regs .t0 else s₁.csrs c }
  let s₃ := s₂.set .t0 0x6600
  let s₄ : State := { s₃ with
    csrs := fun c => if c = mstatus then s₃.csrs c ||| read s₃.regs .t0 else s₃.csrs c }
  let s₅ := (s₄.set .t0 sym.ret).set .a0 0x0badd00d
  let s₆ : State := { s₅ with mem := storeWord s₅.mem sym.ret (read s₅.regs .a0) }
  refine ⟨((s₆.set .a0 0).set .a1 0).set .ra sym.main, ?_, rfl, rfl, rfl, ?_⟩
  · refine ReflTransGen.trans reaches_la ?_
    refine ReflTransGen.trans reaches_csrw ?_
    refine ReflTransGen.trans reaches_la ?_
    refine ReflTransGen.trans reaches_csrs ?_
    refine ReflTransGen.trans reaches_la ?_
    refine ReflTransGen.trans reaches_la ?_
    refine ReflTransGen.trans (reaches_sw hfw.ret_aligned (BitVec.add_zero _)) ?_
    refine ReflTransGen.trans reaches_la ?_
    exact ReflTransGen.trans reaches_la reaches_la
  · have hfirst : Kept limit s s₅ := by
      have h₁ : Kept limit s s₁ := Kept.set (by decide) _
      have h₂ : Kept limit s s₂ := ⟨h₁.regs, h₁.below⟩
      have h₃ : Kept limit s s₃ := h₂.trans (Kept.set (by decide) _)
      have h₄ : Kept limit s s₄ := ⟨h₃.regs, h₃.below⟩
      exact h₄.trans ((Kept.set (by decide) _).trans (Kept.set (by decide) _))
    have hstore : Kept limit s₅ s₆ := Kept.store hfw.ret_above hfw.ret_aligned _
    have hlast : Kept limit s₆ (((s₆.set .a0 0).set .a1 0).set .ra sym.main) :=
      ((Kept.set (by decide) _).trans (Kept.set (by decide) _)).trans (Kept.set (by decide) _)
    exact (hfirst.trans hstore).trans hlast

/-- From the call of `main` to that of `__cxa_finalize`, and behind it. -/
theorem main_reaches (hfw : Firmware function sym limit) {s s' : State} (calls : List (Word × State))
    (hra : s.regs .ra = sym.main) (hmain : function sym.main s = some s')
    (hfinalize : ∀ s, (function sym.cxaFinalize s).isSome) : ∃ s₁ s₂,
    Reaches function counter (start sym)
      ⟨.jalr .ra :: .mv .s2 .a0 :: .call sym.cxaFinalize :: runDestructors sym, s, calls⟩
      ⟨runDestructors sym, s₂, calls ++ [(sym.main, s), (sym.cxaFinalize, s₁)]⟩ ∧
    s₂.regs .s2 = s'.regs .a0 ∧
    (∀ r ∈ [Reg.sp, .gp], s₁.regs r = s.regs r ∧ s₂.regs r = s.regs r) ∧
    ∀ p : Word, p.toNat < limit → s₂.mem p = s.mem p := by
  have hkept := hfw.conventional sym.main hfw.main_ne s s' hmain
  obtain ⟨s₁, hs₁⟩ : ∃ s₁ : State, s₁ = s'.set .s2 (s'.regs .a0) := ⟨_, rfl⟩
  obtain ⟨s₂, hs₂⟩ := Option.isSome_iff_exists.mp (hfinalize s₁)
  have hkept₂ := hfw.conventional sym.cxaFinalize hfw.cxaFinalize_ne s₁ s₂ hs₂
  refine ⟨s₁, s₂, ?_, ?_, fun r hr => ?_, fun p hp => ?_⟩
  · refine ReflTransGen.trans (reaches_jalr hra hmain) ?_
    have hmv : Reaches function counter (start sym)
        ⟨.mv .s2 .a0 :: .call sym.cxaFinalize :: runDestructors sym, s', calls ++ [(sym.main, s)]⟩
        ⟨.call sym.cxaFinalize :: runDestructors sym, s₁, calls ++ [(sym.main, s)]⟩ := by
      have hvalue : read s'.regs .a0 + 0 = s'.regs .a0 := BitVec.add_zero _
      rw [hs₁, ← hvalue]
      exact reaches_addi
    have hcall : Reaches function counter (start sym)
        ⟨.call sym.cxaFinalize :: runDestructors sym, s₁, calls ++ [(sym.main, s)]⟩
        ⟨runDestructors sym, s₂, calls ++ [(sym.main, s)] ++ [(sym.cxaFinalize, s₁)]⟩ :=
      reaches_call hs₂
    rw [List.append_assoc] at hcall
    exact hmv.trans hcall
  · rw [hkept₂.saved .s2 (by decide), hs₁]
    rfl
  · have hne : r ≠ .s2 := ne_of_mem_of_not_mem hr (by decide)
    have hmem : r ∈ calleeSaved := (by decide : [Reg.sp, .gp] ⊆ calleeSaved) hr
    have hr₁ : s₁.regs r = s.regs r := by
      rw [hs₁, ← hkept.saved r hmem]
      exact write_of_ne _ hne _
    exact ⟨hr₁, (hkept₂.saved r hmem).trans hr₁⟩
  · rw [hkept₂.below p hp, hs₁]
    exact hkept.below p hp

/-! ### The destructors -/

/-- **All destructors return.** -/
theorem destructors_reach (hfw : Firmware function sym limit) {s : State}
    (calls : List (Word × State)) {ws : List Word}
    (htable : Table s.mem limit sym.finiArrayStart sym.finiArrayEnd ws)
    (hclear : sym.crtSectionClear ∉ ws) (hreturn : AllReturn function ws) : ∃ m',
    Reaches function counter (start sym) ⟨runDestructors sym, s, calls⟩ m' ∧
      HasCalled limit ⟨runDestructors sym, s, calls⟩ ws.reverse m' ∧
      m'.pc = codeAt .fini_array_loop_end (start sym) := by
  let s' := (s.set .s0 sym.finiArrayStart).set .s1 sym.finiArrayEnd
  have hfront : Reaches function counter (start sym) ⟨runDestructors sym, s, calls⟩
      ⟨.beq .s0 .s1 .fini_array_loop_end :: .label .fini_array_loop ::
        codeAt .fini_array_loop (start sym), s', calls⟩ :=
    ReflTransGen.trans reaches_la reaches_la
  have hkept : Kept limit s s' := (Kept.set (by decide) _).trans (Kept.set (by decide) _)
  have hcalled : ∀ pc, HasCalled limit ⟨runDestructors sym, s, calls⟩ [] ⟨pc, s', calls⟩ :=
    fun pc => ⟨⟨[], (List.append_nil _).symm, rfl, nofun⟩, hkept⟩
  have hsize := htable.size
  have heq : read s'.regs .s0 = read s'.regs .s1 ↔ ws = [] := by
    show sym.finiArrayStart = sym.finiArrayEnd ↔ _
    rw [← BitVec.toNat_inj, ← List.length_eq_zero_iff]
    omega
  by_cases hws : ws = []
  · subst hws
    exact ⟨_, hfront.trans (reaches_beq.1 (heq.mpr rfl)), hcalled _, rfl⟩
  · have hloop := hfront.trans (ReflTransGen.trans (reaches_beq.2 (mt heq.mp hws)) reaches_label)
    have hfini : AtFini sym limit ⟨codeAt .fini_array_loop (start sym), s', calls⟩ ws :=
      ⟨rfl, htable.aligned, htable.size, htable.words, htable.below⟩
    obtain ⟨m₂, hreaches₂, hcalled₂, hend⟩ :=
      fini_array_loop_reaches counter hfw.conventional hfw.limit_lt hws hclear hreturn hfini
    exact ⟨m₂, hloop.trans hreaches₂, (hcalled _).trans hcalled₂, hend⟩

/-- The last lines. -/
theorem exit_runs (hfw : Firmware function sym limit) (s : State) (calls : List (Word × State)) :
    ∃ m, Runs function counter (start sym) ⟨codeAt .fini_array_loop_end (start sym), s, calls⟩
        (if s.regs .s2 = 0 then .word mpause else .ebreak) m ∧
      m.calls = calls ∧ loadWord m.state.mem sym.ret = s.regs .s2 := by
  let s₁ := (s.set .a0 (s.regs .s2)).set .t0 sym.ret
  let s₂ : State := { s₁ with mem := storeWord s₁.mem sym.ret (s.regs .s2) }
  have hstore : Reaches function counter (start sym)
      ⟨codeAt .fini_array_loop_end (start sym), s, calls⟩ ⟨(exit sym).drop 3, s₂, calls⟩ := by
    have hvalue : read s.regs .s2 + 0 = s.regs .s2 := BitVec.add_zero _
    have hmv : Reaches function counter (start sym)
        ⟨codeAt .fini_array_loop_end (start sym), s, calls⟩
        ⟨(exit sym).drop 1, s.set .a0 (s.regs .s2), calls⟩ := by
      rw [← hvalue]
      exact reaches_addi
    refine hmv.trans (ReflTransGen.trans reaches_la ?_)
    exact reaches_sw hfw.ret_aligned (BitVec.add_zero _)
  have hload : loadWord s₂.mem sym.ret = s.regs .s2 := loadWord_storeWord _ _ _
  by_cases hzero : s.regs .s2 = 0
  · have hsuccess := hstore.trans (reaches_beq.1 (show read s₂.regs .a0 = read s₂.regs .zero from hzero))
    rw [if_pos hzero]
    refine ⟨_, Exits.of_continues (hsuccess.trans (ReflTransGen.trans reaches_csrr reaches_csrr))
      (Exits.of_inr rfl), rfl, hload⟩
  · have hfailure := hstore.trans (reaches_beq.2 (show ¬ read s₂.regs .a0 = read s₂.regs .zero from hzero))
    rw [if_neg hzero]
    exact ⟨_, Exits.of_continues (hfailure.trans reaches_label) (Exits.of_inr rfl), rfl, hload⟩

end Run

end CoralNPU.Crt
