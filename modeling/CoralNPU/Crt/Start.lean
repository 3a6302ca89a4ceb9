import CoralNPU.Crt.Section
import CoralNPU.Lib.Rv32Caller

namespace CoralNPU.Crt

open Lib Lib.Rv32.Caller Relation
open Lib.Rv32 (Reg Word read write loadWord storeWord WordAligned write_of_ne toNat_add_four
  add_four_lt_iff)

/-!
# Crt — the entry point

The text of `coralnpu_start.S`, and what its two loops call.

* `Symbols`, `StartLabel`, `start` — the text, with the addresses that the linker puts in.
* `AtInit`, `init_array_loop_reaches` — the first loop calls the words of its table from the first
  one on.
* `AtFini`, `fini_array_loop_reaches` — the second loop calls the words of its table from the last one
  on.
-/

/-- The symbols that `_start` refers to. -/
structure Symbols where
  stackEnd : Word
  globalPointer : Word
  bssStart : Word
  bssEnd : Word
  crtSectionClear : Word
  initArrayStart : Word
  initArrayEnd : Word
  exceptionHandler : Word
  ret : Word
  main : Word
  cxaFinalize : Word
  finiArrayStart : Word
  finiArrayEnd : Word

/-- The labels of the file. -/
inductive StartLabel
  | init_array_loop
  | init_array_loop_end
  | fini_array_loop
  | fini_array_loop_end
  | failure
  | success
  | loop
  deriving DecidableEq, Repr

/-- The control and status registers that are written or read. -/
def minstret : Csr := 0xB02
/-- The high half of the instruction counter. -/
def minstreth : Csr := 0xB82
/-- The status register. -/
def mstatus : Csr := 0x300
/-- The trap vector. -/
def mtvec : Csr := 0x305

/-- "Put all scalar registers into a known state" -/
def zeroedRegisters : List Reg :=
  [.tp, .t1, .t2, .s0, .s1, .a1, .a2, .a3, .a4, .a5, .a6, .a7,
    .s2, .s3, .s4, .s5, .s6, .s7, .s8, .s9, .s10, .s11, .t3, .t4, .t5, .t6]

/-- `mpause` -/
def mpause : Word := 0x08000073

/-- "Restore the application's return value" and what follows. -/
def exit (sym : Symbols) : Code StartLabel :=
  [.mv .a0 .s2,
    .la .t0 sym.ret,
    .sw .a0 0 .t0,
    .beqz .a0 .success,
    .label .failure,
    .ebreak,
    .j .loop,
    .label .success,
    .csrr .a0 minstret,
    .csrr .a1 minstreth,
    .word mpause,
    .label .loop,
    .j .loop]

/-- "Initialize finalization arrays (destructors)" and what follows. -/
def runDestructors (sym : Symbols) : Code StartLabel :=
  [.la .s0 sym.finiArrayStart,
    .la .s1 sym.finiArrayEnd,
    .beq .s0 .s1 .fini_array_loop_end,
    .label .fini_array_loop,
    .addi .s1 .s1 (-4),
    .lw .t0 0 .s1,
    .jalr .t0,
    .bne .s0 .s1 .fini_array_loop,
    .label .fini_array_loop_end]
  ++ exit sym

/-- "Call main" and what follows. -/
def callMain (sym : Symbols) : Code StartLabel :=
  [.la .a0 0,
    .la .a1 0,
    .la .ra sym.main,
    .jalr .ra,
    -- save the return value
    .mv .s2 .a0,
    .call sym.cxaFinalize]
  ++ runDestructors sym

/-- "Run constructors" and what follows. -/
def runConstructors (sym : Symbols) : Code StartLabel :=
  [.la .s0 sym.initArrayStart,
    .la .s1 sym.initArrayEnd,
    .bgeu .s0 .s1 .init_array_loop_end,
    .label .init_array_loop,
    .lw .t0 0 .s0,
    .jalr .t0,
    .addi .s0 .s0 4,
    .bltu .s0 .s1 .init_array_loop,
    .label .init_array_loop_end,
    -- the default trap vector
    .la .t0 sym.exceptionHandler,
    .csrw mtvec .t0,
    -- set FS and VS to Dirty
    .la .t0 0x6600,
    .csrs mstatus .t0,
    -- the sentinel value in `_ret`
    .la .t0 sym.ret,
    .la .a0 0x0badd00d,
    .sw .a0 0 .t0]
  ++ callMain sym

/-- `_start` -/
def start (sym : Symbols) : Code StartLabel :=
  [.fenceI,
    .csrw minstret .zero,
    .csrw minstreth .zero,
    .csrr .a0 minstret,
    .csrr .a1 minstreth,
    .la .sp sym.stackEnd,
    .la .gp sym.globalPointer]
  ++ zeroedRegisters.map (fun r => .mv r .zero)
  ++ [.la .a0 sym.bssStart,
    .la .a1 sym.bssEnd,
    .call sym.crtSectionClear]
  ++ runConstructors sym

/-! ### The loop over `.init_array` -/

section Loops

variable {function : Function} (counter : Csr → State → Word) {sym : Symbols} {limit : Nat}

/-- The functions preserve the memory below `limit` and the registers of the calling convention,
    except `crt_section_clear`, which the text calls itself. -/
def Conventional (function : Function) (sym : Symbols) (limit : Nat) : Prop :=
  ∀ a ≠ sym.crtSectionClear, ∀ s s', function a s = some s' → Preserves limit s s'

/-- What stays when the loops run: the stack pointer, the global pointer, the return value of `main`
    and the memory below `limit`. -/
structure Kept (limit : Nat) (s s' : State) : Prop where
  regs : ∀ r ∈ [Reg.sp, .gp, .s2], s'.regs r = s.regs r
  below : ∀ p : Word, p.toNat < limit → s'.mem p = s.mem p

/-- What two parts keep is kept by both. -/
theorem Kept.trans {s s' s'' : State} (h : Kept limit s s') (h' : Kept limit s' s'') :
    Kept limit s s'' :=
  ⟨fun r hr => (h'.regs r hr).trans (h.regs r hr), fun p hp => (h'.below p hp).trans (h.below p hp)⟩

/-- A function that keeps to the ABI keeps what the startup code needs. -/
theorem Kept.of_preserves {s s' : State} (h : Preserves limit s s') : Kept limit s s' := by
  refine ⟨fun r hr => h.saved r ?_, h.below⟩
  exact (by decide : [Reg.sp, .gp, .s2] ⊆ calleeSaved) hr

/-- So does writing another register. -/
theorem Kept.set {s : State} {rd : Reg} (hrd : rd ∉ [Reg.sp, .gp, .s2]) (v : Word) :
    Kept limit s (s.set rd v) :=
  ⟨fun _ hr => write_of_ne _ (ne_of_mem_of_not_mem hr hrd) v, fun _ _ => rfl⟩

/-- All functions of a list return, whatever state they are called in. -/
def AllReturn (function : Function) (ws : List Word) : Prop := ∀ w ∈ ws, ∀ s, (function w s).isSome

/-- What the machine has done since: calls of these functions, with the registers as they were. -/
structure HasCalled (limit : Nat) (m : Machine StartLabel) (ws : List Word)
    (m' : Machine StartLabel) : Prop where
  called : ∃ calls, m'.calls = m.calls ++ calls ∧ calls.map Prod.fst = ws ∧
    ∀ c ∈ calls, Kept limit m.state c.2
  kept : Kept limit m.state m'.state

/-- Two runs of calls, one after the other. -/
theorem HasCalled.trans {m m' m'' : Machine StartLabel} {ws ws' : List Word}
    (h : HasCalled limit m ws m') (h' : HasCalled limit m' ws' m'') :
    HasCalled limit m (ws ++ ws') m'' := by
  obtain ⟨⟨calls, hcalls, rfl, hkept⟩, hstate⟩ := h
  obtain ⟨⟨calls', hcalls', rfl, hkept'⟩, hstate'⟩ := h'
  refine ⟨⟨calls ++ calls', ?_, List.map_append, fun c hc => ?_⟩, hstate.trans hstate'⟩
  · rw [hcalls', hcalls, List.append_assoc]
  · rcases List.mem_append.mp hc with hc | hc
    · exact hkept c hc
    · exact hstate.trans (hkept' c hc)

/-- The machine is at the head of the loop, and `ws` are the words that are left of the table. -/
structure AtInit (sym : Symbols) (limit : Nat) (m : Machine StartLabel) (ws : List Word) : Prop where
  pc : m.pc = codeAt .init_array_loop (start sym)
  aligned : WordAligned (m.state.regs .s0)
  stop : (m.state.regs .s1).toNat = (m.state.regs .s0).toNat + 4 * ws.length
  table : TableAt m.state.mem (m.state.regs .s0) ws
  below : (m.state.regs .s1).toNat ≤ limit

/-- The state in which the loop calls the next word. -/
def initCall (m : Machine StartLabel) (w : Word) : State := m.state.set .t0 w

/-- With a table entry left, the loop comes to its call. -/
theorem AtInit.at_jalr (function : Function) {m : Machine StartLabel} {w : Word} {ws : List Word}
    (h : AtInit sym limit m (w :: ws)) :
    ∃ tail, codeAt .init_array_loop_end (start sym) = tail ∧
      Reaches function counter (start sym) m
        ⟨.jalr .t0 :: .addi .s0 .s0 4 :: .bltu .s0 .s1 .init_array_loop ::
          .label .init_array_loop_end :: tail, initCall m w, m.calls⟩ := by
  refine ⟨_, rfl, ?_⟩
  obtain ⟨pc, state, calls⟩ := m
  obtain rfl : pc = _ := h.pc
  have hload : loadWord state.mem (state.regs .s0) = w := h.table.1
  rw [initCall, ← hload]
  exact reaches_lw h.aligned (BitVec.add_zero _)

/-- **One call of the loop.** -/
theorem AtInit.step {m : Machine StartLabel} {w : Word} {ws : List Word}
    (h : AtInit sym limit m (w :: ws)) (hlimit : limit < 2 ^ 32) {s : State}
    (hcall : function w (initCall m w) = some s) (hs : Preserves limit (initCall m w) s) :
    ∃ m', Reaches function counter (start sym) m m' ∧ HasCalled limit m [w] m' ∧
      (ws = [] → m'.pc = codeAt .init_array_loop_end (start sym)) ∧
      (ws ≠ [] → AtInit sym limit m' ws) := by
  obtain ⟨tail, htail, hjalr⟩ := h.at_jalr counter function
  have hs0 : s.regs .s0 = m.state.regs .s0 := hs.saved .s0 (by decide)
  have hs1 : s.regs .s1 = m.state.regs .s1 := hs.saved .s1 (by decide)
  have hstop := h.stop
  rw [List.length_cons] at hstop
  have hnext := toNat_add_four hstop
  -- behind the call, `s0` goes on to the next word
  obtain ⟨s', hs'⟩ : ∃ s' : State, s' = s.set .s0 (m.state.regs .s0 + 4) := ⟨_, rfl⟩
  have hbltu : Reaches function counter (start sym) m
      ⟨.bltu .s0 .s1 .init_array_loop :: .label .init_array_loop_end :: tail, s',
        m.calls ++ [(w, initCall m w)]⟩ := by
    refine hjalr.trans (ReflTransGen.trans (reaches_jalr rfl hcall) ?_)
    rw [hs', ← hs0]
    exact reaches_addi
  have hs0' : s'.regs .s0 = m.state.regs .s0 + 4 := by
    rw [hs']
    rfl
  have hs1' : s'.regs .s1 = m.state.regs .s1 := by
    rw [hs', ← hs1]
    rfl
  have hkept : Kept limit m.state s' := by
    rw [hs']
    exact ((Kept.set (by decide) w).trans (Kept.of_preserves hs)).trans (Kept.set (by decide) _)
  have hcalled : ∀ pc, HasCalled limit m [w] ⟨pc, s', m.calls ++ [(w, initCall m w)]⟩ := by
    refine fun pc => ⟨⟨_, rfl, rfl, fun c hc => ?_⟩, hkept⟩
    rw [List.mem_singleton.mp hc]
    exact Kept.set (by decide) w
  have hlt : read s'.regs .s0 < read s'.regs .s1 ↔ 0 < ws.length := by
    show s'.regs .s0 < s'.regs .s1 ↔ _
    rw [hs0', hs1']
    exact add_four_lt_iff hstop
  by_cases hws : ws = []
  · have hend : ¬ read s'.regs .s0 < read s'.regs .s1 := by
      rw [hlt, hws]
      exact Nat.lt_irrefl 0
    refine ⟨_, hbltu.trans (ReflTransGen.trans (reaches_bltu.2 hend) reaches_label),
      hcalled _, fun _ => htail.symm, fun hne => absurd hws hne⟩
  · have hmore := hlt.mpr (List.length_pos_iff.mpr hws)
    refine ⟨_, hbltu.trans (reaches_bltu.1 hmore), hcalled _, fun heq => absurd heq hws,
      fun _ => ⟨rfl, ?_, ?_, ?_, ?_⟩⟩
    · show WordAligned (s'.regs .s0)
      rw [hs0']
      exact h.aligned.add_four
    · show (s'.regs .s1).toNat = (s'.regs .s0).toNat + _
      rw [hs0', hs1']
      omega
    · show TableAt s'.mem (s'.regs .s0) ws
      have hbelow := h.below
      rw [hs0']
      exact h.table.2.congr hkept.below hlimit (by omega)
    · show (s'.regs .s1).toNat ≤ limit
      rw [hs1']
      exact h.below

/-- **The loop calls the words of its table** from the first one on. -/
theorem init_array_loop_reaches (hconv : Conventional function sym limit) (hlimit : limit < 2 ^ 32)
    {ws : List Word} (hclear : sym.crtSectionClear ∉ ws) (hreturn : AllReturn function ws) :
    ∀ {m : Machine StartLabel} {rest : List Word}, AtInit sym limit m (ws ++ rest) →
      ∃ m', Reaches function counter (start sym) m m' ∧ HasCalled limit m ws m' ∧
        (ws ≠ [] → rest = [] → m'.pc = codeAt .init_array_loop_end (start sym)) ∧
        (rest ≠ [] → AtInit sym limit m' rest) := by
  induction ws with
  | nil =>
    intro m rest h
    refine ⟨m, .refl, ⟨⟨[], (List.append_nil _).symm, rfl, nofun⟩, fun _ _ => rfl, fun _ _ => rfl⟩,
      fun hne => absurd rfl hne, fun _ => h⟩
  | cons w ws ih =>
    intro m rest h
    obtain ⟨hw, hws⟩ := List.forall_mem_cons.mp hreturn
    obtain ⟨hcw, hcws⟩ := not_or.mp (mt List.mem_cons.mpr hclear)
    obtain ⟨s, hs⟩ := Option.isSome_iff_exists.mp (hw (initCall m w))
    obtain ⟨m₁, hreaches, hcalled, hlast, hmore⟩ :=
      h.step counter hlimit hs (hconv w (Ne.symm hcw) _ _ hs)
    by_cases hrest : ws ++ rest = []
    · obtain ⟨rfl, rfl⟩ := List.append_eq_nil_iff.mp hrest
      exact ⟨m₁, hreaches, hcalled, fun _ _ => hlast rfl, fun hne => absurd rfl hne⟩
    · obtain ⟨m₂, hreaches₂, hcalled₂, hend₂, hmore₂⟩ := ih hcws hws (hmore hrest)
      refine ⟨m₂, hreaches.trans hreaches₂, hcalled.trans hcalled₂, fun _ hnil => ?_, hmore₂⟩
      exact hend₂ (fun hws' => hrest (by rw [hws', hnil]; rfl)) hnil

/-- The loop ends at a function that does not return. -/
theorem AtInit.noReturn {m : Machine StartLabel} {w : Word} {ws : List Word}
    (h : AtInit sym limit m (w :: ws)) (hcall : function w (initCall m w) = none) :
    ∃ m', Runs function counter (start sym) m .noReturn m' ∧ HasCalled limit m [w] m' := by
  obtain ⟨tail, -, hjalr⟩ := h.at_jalr counter function
  refine ⟨_, Exits.of_continues hjalr (runs_jalr rfl hcall), ⟨_, rfl, rfl, fun c hc => ?_⟩,
    Kept.set (by decide) w⟩
  rw [List.mem_singleton.mp hc]
  exact Kept.set (by decide) w

/-! ### The loop over `.fini_array` -/

/-- The machine is at the head of the loop, and `ws` are the words of the table that are left. -/
structure AtFini (sym : Symbols) (limit : Nat) (m : Machine StartLabel) (ws : List Word) : Prop where
  pc : m.pc = codeAt .fini_array_loop (start sym)
  aligned : WordAligned (m.state.regs .s0)
  stop : (m.state.regs .s1).toNat = (m.state.regs .s0).toNat + 4 * ws.length
  table : TableAt m.state.mem (m.state.regs .s0) ws
  below : (m.state.regs .s1).toNat ≤ limit

/-- **One call of the loop**, of the last word. -/
theorem AtFini.step {m : Machine StartLabel} {w : Word} {ws : List Word}
    (h : AtFini sym limit m (ws ++ [w])) (hlimit : limit < 2 ^ 32) (hreturn : ∀ s, (function w s).isSome)
    (hpreserves : ∀ s s', function w s = some s' → Preserves limit s s') :
    ∃ m', Reaches function counter (start sym) m m' ∧ HasCalled limit m [w] m' ∧
      (ws = [] → m'.pc = codeAt .fini_array_loop_end (start sym)) ∧
      (ws ≠ [] → AtFini sym limit m' ws) := by
  obtain ⟨pc, state, calls⟩ := m
  obtain rfl : pc = _ := h.pc
  obtain ⟨htable, hlast⟩ := tableAt_append_singleton.mp h.table
  have hstop : (state.regs .s1).toNat = (state.regs .s0).toNat + 4 * (ws.length + 1) := by
    have hstop := h.stop
    rw [List.length_append, List.length_singleton] at hstop
    exact hstop
  have hbelow : (state.regs .s1).toNat ≤ limit := h.below
  have haligned : (state.regs .s0).toNat % 4 = 0 := h.aligned
  -- the address of the last word
  have hminus : state.regs .s1 + (-4 : Word) = state.regs .s0 + BitVec.ofNat 32 (4 * ws.length) := by
    bv_omega
  have hlastAligned : WordAligned (state.regs .s0 + BitVec.ofNat 32 (4 * ws.length)) := by
    have hadd : (state.regs .s0 + BitVec.ofNat 32 (4 * ws.length)).toNat
        = (state.regs .s0).toNat + 4 * ws.length := by bv_omega
    rw [WordAligned, hadd]
    omega
  obtain ⟨s₁, hs₁⟩ : ∃ s₁ : State, s₁ =
      (state.set .s1 (state.regs .s1 + (-4 : Word))).set .t0 w := ⟨_, rfl⟩
  have hjalr : Reaches function counter (start sym)
      ⟨codeAt .fini_array_loop (start sym), state, calls⟩
      ⟨.jalr .t0 :: .bne .s0 .s1 .fini_array_loop :: .label .fini_array_loop_end ::
        codeAt .fini_array_loop_end (start sym), s₁, calls⟩ := by
    refine ReflTransGen.trans reaches_addi ?_
    rw [hs₁, ← hlast]
    exact reaches_lw hlastAligned ((BitVec.add_zero _).trans hminus)
  obtain ⟨s, hs⟩ := Option.isSome_iff_exists.mp (hreturn s₁)
  have hpres := hpreserves _ _ hs
  have hbne := hjalr.trans (reaches_jalr (show read s₁.regs .t0 = w by rw [hs₁]; rfl) hs)
  have hs0 : s.regs .s0 = state.regs .s0 := by
    rw [hpres.saved .s0 (by decide), hs₁]
    rfl
  have hs1 : s.regs .s1 = state.regs .s0 + BitVec.ofNat 32 (4 * ws.length) := by
    rw [hpres.saved .s1 (by decide), hs₁, ← hminus]
    rfl
  have hs1Nat : (s.regs .s1).toNat = (s.regs .s0).toNat + 4 * ws.length := by
    rw [hs1, hs0]
    bv_omega
  have hcallKept : Kept limit state s₁ := by
    rw [hs₁]
    exact (Kept.set (by decide) _).trans (Kept.set (by decide) w)
  have hkept : Kept limit state s := hcallKept.trans (Kept.of_preserves hpres)
  have hcalled : ∀ pc, HasCalled limit ⟨codeAt .fini_array_loop (start sym), state, calls⟩ [w]
      ⟨pc, s, calls ++ [(w, s₁)]⟩ := by
    refine fun pc => ⟨⟨_, rfl, rfl, fun c hc => ?_⟩, hkept⟩
    rw [List.mem_singleton.mp hc]
    exact hcallKept
  have hne : read s.regs .s0 ≠ read s.regs .s1 ↔ ws ≠ [] := by
    show s.regs .s0 ≠ s.regs .s1 ↔ _
    rw [← BitVec.toNat_inj.ne, hs1Nat, ← List.length_pos_iff]
    omega
  by_cases hws : ws = []
  · have hend : ¬ read s.regs .s0 ≠ read s.regs .s1 := fun h => hne.mp h hws
    exact ⟨_, hbne.trans (ReflTransGen.trans (reaches_bne.2 hend) reaches_label),
      hcalled _, fun _ => rfl, fun hne' => absurd hws hne'⟩
  · refine ⟨_, hbne.trans (reaches_bne.1 (hne.mpr hws)), hcalled _,
      fun heq => absurd heq hws, fun _ => ⟨rfl, ?_, hs1Nat, ?_, ?_⟩⟩
    · show WordAligned (s.regs .s0)
      rw [hs0]
      exact haligned
    · show TableAt s.mem (s.regs .s0) ws
      rw [hs0]
      exact htable.congr hkept.below hlimit (by omega)
    · show (s.regs .s1).toNat ≤ limit
      rw [hs1Nat, hs0]
      omega

/-- **The loop calls the words of its table** from the last one on. -/
theorem fini_array_loop_reaches (hconv : Conventional function sym limit) (hlimit : limit < 2 ^ 32)
    {ws : List Word} (hne : ws ≠ []) (hclear : sym.crtSectionClear ∉ ws)
    (hreturn : AllReturn function ws) :
    ∀ {m : Machine StartLabel}, AtFini sym limit m ws →
      ∃ m', Reaches function counter (start sym) m m' ∧ HasCalled limit m ws.reverse m' ∧
        m'.pc = codeAt .fini_array_loop_end (start sym) := by
  induction ws using List.reverseRecOn with
  | nil => exact absurd rfl hne
  | append_singleton ws w ih =>
    intro m h
    have hw : w ∈ ws ++ [w] := List.mem_append_right _ (List.mem_singleton_self w)
    obtain ⟨m₁, hreaches, hcalled, hlast, hmore⟩ := h.step counter hlimit (hreturn w hw)
      (hconv w fun heq => hclear (heq ▸ hw))
    rw [List.reverse_append, List.reverse_singleton]
    by_cases hws : ws = []
    · subst hws
      exact ⟨m₁, hreaches, hcalled, hlast rfl⟩
    · obtain ⟨m₂, hreaches₂, hcalled₂, hend⟩ := ih hws
        (fun hmem => hclear (List.mem_append_left _ hmem))
        (fun w' hw' => hreturn w' (List.mem_append_left _ hw')) (hmore hws)
      exact ⟨m₂, hreaches.trans hreaches₂, hcalled.trans hcalled₂, hend⟩

end Loops

end CoralNPU.Crt
