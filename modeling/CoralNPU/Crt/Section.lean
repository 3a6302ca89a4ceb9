import CoralNPU.Lib.Rv32

namespace CoralNPU.Crt

open Lib Lib.Rv32 Relation

/-!
# Crt — the routines for sections

The text of `crt.S`: `crt_section_clear` and `crt_section_copy`, which the startup code calls before
the C runtime is initialised.

* `crt` — the text.
* `ClearError`, `CopyError` — the arguments that the routines reject.
* `clear_loop`, `copy_loop` — the loops, by the number of words that are left.
* `Checked` — what both routines do with a range that is empty or ends before it starts.
* `section_clear_returns`, `section_copy_returns` — what the routines do with all other arguments.
* `section_routines_exact` — both routines, for all arguments.
-/

/-! ### The text -/

/-- The labels, the local ones without their dot. -/
inductive Label
  | crt_section_clear | L_clear_loop | L_clear_nothing | L_clear_error
  | crt_section_copy | L_copy_loop | L_copy_nothing | L_copy_error
  deriving DecidableEq, Repr

/-- `crt.S` -/
def crt : Code Label :=
  [.label .crt_section_clear,
    -- start is before end
    .bgeu .a0 .a1 .L_clear_nothing,
    -- start and end are word aligned
    .or .t0 .a0 .a1,
    .andi .t0 .t0 0x3,
    .bnez .t0 .L_clear_error,
    .label .L_clear_loop,
    .sw .zero 0 .a0,
    .addi .a0 .a0 4,
    .bltu .a0 .a1 .L_clear_loop,
    .ret,
    -- length 0, or end is before start
    .label .L_clear_nothing,
    .bne .a0 .a1 .L_clear_error,
    .ret,
    .label .L_clear_error,
    .ebreak,
    .label .crt_section_copy,
    -- start is before end
    .bgeu .a0 .a1 .L_copy_nothing,
    -- start, end and source are word aligned
    .or .t0 .a0 .a1,
    .or .t0 .t0 .a2,
    .andi .t0 .t0 0x3,
    .bnez .t0 .L_copy_error,
    -- the source does not destructively overlap the destination
    .sub .t0 .a0 .a2,
    .sub .t1 .a1 .a0,
    .bltu .t0 .t1 .L_copy_error,
    .label .L_copy_loop,
    .lw .t0 0 .a2,
    .addi .a2 .a2 4,
    .sw .t0 0 .a0,
    .addi .a0 .a0 4,
    .bltu .a0 .a1 .L_copy_loop,
    .ret,
    -- length 0, or end is before start
    .label .L_copy_nothing,
    .bne .a0 .a1 .L_copy_error,
    .ret,
    .label .L_copy_error,
    .ebreak]

/-! ### The loops -/

section Loops

variable (link : Option (Code Label)) (regs : Reg → Word) (mem : AddressSpace)

/-- One word is cleared. -/
theorem clear_iteration (halign : WordAligned (regs .a0)) :
    ∃ tail, Reaches crt ⟨codeAt .L_clear_loop crt, link, regs, mem⟩
      ⟨.bltu .a0 .a1 .L_clear_loop :: .ret :: tail, link, write regs .a0 (regs .a0 + 4),
        fill mem (regs .a0) 4 fun _ => 0⟩ := by
  obtain ⟨tail, htail⟩ : ∃ tail, codeAt .L_clear_loop crt =
      .sw .zero 0 .a0 :: .addi .a0 .a0 4 :: .bltu .a0 .a1 .L_clear_loop :: .ret :: tail := ⟨_, rfl⟩
  refine ⟨tail, ?_⟩
  rw [htail, ← storeWord_zero]
  exact ReflTransGen.trans (reaches_sw halign (BitVec.add_zero _)) reaches_addi

/-- The loop clears all words that are left. -/
theorem clear_loop (n : Nat) (halign : WordAligned (regs .a0))
    (hlen : (regs .a1).toNat = (regs .a0).toNat + 4 * (n + 1)) :
    Returns crt ⟨codeAt .L_clear_loop crt, link, regs, mem⟩ [.a0]
      (fill mem (regs .a0) (4 * (n + 1)) fun _ => 0) := by
  have hkeep : ∀ (regs : Reg → Word), ∀ r ∉ [Reg.a0], write regs .a0 (regs .a0 + 4) r = regs r :=
    fun regs r hr => write_of_ne regs (List.ne_of_not_mem_cons hr) _
  induction n generalizing regs mem with
  | zero =>
    obtain ⟨tail, hiter⟩ := clear_iteration link regs mem halign
    have hlast : ¬ regs .a0 + 4 < regs .a1 := by
      rw [add_four_lt_iff hlen]
      exact Nat.lt_irrefl 0
    exact ⟨tail, _, hiter.trans (reaches_bltu.2 hlast), hkeep regs⟩
  | succ n ih =>
    obtain ⟨tail, hiter⟩ := clear_iteration link regs mem halign
    have hnext := toNat_add_four hlen
    have hmore : regs .a0 + 4 < regs .a1 := (add_four_lt_iff hlen).mpr (Nat.succ_pos n)
    have hrest := ih (write regs .a0 (regs .a0 + 4)) (fill mem (regs .a0) 4 fun _ => 0)
      halign.add_four
      (show (regs .a1).toNat = (regs .a0 + 4).toNat + 4 * (n + 1) by omega)
    have hfill : fill (fill mem (regs .a0) 4 fun _ => 0) (regs .a0 + 4) (4 * (n + 1)) (fun _ => 0)
        = fill mem (regs .a0) (4 * (n + 1 + 1)) fun _ => 0 := by
      have hlt := (regs .a1).isLt
      rw [show 4 * (n + 1 + 1) = 4 + 4 * (n + 1) by omega]
      exact fill_fill mem (regs .a0) (by omega) (fun _ _ => rfl) fun _ _ _ => rfl
    rw [← hfill]
    exact Returns.of_reaches (hiter.trans (reaches_bltu.1 hmore)) rfl (hkeep regs) hrest

/-- One word is copied. -/
theorem copy_iteration (hdst : WordAligned (regs .a0)) (hsrc : WordAligned (regs .a2)) :
    ∃ tail v, Reaches crt ⟨codeAt .L_copy_loop crt, link, regs, mem⟩
      ⟨.bltu .a0 .a1 .L_copy_loop :: .ret :: tail, link,
        write (write (write regs .t0 v) .a2 (regs .a2 + 4)) .a0 (regs .a0 + 4),
        fill mem (regs .a0) 4 fun d => mem (regs .a2 + d)⟩ := by
  obtain ⟨tail, htail⟩ : ∃ tail, codeAt .L_copy_loop crt =
      .lw .t0 0 .a2 :: .addi .a2 .a2 4 :: .sw .t0 0 .a0 :: .addi .a0 .a0 4 ::
        .bltu .a0 .a1 .L_copy_loop :: .ret :: tail := ⟨_, rfl⟩
  refine ⟨tail, loadWord mem (regs .a2), ?_⟩
  rw [htail, ← storeWord_loadWord]
  refine ReflTransGen.trans (reaches_lw hsrc (BitVec.add_zero _)) ?_
  refine ReflTransGen.trans reaches_addi ?_
  exact ReflTransGen.trans (reaches_sw hdst (BitVec.add_zero _)) reaches_addi

/-- The loop copies all words that are left.  What it has written lies in front of the source from
    there on. -/
theorem copy_loop (n : Nat) (hdst : WordAligned (regs .a0)) (hsrc : WordAligned (regs .a2))
    (hlen : (regs .a1).toNat = (regs .a0).toNat + 4 * (n + 1))
    (hbehind : 4 * (n + 1) ≤ (regs .a0 - regs .a2).toNat) :
    Returns crt ⟨codeAt .L_copy_loop crt, link, regs, mem⟩ [.a0, .a2, .t0]
      (fill mem (regs .a0) (4 * (n + 1)) fun d => mem (regs .a2 + d)) := by
  have hkeep : ∀ (regs : Reg → Word) (v : Word), ∀ r ∉ [Reg.a0, .a2, .t0],
      write (write (write regs .t0 v) .a2 (regs .a2 + 4)) .a0 (regs .a0 + 4) r = regs r := by
    intro regs v r hr
    simp only [List.mem_cons, List.not_mem_nil, or_false, not_or] at hr
    rw [write_of_ne _ hr.1, write_of_ne _ hr.2.1, write_of_ne _ hr.2.2]
  induction n generalizing regs mem with
  | zero =>
    obtain ⟨tail, v, hiter⟩ := copy_iteration link regs mem hdst hsrc
    have hlast : ¬ regs .a0 + 4 < regs .a1 := by
      rw [add_four_lt_iff hlen]
      exact Nat.lt_irrefl 0
    exact ⟨tail, _, hiter.trans (reaches_bltu.2 hlast), hkeep regs v⟩
  | succ n ih =>
    obtain ⟨tail, v, hiter⟩ := copy_iteration link regs mem hdst hsrc
    have hnext := toNat_add_four hlen
    have hmore : regs .a0 + 4 < regs .a1 := (add_four_lt_iff hlen).mpr (Nat.succ_pos n)
    have hdistance : regs .a0 + 4 - (regs .a2 + 4) = regs .a0 - regs .a2 := by bv_omega
    have hrest := ih (write (write (write regs .t0 v) .a2 (regs .a2 + 4)) .a0 (regs .a0 + 4))
      (fill mem (regs .a0) 4 fun d => mem (regs .a2 + d))
      hdst.add_four hsrc.add_four
      (show (regs .a1).toNat = (regs .a0 + 4).toNat + 4 * (n + 1) by omega)
      (show 4 * (n + 1) ≤ (regs .a0 + 4 - (regs .a2 + 4)).toNat by rw [hdistance]; omega)
    have hfill : fill (fill mem (regs .a0) 4 fun d => mem (regs .a2 + d)) (regs .a0 + 4)
        (4 * (n + 1)) (fun d => fill mem (regs .a0) 4 (fun d => mem (regs .a2 + d)) (regs .a2 + 4 + d))
        = fill mem (regs .a0) (4 * (n + 1 + 1)) fun d => mem (regs .a2 + d) := by
      have hlt := (regs .a1).isLt
      rw [show 4 * (n + 1 + 1) = 4 + 4 * (n + 1) by omega]
      refine fill_fill mem (regs .a0) (by omega) (fun _ _ => rfl) fun d hd hdlen => ?_
      -- a byte that is still to be read does not lie in the word that was written
      have hread : regs .a2 + 4 + (d - BitVec.ofNat 32 4) = regs .a2 + d := by bv_omega
      have hfar : 4 ≤ (regs .a2 + d - regs .a0).toNat := by bv_omega
      rw [hread, fill_of_le mem hfar]
    rw [← hfill]
    exact Returns.of_reaches (hiter.trans (reaches_bltu.1 hmore)) rfl (hkeep regs v) hrest

end Loops

/-! ### The routines -/

/-- The arguments that `crt_section_clear` rejects. -/
def ClearError (start end_ : Word) : Prop :=
  end_ < start ∨ start ≠ end_ ∧ ¬ (WordAligned start ∧ WordAligned end_)

/-- The arguments that `crt_section_copy` rejects. -/
def CopyError (start end_ source : Word) : Prop :=
  end_ < start ∨
    (start ≠ end_ ∧ ¬ (WordAligned start ∧ WordAligned end_ ∧ WordAligned source)) ∨
    start - source < end_ - start

section Routines

variable (link : Option (Code Label)) (regs : Reg → Word) (mem : AddressSpace)

/-- What both routines begin and end with. -/
structure Checked (routine nothing error : Label) : Prop where
  entry : ∃ rest, codeAt routine crt = .bgeu .a0 .a1 nothing :: rest
  nothing : ∃ tail, codeAt nothing crt = .bne .a0 .a1 error :: .ret :: tail
  error : ∃ tail, codeAt error crt = .ebreak :: tail

theorem checked_clear : Checked .crt_section_clear .L_clear_nothing .L_clear_error :=
  ⟨⟨_, rfl⟩, ⟨_, rfl⟩, ⟨_, rfl⟩⟩

theorem checked_copy : Checked .crt_section_copy .L_copy_nothing .L_copy_error :=
  ⟨⟨_, rfl⟩, ⟨_, rfl⟩, ⟨_, rfl⟩⟩

section Checked

variable {routine nothing error : Label}

theorem Checked.traps_of_reaches (hc : Checked routine nothing error) {s : Machine Label}
    {regs' : Reg → Word} (h : Reaches crt s ⟨codeAt error crt, link, regs', mem⟩) : Traps crt s := by
  obtain ⟨tail, htail⟩ := hc.error
  rw [htail] at h
  exact Traps.of_reaches h

theorem Checked.reaches_nothing (hc : Checked routine nothing error) (hle : regs .a1 ≤ regs .a0) :
    Reaches crt ⟨codeAt routine crt, link, regs, mem⟩ ⟨codeAt nothing crt, link, regs, mem⟩ := by
  obtain ⟨rest, hrest⟩ := hc.entry
  rw [hrest]
  exact reaches_bgeu.1 hle

/-- An empty range is left alone. -/
theorem Checked.returns (hc : Checked routine nothing error) (heq : regs .a0 = regs .a1) :
    Returns crt ⟨codeAt routine crt, link, regs, mem⟩ [] mem := by
  have hnothing := hc.reaches_nothing link regs mem (BitVec.le_of_eq heq.symm)
  obtain ⟨tail, htail⟩ := hc.nothing
  rw [htail] at hnothing
  exact ⟨tail, regs, hnothing.trans (reaches_bne.2 (not_not.mpr heq)), fun _ _ => rfl⟩

/-- A range that ends before it starts is an error. -/
theorem Checked.traps (hc : Checked routine nothing error) (hlt : regs .a1 < regs .a0) :
    Traps crt ⟨codeAt routine crt, link, regs, mem⟩ := by
  have hnothing := hc.reaches_nothing link regs mem (BitVec.le_of_lt hlt)
  obtain ⟨tail, htail⟩ := hc.nothing
  rw [htail] at hnothing
  exact hc.traps_of_reaches link mem (hnothing.trans (reaches_bne.1 (BitVec.ne_of_lt hlt).symm))

end Checked

theorem codeAt_crt_section_clear : codeAt .crt_section_clear crt =
    .bgeu .a0 .a1 .L_clear_nothing :: .or .t0 .a0 .a1 :: .andi .t0 .t0 0x3 ::
      .bnez .t0 .L_clear_error :: .label .L_clear_loop :: codeAt .L_clear_loop crt := rfl

/-- A range that is not empty gets to the check of its alignment. -/
theorem section_clear_check (hlt : regs .a0 < regs .a1) :
    ∃ regs', Reaches crt ⟨codeAt .crt_section_clear crt, link, regs, mem⟩
        ⟨.bnez .t0 .L_clear_error :: .label .L_clear_loop :: codeAt .L_clear_loop crt, link,
          regs', mem⟩ ∧
      (regs' .t0 = 0 ↔ WordAligned (regs .a0) ∧ WordAligned (regs .a1)) ∧
      ∀ r ∉ [Reg.t0], regs' r = regs r := by
  refine ⟨write (write regs .t0 (regs .a0 ||| regs .a1)) .t0 ((regs .a0 ||| regs .a1) &&& 3), ?_, ?_,
    fun r hr => ?_⟩
  · rw [codeAt_crt_section_clear]
    refine ReflTransGen.trans (reaches_bgeu.2 (BitVec.not_le.mpr hlt)) ?_
    exact ReflTransGen.trans reaches_or reaches_andi
  · rw [← wordAligned_or, wordAligned_iff]
    rfl
  · have hne := List.ne_of_not_mem_cons hr
    rw [write_of_ne _ hne, write_of_ne _ hne]

/-- All arguments that are not rejected. -/
theorem section_clear_returns (h : ¬ ClearError (regs .a0) (regs .a1)) :
    Returns crt ⟨codeAt .crt_section_clear crt, link, regs, mem⟩ [.a0, .t0]
      (fill mem (regs .a0) (regs .a1 - regs .a0).toNat fun _ => 0) := by
  obtain ⟨hle, haligned⟩ := not_or.mp h
  by_cases heq : regs .a0 = regs .a1
  · rw [← heq, BitVec.sub_self, BitVec.toNat_zero, fill_zero]
    exact (checked_clear.returns link regs mem heq).mono (List.nil_subset _)
  · have hlt : regs .a0 < regs .a1 := by bv_omega
    have hwords : WordAligned (regs .a0) ∧ WordAligned (regs .a1) :=
      not_not.mp fun hn => haligned ⟨heq, hn⟩
    obtain ⟨n, hlen, hsub⟩ := exists_words hwords.1 hwords.2 hlt
    obtain ⟨regs', hcheck, ht0, hkeep⟩ := section_clear_check link regs mem hlt
    have ha0 : regs' .a0 = regs .a0 := hkeep _ (by decide)
    have ha1 : regs' .a1 = regs .a1 := hkeep _ (by decide)
    have hloop := clear_loop link regs' mem n (ha0 ▸ hwords.1)
      (by rw [ha0, ha1]; exact hlen)
    have hfall : ¬ read regs' .t0 ≠ read regs' .zero := not_not.mpr (ht0.mpr hwords)
    rw [hsub, ← ha0]
    refine Returns.of_reaches (hcheck.trans (.trans (reaches_bne.2 hfall) reaches_label)) rfl
      (fun r hr => hkeep r fun hr' => hr (List.mem_cons_of_mem _ hr')) (hloop.mono ?_)
    exact List.cons_subset_cons _ (List.nil_subset _)

/-- All arguments that are rejected. -/
theorem section_clear_traps (h : ClearError (regs .a0) (regs .a1)) :
    Traps crt ⟨codeAt .crt_section_clear crt, link, regs, mem⟩ := by
  rcases h with hend | ⟨hne, haligned⟩
  · exact checked_clear.traps link regs mem hend
  by_cases hlt : regs .a0 < regs .a1
  · obtain ⟨regs', hcheck, ht0, -⟩ := section_clear_check link regs mem hlt
    have htaken : read regs' .t0 ≠ read regs' .zero := fun h0 => haligned (ht0.mp h0)
    exact checked_clear.traps_of_reaches link mem (hcheck.trans (reaches_bne.1 htaken))
  · exact checked_clear.traps link regs mem (by bv_omega)

theorem codeAt_crt_section_copy : codeAt .crt_section_copy crt =
    .bgeu .a0 .a1 .L_copy_nothing :: .or .t0 .a0 .a1 :: .or .t0 .t0 .a2 :: .andi .t0 .t0 0x3 ::
      .bnez .t0 .L_copy_error :: .sub .t0 .a0 .a2 :: .sub .t1 .a1 .a0 ::
      .bltu .t0 .t1 .L_copy_error :: .label .L_copy_loop :: codeAt .L_copy_loop crt := rfl

/-- A range that is not empty gets to the check of the alignments. -/
theorem section_copy_check (hlt : regs .a0 < regs .a1) :
    ∃ regs', Reaches crt ⟨codeAt .crt_section_copy crt, link, regs, mem⟩
        ⟨.bnez .t0 .L_copy_error :: .sub .t0 .a0 .a2 :: .sub .t1 .a1 .a0 ::
          .bltu .t0 .t1 .L_copy_error :: .label .L_copy_loop :: codeAt .L_copy_loop crt, link,
          regs', mem⟩ ∧
      (regs' .t0 = 0 ↔ WordAligned (regs .a0) ∧ WordAligned (regs .a1) ∧ WordAligned (regs .a2)) ∧
      ∀ r ∉ [Reg.t0], regs' r = regs r := by
  refine ⟨write (write (write regs .t0 (regs .a0 ||| regs .a1)) .t0 (regs .a0 ||| regs .a1 ||| regs .a2))
    .t0 ((regs .a0 ||| regs .a1 ||| regs .a2) &&& 3), ?_, ?_, fun r hr => ?_⟩
  · rw [codeAt_crt_section_copy]
    refine ReflTransGen.trans (reaches_bgeu.2 (BitVec.not_le.mpr hlt)) ?_
    refine ReflTransGen.trans reaches_or ?_
    exact ReflTransGen.trans reaches_or reaches_andi
  · rw [← and_assoc, ← wordAligned_or, ← wordAligned_or, wordAligned_iff]
    rfl
  · have hne := List.ne_of_not_mem_cons hr
    rw [write_of_ne _ hne, write_of_ne _ hne, write_of_ne _ hne]

/-- Aligned addresses get to the check of the overlap. -/
theorem section_copy_overlap (hlt : regs .a0 < regs .a1)
    (hwords : WordAligned (regs .a0) ∧ WordAligned (regs .a1) ∧ WordAligned (regs .a2)) :
    ∃ regs', Reaches crt ⟨codeAt .crt_section_copy crt, link, regs, mem⟩
        ⟨.bltu .t0 .t1 .L_copy_error :: .label .L_copy_loop :: codeAt .L_copy_loop crt, link,
          regs', mem⟩ ∧
      regs' .t0 = regs .a0 - regs .a2 ∧ regs' .t1 = regs .a1 - regs .a0 ∧
      ∀ r ∉ [Reg.t0, .t1], regs' r = regs r := by
  obtain ⟨regs', hcheck, ht0, hkeep⟩ := section_copy_check link regs mem hlt
  have ha0 : regs' .a0 = regs .a0 := hkeep _ (by decide)
  have ha1 : regs' .a1 = regs .a1 := hkeep _ (by decide)
  have ha2 : regs' .a2 = regs .a2 := hkeep _ (by decide)
  have hfall : ¬ read regs' .t0 ≠ read regs' .zero := not_not.mpr (ht0.mpr hwords)
  refine ⟨write (write regs' .t0 (regs' .a0 - regs' .a2)) .t1 (regs' .a1 - regs' .a0),
    hcheck.trans (.trans (reaches_bne.2 hfall) (.trans reaches_sub reaches_sub)), ?_, ?_,
    fun r hr => ?_⟩
  · rw [← ha0, ← ha2]
    rfl
  · rw [← ha0, ← ha1]
    rfl
  · obtain ⟨ht0, ht1⟩ := not_or.mp (List.mem_cons.not.mp hr)
    rw [write_of_ne _ (List.ne_of_not_mem_cons ht1), write_of_ne _ ht0]
    exact hkeep r fun hr' => ht0 (List.mem_singleton.mp hr')

/-- All arguments that are not rejected. -/
theorem section_copy_returns (h : ¬ CopyError (regs .a0) (regs .a1) (regs .a2)) :
    Returns crt ⟨codeAt .crt_section_copy crt, link, regs, mem⟩
      [.a0, .a2, .t0, .t1]
      (fill mem (regs .a0) (regs .a1 - regs .a0).toNat fun d => mem (regs .a2 + d)) := by
  obtain ⟨hle, h⟩ := not_or.mp h
  obtain ⟨haligned, hoverlap⟩ := not_or.mp h
  by_cases heq : regs .a0 = regs .a1
  · rw [← heq, BitVec.sub_self, BitVec.toNat_zero, fill_zero]
    exact (checked_copy.returns link regs mem heq).mono (List.nil_subset _)
  · have hlt : regs .a0 < regs .a1 := by bv_omega
    have hwords := not_not.mp fun hn => haligned ⟨heq, hn⟩
    obtain ⟨n, hlen, hsub⟩ := exists_words hwords.1 hwords.2.1 hlt
    obtain ⟨regs', hcheck, ht0, ht1, hkeep⟩ :=
      section_copy_overlap link regs mem hlt hwords
    have ha0 : regs' .a0 = regs .a0 := hkeep _ (by decide)
    have ha1 : regs' .a1 = regs .a1 := hkeep _ (by decide)
    have ha2 : regs' .a2 = regs .a2 := hkeep _ (by decide)
    have hbehind : 4 * (n + 1) ≤ (regs .a0 - regs .a2).toNat := by
      rw [← hsub]
      exact BitVec.not_lt.mp hoverlap
    have hloop := copy_loop link regs' mem n (ha0 ▸ hwords.1) (ha2 ▸ hwords.2.2)
      (by rw [ha0, ha1]; exact hlen) (by rw [ha0, ha2]; exact hbehind)
    have hfall : ¬ read regs' .t0 < read regs' .t1 := by
      show ¬ regs' .t0 < regs' .t1
      rw [ht0, ht1]
      exact hoverlap
    rw [hsub, ← ha0, ← ha2]
    refine Returns.of_reaches (hcheck.trans (.trans (reaches_bltu.2 hfall) reaches_label)) rfl
      (fun r hr => hkeep r fun hr' => hr ?_) (hloop.mono ?_)
    · exact List.mem_cons_of_mem _ (List.mem_cons_of_mem _ hr')
    · exact List.subset_append_left [Reg.a0, .a2, .t0] [.t1]

/-- All arguments that are rejected. -/
theorem section_copy_traps (h : CopyError (regs .a0) (regs .a1) (regs .a2)) :
    Traps crt ⟨codeAt .crt_section_copy crt, link, regs, mem⟩ := by
  have hne : regs .a0 ≠ regs .a1 := by
    rcases h with h | h | h
    · exact (BitVec.ne_of_lt h).symm
    · exact h.1
    · intro heq
      rw [← heq, BitVec.sub_self] at h
      exact absurd h BitVec.not_lt_zero
  by_cases hlt : regs .a0 < regs .a1
  · by_cases hwords : WordAligned (regs .a0) ∧ WordAligned (regs .a1) ∧ WordAligned (regs .a2)
    · obtain ⟨regs', hcheck, ht0, ht1, -⟩ := section_copy_overlap link regs mem hlt hwords
      have htaken : read regs' .t0 < read regs' .t1 := by
        show regs' .t0 < regs' .t1
        rw [ht0, ht1]
        rcases h with h | h | h
        · bv_omega
        · exact absurd hwords h.2
        · exact h
      exact checked_copy.traps_of_reaches link mem (hcheck.trans (reaches_bltu.1 htaken))
    · obtain ⟨regs', hcheck, ht0, -⟩ := section_copy_check link regs mem hlt
      have htaken : read regs' .t0 ≠ read regs' .zero := fun h0 => hwords (ht0.mp h0)
      exact checked_copy.traps_of_reaches link mem (hcheck.trans (reaches_bne.1 htaken))
  · exact checked_copy.traps link regs mem (by bv_omega)

end Routines

/-! ### Calls -/

/-- A call with these arguments, and with any other registers and memory. -/
def calling (routine : Label) (start end_ source : Word) (regs : Reg → Word) (mem : AddressSpace) :
    Machine Label :=
  ⟨codeAt routine crt, none, write (write (write regs .a0 start) .a1 end_) .a2 source, mem⟩

/-- **Both routines are exact.** -/
theorem section_routines_exact (start end_ source : Word) (regs : Reg → Word) (mem : AddressSpace) :
    ((Traps crt (calling .crt_section_copy start end_ source regs mem) ↔
        CopyError start end_ source) ∧
      (¬ CopyError start end_ source →
        ∃ s', Runs crt (calling .crt_section_copy start end_ source regs mem) .ret s' ∧
          ∀ p, s'.mem p = if start ≤ p ∧ p < end_ then mem (source + (p - start)) else mem p)) ∧
    ((Traps crt (calling .crt_section_clear start end_ source regs mem) ↔ ClearError start end_) ∧
      (¬ ClearError start end_ →
        ∃ s', Runs crt (calling .crt_section_clear start end_ source regs mem) .ret s' ∧
          ∀ p, s'.mem p = if start ≤ p ∧ p < end_ then 0 else mem p)) := by
  have hcopy : ¬ CopyError start end_ source →
      ∃ s', Runs crt (calling .crt_section_copy start end_ source regs mem) .ret s' ∧
        ∀ p, s'.mem p = if start ≤ p ∧ p < end_ then mem (source + (p - start)) else mem p := by
    intro h
    have hle : start ≤ end_ := BitVec.not_lt.mp (not_or.mp h).1
    exact (section_copy_returns none (write (write (write regs .a0 start) .a1 end_) .a2 source)
      mem h).fills rfl hle
  have hclear : ¬ ClearError start end_ →
      ∃ s', Runs crt (calling .crt_section_clear start end_ source regs mem) .ret s' ∧
        ∀ p, s'.mem p = if start ≤ p ∧ p < end_ then 0 else mem p := by
    intro h
    have hle : start ≤ end_ := BitVec.not_lt.mp (not_or.mp h).1
    exact (section_clear_returns none (write (write (write regs .a0 start) .a1 end_) .a2 source)
      mem h).fills rfl hle
  refine ⟨⟨⟨fun htraps => ?_, fun h => section_copy_traps none _ mem h⟩, hcopy⟩,
    ⟨fun htraps => ?_, fun h => section_clear_traps none _ mem h⟩, hclear⟩
  · by_contra h
    obtain ⟨s', hruns, -⟩ := hcopy h
    exact hruns.not_traps (by decide) htraps
  · by_contra h
    obtain ⟨s', hruns, -⟩ := hclear h
    exact hruns.not_traps (by decide) htraps

/-- The source may lie above the destination and overlap it. -/
theorem section_copy_overlapping :
    ∃ s', Runs crt (calling .crt_section_copy 0x100 0x108 0x104 (fun _ => 0)
        fun p => UInt8.ofNat p.toNat) .ret s' ∧
      ∀ p : Word, s'.mem p = if 0x100 ≤ p ∧ p < 0x108 then UInt8.ofNat (0x104 + (p - 0x100)).toNat
        else UInt8.ofNat p.toNat :=
  (section_routines_exact 0x100 0x108 0x104 (fun _ => 0) fun p => UInt8.ofNat p.toNat).1.2
    (by unfold CopyError; decide)

end CoralNPU.Crt
