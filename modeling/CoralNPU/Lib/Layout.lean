import CoralNPU.Lib.Region
import Mathlib.Algebra.Order.Group.Nat

namespace Lib

/-!
# Blocks behind one another

Blocks that each have a size and an alignment of their own, placed in order, each at the next address
that suits it.

* `Block` — its alignment is a power of two.
* `place`, `placeEnd` — the regions from an address on, and where they end.
* `strictest` — the largest alignment, which all others divide (`dvd_strictest`).
* `placeEnd_add` — behind an address that suits all blocks, they end as they end behind zero.
-/

/-- A block of memory that is not placed yet. -/
structure Block where
  size : Nat
  alignment : Nat
  isPowerOfTwo : alignment.isPowerOfTwo

/-- The regions of the blocks from `dot` on. -/
def place : Nat → List Block → List Region
  | _, [] => []
  | dot, b :: bs =>
    ⟨alignUp b.alignment dot, b.size⟩ :: place (alignUp b.alignment dot + b.size) bs

/-- Where the blocks from `dot` on end. -/
def placeEnd : Nat → List Block → Nat
  | dot, [] => dot
  | dot, b :: bs => placeEnd (alignUp b.alignment dot + b.size) bs

/-- The largest of `n` and the alignments. -/
def strictest (n : Nat) : List Block → Nat
  | [] => n
  | b :: bs => max b.alignment (strictest n bs)

/-- An alignment is positive. -/
theorem Block.alignment_pos (b : Block) : 0 < b.alignment := Nat.pos_of_isPowerOfTwo b.isPowerOfTwo

/-- Placing moves the location counter forward. -/
theorem le_placeEnd (dot : Nat) (bs : List Block) : dot ≤ placeEnd dot bs := by
  induction bs generalizing dot with
  | nil => exact Nat.le_refl dot
  | cons b bs ih =>
    have hstart := le_alignUp b.alignment_pos dot
    have hend := ih (alignUp b.alignment dot + b.size)
    rw [placeEnd]
    omega

/-- All regions lie between the first address and the last one. -/
theorem mem_place {dot : Nat} {bs : List Block} {r : Region} (hr : r ∈ place dot bs) :
    dot ≤ r.first ∧ r.first + r.length ≤ placeEnd dot bs := by
  induction bs generalizing dot with
  | nil => exact absurd hr List.not_mem_nil
  | cons b bs ih =>
    have hstart := le_alignUp b.alignment_pos dot
    rw [placeEnd]
    rcases List.mem_cons.mp hr with rfl | hr
    · exact ⟨hstart, le_placeEnd _ bs⟩
    · obtain ⟨hfirst, hlast⟩ := ih hr
      exact ⟨by omega, hlast⟩

/-! ### Alignment -/

/-- Of two powers of two, the smaller one divides the larger one. -/
theorem isPowerOfTwo_dvd {a b : Nat} (ha : a.isPowerOfTwo) (hb : b.isPowerOfTwo) (h : a ≤ b) :
    a ∣ b := by
  obtain ⟨i, rfl⟩ := ha
  obtain ⟨j, rfl⟩ := hb
  exact Nat.pow_dvd_pow 2 ((Nat.pow_le_pow_iff_right Nat.one_lt_two).mp h)

/-- The strictest alignment is a power of two. -/
theorem isPowerOfTwo_strictest {n : Nat} (hn : n.isPowerOfTwo) (bs : List Block) :
    (strictest n bs).isPowerOfTwo := by
  induction bs with
  | nil => exact hn
  | cons b bs ih =>
    rw [strictest]
    rcases Nat.le_total b.alignment (strictest n bs) with h | h
    · rw [Nat.max_eq_right h]
      exact ih
    · rw [Nat.max_eq_left h]
      exact b.isPowerOfTwo

/-- It is at least the given one. -/
theorem le_strictest (n : Nat) (bs : List Block) : n ≤ strictest n bs := by
  induction bs with
  | nil => exact Nat.le_refl n
  | cons b bs ih => exact Nat.le_trans ih (Nat.le_max_right _ _)

/-- And at least that of every block. -/
theorem alignment_le_strictest (n : Nat) {bs : List Block} {b : Block} (hb : b ∈ bs) :
    b.alignment ≤ strictest n bs := by
  induction bs with
  | nil => exact absurd hb List.not_mem_nil
  | cons b' bs ih =>
    rcases List.mem_cons.mp hb with rfl | hb
    · exact Nat.le_max_left _ _
    · exact Nat.le_trans (ih hb) (Nat.le_max_right _ _)

/-- An address with the largest alignment suits all blocks. -/
theorem dvd_strictest {n : Nat} (hn : n.isPowerOfTwo) {bs : List Block} {b : Block} (hb : b ∈ bs) :
    b.alignment ∣ strictest n bs :=
  isPowerOfTwo_dvd b.isPowerOfTwo (isPowerOfTwo_strictest hn bs) (alignment_le_strictest n hb)

/-- **Behind an address that suits all blocks.** -/
theorem placeEnd_add {k : Nat} {bs : List Block} (hk : ∀ b ∈ bs, b.alignment ∣ k) (dot : Nat) :
    placeEnd (k + dot) bs = k + placeEnd dot bs := by
  induction bs generalizing dot with
  | nil => rfl
  | cons b bs ih =>
    have hstart := alignUp_add b.alignment_pos (hk b (List.mem_cons_self)) dot
    rw [placeEnd, placeEnd, hstart, Nat.add_assoc]
    exact ih (fun b' hb' => hk b' (List.mem_cons_of_mem b hb')) _

end Lib
