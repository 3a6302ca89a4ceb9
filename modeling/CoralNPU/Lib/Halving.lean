import CoralNPU.Lib.Scatter
import Mathlib.Algebra.Order.Ring.Int
import Mathlib.Data.List.Nodup
import Mathlib.Data.List.TakeWhile

namespace Lib

/-!
# Greedy halving of a vector

A vector of sizes is made smaller step by step.  The positions are visited in a fixed
order, each with an alignment (a `Slot`); a step takes the first slot that is still at
least two alignments long and halves it, rounded down to a multiple of the alignment.

* `halveFirst` — one step; `halveFirst_eq_some` and `halveFirst_eq_none` say all it can do.
* `Halved order u t` — the invariant of a run from `u`: a slot has its first value or is a
  multiple of its alignment, and once a slot has moved the ones before it are at their floor.
* `settle` — the vector in which some slots are at their floor.  `Halved.settle_le` and
  `Halved.eq_settle` place it in the run: while a slot keeps its first value, the vector is
  above the one in which exactly the slots before it are settled, and equal to it at the
  moment the slot is about to be halved.
* `halvings` — the sequence of all steps; `halvings_lowestKeeping` finds that moment in it.
-/

/-- A position with its alignment. -/
abbrev Slot := Nat × Int

/-- Half of `t`, rounded down to a multiple of `a`. -/
def halve (a t : Int) : Int := t / 2 / a * a

/-- Halve the first slot that is at least two alignments long. -/
def halveFirst : List Slot → List Int → Option (List Int)
  | [], _ => none
  | (i, a) :: rest, t =>
    if t.getD i 0 < 2 * a then halveFirst rest t else some (t.set i (halve a (t.getD i 0)))

/-- The value at which halving from `u` stops. -/
def floorOf (a u : Int) : Int := if u < 2 * a then u else a

/-! ### One step -/

/-- Halving keeps a multiple of the alignment, at least one alignment long, and at most
    half as large. -/
theorem halve_spec {a t : Int} (ha : 1 ≤ a) (ht : 2 * a ≤ t) :
    a ∣ halve a t ∧ a ≤ halve a t ∧ 2 * halve a t ≤ t := by
  have hhalf : a ≤ t / 2 := by omega
  have hq : 1 ≤ t / 2 / a := by
    rw [Int.le_ediv_iff_mul_le (by omega)]; omega
  have hle : t / 2 / a * a ≤ t / 2 := Int.ediv_mul_le _ (by omega)
  refine ⟨Dvd.intro_left _ rfl, ?_, ?_⟩
  · calc a = 1 * a := (one_mul a).symm
      _ ≤ t / 2 / a * a := mul_le_mul_of_nonneg_right hq (by omega)
  · unfold halve; omega

/-- What a step does: it passes over the slots that are short, and halves the next. -/
theorem halveFirst_eq_some {order : List Slot} {t t' : List Int}
    (h : halveFirst order t = some t') :
    ∃ pre i a post, order = pre ++ (i, a) :: post ∧ (∀ s ∈ pre, t.getD s.1 0 < 2 * s.2)
      ∧ 2 * a ≤ t.getD i 0 ∧ t' = t.set i (halve a (t.getD i 0)) := by
  induction order with
  | nil => cases h
  | cons slot rest ih =>
    obtain ⟨i, a⟩ := slot
    unfold halveFirst at h
    by_cases hshort : t.getD i 0 < 2 * a
    · rw [if_pos hshort] at h
      obtain ⟨pre, j, b, post, hsplit, hpre, hlong, ht'⟩ := ih h
      refine ⟨(i, a) :: pre, j, b, post, by rw [hsplit, List.cons_append], ?_, hlong, ht'⟩
      intro s hs
      rcases List.mem_cons.mp hs with rfl | hs
      · exact hshort
      · exact hpre s hs
    · rw [if_neg hshort] at h
      exact ⟨[], i, a, rest, rfl, by simp, by omega, (Option.some.inj h).symm⟩

/-- No step is possible when every slot is short. -/
theorem halveFirst_eq_none {order : List Slot} {t : List Int} :
    halveFirst order t = none ↔ ∀ s ∈ order, t.getD s.1 0 < 2 * s.2 := by
  induction order with
  | nil => simp [halveFirst]
  | cons slot rest ih =>
    obtain ⟨i, a⟩ := slot
    unfold halveFirst
    rw [List.forall_mem_cons]
    by_cases hshort : t.getD i 0 < 2 * a
    · rw [if_pos hshort, ih]
      exact (and_iff_right hshort).symm
    · rw [if_neg hshort]
      exact iff_of_false (Option.some_ne_none _) fun h => hshort h.1

/-- The visits of two lists of slots, one after the other. -/
theorem halveFirst_append (xs ys : List Slot) (t : List Int) :
    halveFirst (xs ++ ys) t = (halveFirst xs t).or (halveFirst ys t) := by
  induction xs with
  | nil => rfl
  | cons slot rest ih =>
    obtain ⟨i, a⟩ := slot
    rw [List.cons_append, halveFirst, halveFirst]
    by_cases hshort : t.getD i 0 < 2 * a
    · rw [if_pos hshort, if_pos hshort, ih]
    · rw [if_neg hshort, if_neg hshort, Option.some_or]

/-- Lowering a positive entry lowers the sum of the entries. -/
theorem sum_toNat_set_lt {t : List Int} {i : Nat} {x : Int} (hi : i < t.length)
    (hpos : 1 ≤ t.getD i 0) (hx : x < t.getD i 0) :
    ((t.set i x).map Int.toNat).sum < (t.map Int.toNat).sum := by
  induction t generalizing i with
  | nil => simp at hi
  | cons y t ih =>
    cases i with
    | zero =>
      simp only [List.getD_cons_zero] at hpos hx
      simp only [List.set_cons_zero, List.map_cons, List.sum_cons]
      omega
    | succ i =>
      have hlt := ih (by simpa using hi) hpos hx
      simp only [List.set_cons_succ, List.map_cons, List.sum_cons]
      omega

/-! ### The invariant of a run -/

/-- The state `t` of a run that started from `u`. -/
structure Halved (order : List Slot) (u t : List Int) : Prop where
  length_eq : t.length = u.length
  /-- A slot is unchanged, or shorter and aligned. -/
  slot : ∀ s ∈ order, t.getD s.1 0 = u.getD s.1 0 ∨
    (s.2 ∣ t.getD s.1 0 ∧ s.2 ≤ t.getD s.1 0 ∧ 2 * s.2 ≤ u.getD s.1 0
      ∧ t.getD s.1 0 < u.getD s.1 0)
  /-- Before a slot that has changed, every slot is at its floor. -/
  settled : order.Pairwise fun p s =>
    t.getD s.1 0 ≠ u.getD s.1 0 → t.getD p.1 0 = floorOf p.2 (u.getD p.1 0)
  /-- A position that is not a slot is unchanged. -/
  frame : ∀ k, (∀ s ∈ order, k ≠ s.1) → t.getD k 0 = u.getD k 0

namespace Halved

variable {order : List Slot} {u t : List Int}

theorem refl (order : List Slot) (u : List Int) : Halved order u u :=
  ⟨rfl, fun _ _ => .inl rfl, List.pairwise_of_forall fun _ _ h => absurd rfl h, fun _ _ => rfl⟩

theorem le (h : Halved order u t) {s : Slot} (hs : s ∈ order) :
    t.getD s.1 0 ≤ u.getD s.1 0 := by
  rcases h.slot s hs with heq | ⟨_, _, _, hlt⟩
  · exact le_of_eq heq
  · exact le_of_lt hlt

/-- A short slot is at its floor. -/
theorem eq_floor (h : Halved order u t) {s : Slot} (hs : s ∈ order)
    (hshort : t.getD s.1 0 < 2 * s.2) : t.getD s.1 0 = floorOf s.2 (u.getD s.1 0) := by
  unfold floorOf
  rcases h.slot s hs with heq | ⟨⟨k, hk⟩, hge, hu, _⟩
  · rw [if_pos (by omega), heq]
  · -- a multiple of the alignment in `[a, 2 a)` is the alignment
    rw [if_neg (by omega), hk]
    rw [hk] at hge hshort
    have hpos : 0 < s.2 := by omega
    have hk1 : 1 ≤ k := by
      by_contra hk0
      have : s.2 * k ≤ s.2 * 0 := mul_le_mul_of_nonneg_left (by omega) hpos.le
      omega
    have hk2 : k < 2 := by
      by_contra hk2
      have : s.2 * 2 ≤ s.2 * k := mul_le_mul_of_nonneg_left (by omega) hpos.le
      omega
    obtain rfl : k = 1 := by omega
    exact mul_one _

/-- **A step keeps the invariant.** -/
theorem step (hnodup : (order.map (·.1)).Nodup) (hpos : ∀ s ∈ order, 1 ≤ s.2)
    (hrange : ∀ s ∈ order, s.1 < u.length) (h : Halved order u t) {t' : List Int}
    (hstep : halveFirst order t = some t') : Halved order u t' := by
  obtain ⟨pre, i, a, post, rfl, hpre, hlong, rfl⟩ := halveFirst_eq_some hstep
  have hmem : (i, a) ∈ pre ++ (i, a) :: post := by simp
  have hi : i < t.length := by rw [h.length_eq]; exact hrange _ hmem
  have ha : 1 ≤ a := hpos _ hmem
  have hle : t.getD i 0 ≤ u.getD i 0 := h.le hmem
  obtain ⟨hdvd, hge, hhalf⟩ := halve_spec ha hlong
  -- slot `i` has its new value, every other slot its old one
  have hself : (t.set i (halve a (t.getD i 0))).getD i 0 = halve a (t.getD i 0) := by
    rw [getD_set, if_pos ⟨rfl, hi⟩]
  have hother : ∀ j, i ≠ j → (t.set i (halve a (t.getD i 0))).getD j 0 = t.getD j 0 := by
    intro j hj
    rw [getD_set, if_neg fun hc => hj hc.1]
  have hdistinct : ∀ s ∈ pre ++ (i, a) :: post, s = (i, a) ∨ i ≠ s.1 := by
    intro s hs
    by_cases his : i = s.1
    · exact .inl (List.inj_on_of_nodup_map hnodup hs hmem his.symm)
    · exact .inr his
  have hfirst : ∀ s ∈ pre, i ≠ s.1 := by
    intro s hs heq
    rw [List.map_append, List.map_cons] at hnodup
    exact (List.nodup_append.mp hnodup).2.2 s.1 (List.mem_map_of_mem hs) i (by simp) heq.symm
  have hlast : ∀ s ∈ post, i ≠ s.1 := by
    intro s hs heq
    rw [List.map_append, List.map_cons] at hnodup
    have := (List.nodup_cons.mp (List.nodup_append.mp hnodup).2.1).1
    exact this (List.mem_map.mpr ⟨s, hs, heq.symm⟩)
  obtain ⟨hpp, hcons, hcross⟩ := List.pairwise_append.mp h.settled
  obtain ⟨hcons₁, hcons₂⟩ := List.pairwise_cons.mp hcons
  refine ⟨by rw [List.length_set, h.length_eq], ?_, ?_, ?_⟩
  · intro s hs
    rcases hdistinct s hs with rfl | hne
    · rw [hself]
      exact .inr ⟨hdvd, hge, by simp only; omega, by simp only; omega⟩
    · rw [hother s.1 hne]
      exact h.slot s hs
  · refine List.pairwise_append.mpr ⟨?_, List.pairwise_cons.mpr ⟨?_, ?_⟩, ?_⟩
    · refine hpp.imp_of_mem fun {p s} hp hs hps => ?_
      rw [hother _ (hfirst p hp), hother _ (hfirst s hs)]
      exact hps
    · -- a slot after `i` has not moved yet: slot `i` is still above its floor
      intro s hs hmoved
      rw [hother _ (hlast s hs)] at hmoved
      have hfloor : t.getD i 0 = floorOf a (u.getD i 0) := hcons₁ s hs hmoved
      unfold floorOf at hfloor
      split at hfloor <;> omega
    · refine hcons₂.imp_of_mem fun {p s} hp hs hps => ?_
      rw [hother _ (hlast p hp), hother _ (hlast s hs)]
      exact hps
    · -- every slot before `i` is short, so at its floor
      intro p hp s _ _
      rw [hother _ (hfirst p hp)]
      exact h.eq_floor (by simp [hp]) (hpre p hp)
  · intro k hk
    rw [hother k fun hik => hk _ hmem hik.symm]
    exact h.frame k hk

/-- Where no step is possible, every slot is at its floor. -/
theorem eq_floor_of_stuck (h : Halved order u t) (hstuck : halveFirst order t = none) :
    ∀ s ∈ order, t.getD s.1 0 = floorOf s.2 (u.getD s.1 0) := fun s hs =>
  h.eq_floor hs (halveFirst_eq_none.mp hstuck s hs)

/-- A slot never drops below its floor. -/
theorem floor_le (h : Halved order u t) {s : Slot} (hs : s ∈ order) (ha : 1 ≤ s.2) :
    floorOf s.2 (u.getD s.1 0) ≤ t.getD s.1 0 := by
  unfold floorOf
  rcases h.slot s hs with heq | ⟨_, hge, hu, _⟩
  · split <;> omega
  · rw [if_neg (by omega)]
    exact hge

end Halved

/-! ### Settled slots -/

/-- Put every slot of a list at its floor. -/
def settle : List Slot → List Int → List Int
  | [], v => v
  | (i, a) :: rest, v => settle rest (v.set i (floorOf a (v.getD i 0)))

@[simp] theorem length_settle (slots : List Slot) (v : List Int) :
    (settle slots v).length = v.length := by
  induction slots generalizing v with
  | nil => rfl
  | cons s rest ih => rw [settle, ih, List.length_set]

theorem getD_settle_of_notMem {slots : List Slot} {k : Nat} (hk : ∀ s ∈ slots, k ≠ s.1)
    (v : List Int) : (settle slots v).getD k 0 = v.getD k 0 := by
  induction slots generalizing v with
  | nil => rfl
  | cons s rest ih =>
    rw [settle, ih fun s' hs' => hk s' (by simp [hs']), getD_set,
      if_neg fun hc => hk s (by simp) hc.1.symm]

theorem getD_settle_of_mem {slots : List Slot} (hnodup : (slots.map (·.1)).Nodup) {s : Slot}
    (hs : s ∈ slots) {v : List Int} (hrange : s.1 < v.length) :
    (settle slots v).getD s.1 0 = floorOf s.2 (v.getD s.1 0) := by
  induction slots generalizing v with
  | nil => cases hs
  | cons p rest ih =>
    rw [List.map_cons, List.nodup_cons] at hnodup
    rw [settle]
    rcases List.mem_cons.mp hs with rfl | hs
    · rw [getD_settle_of_notMem, getD_set, if_pos ⟨rfl, hrange⟩]
      intro s' hs' heq
      exact hnodup.1 (List.mem_map.mpr ⟨s', hs', heq.symm⟩)
    · rw [ih hnodup.2 hs (by rw [List.length_set]; exact hrange), getD_set, if_neg]
      rintro ⟨heq, _⟩
      exact hnodup.1 (List.mem_map.mpr ⟨s, hs, heq.symm⟩)

/-- The slots visited before position `i`. -/
def slotsBefore (order : List Slot) (i : Nat) : List Slot := order.takeWhile (·.1 ≠ i)

/-- The order, split at the slot of a position. -/
theorem slotsBefore_append {order : List Slot} (hnodup : (order.map (·.1)).Nodup) {s : Slot}
    (hs : s ∈ order) : ∃ post, order = slotsBefore order s.1 ++ s :: post := by
  induction order with
  | nil => cases hs
  | cons p rest ih =>
    rw [List.map_cons, List.nodup_cons] at hnodup
    rcases List.mem_cons.mp hs with rfl | hs
    · exact ⟨rest, by simp [slotsBefore]⟩
    · have hne : p.1 ≠ s.1 := fun heq => hnodup.1 (List.mem_map.mpr ⟨s, hs, heq.symm⟩)
      obtain ⟨post, hpost⟩ := ih hnodup.2 hs
      refine ⟨post, ?_⟩
      rw [slotsBefore, List.takeWhile_cons_of_pos (by simpa using hne), List.cons_append,
        ← slotsBefore, ← hpost]

/-- The smallest vector of a run from `u` in which slot `(i, a)` still has its first value:
    the slots before it are at their floor, and so are all others if it is too short to be
    halved. -/
def lowestKeeping (order : List Slot) (u : List Int) (s : Slot) : List Int :=
  if u.getD s.1 0 < 2 * s.2 then settle order u else settle (slotsBefore order s.1) u

@[simp] theorem length_lowestKeeping (order : List Slot) (u : List Int) (s : Slot) :
    (lowestKeeping order u s).length = u.length := by
  unfold lowestKeeping
  split <;> exact length_settle _ _

/-- Settling keeps entries positive. -/
theorem one_le_settle {slots : List Slot} (hpos : ∀ s ∈ slots, 1 ≤ s.2) {v : List Int}
    (hv : ∀ k < v.length, 1 ≤ v.getD k 0) : ∀ k < v.length, 1 ≤ (settle slots v).getD k 0 := by
  induction slots generalizing v with
  | nil => exact hv
  | cons s rest ih =>
    intro k hk
    rw [settle]
    refine ih (fun s' hs' => hpos s' (by simp [hs'])) (fun j hj => ?_) k
      (by rw [List.length_set]; exact hk)
    rw [List.length_set] at hj
    rw [getD_set]
    split
    · rename_i hsj
      have ha : 1 ≤ s.2 := hpos s (by simp)
      have hs := hv s.1 (hsj.1 ▸ hj)
      unfold floorOf
      split <;> omega
    · exact hv j hj

theorem one_le_lowestKeeping {order : List Slot} (hpos : ∀ s ∈ order, 1 ≤ s.2) {u : List Int}
    (hu : ∀ k < u.length, 1 ≤ u.getD k 0) (s : Slot) :
    ∀ k < u.length, 1 ≤ (lowestKeeping order u s).getD k 0 := by
  unfold lowestKeeping
  split
  · exact one_le_settle hpos hu
  · exact one_le_settle (fun p hp => hpos p ((List.takeWhile_sublist _).mem hp)) hu

/-- The smallest vector that keeps slot `s` keeps slot `s`. -/
theorem getD_lowestKeeping_self {order : List Slot} (hnodup : (order.map (·.1)).Nodup) {s : Slot}
    (hs : s ∈ order) {u : List Int} (hrange : s.1 < u.length) :
    (lowestKeeping order u s).getD s.1 0 = u.getD s.1 0 := by
  unfold lowestKeeping
  by_cases hshort : u.getD s.1 0 < 2 * s.2
  · rw [if_pos hshort, getD_settle_of_mem hnodup hs hrange, floorOf, if_pos hshort]
  · rw [if_neg hshort, getD_settle_of_notMem]
    intro p hp heq
    have := List.mem_takeWhile_imp hp
    simp [heq] at this

/-- Lists of one length with the same entries are equal. -/
theorem ext_getD {u v : List Int} (hlen : u.length = v.length)
    (h : ∀ k, u.getD k 0 = v.getD k 0) : u = v := by
  refine List.ext_getElem hlen fun k hu hv => ?_
  rw [← List.getD_eq_getElem u 0 hu, ← List.getD_eq_getElem v 0 hv]
  exact h k

namespace Halved

variable {order : List Slot} {u t : List Int}

/-- While a slot that can be halved keeps its first value, so do all slots after it. -/
theorem kept_after (h : Halved order u t) {pre post : List Slot} {s : Slot}
    (hsplit : order = pre ++ s :: post) (ha : 1 ≤ s.2) (hlong : 2 * s.2 ≤ u.getD s.1 0)
    (hkept : t.getD s.1 0 = u.getD s.1 0) : ∀ p ∈ post, t.getD p.1 0 = u.getD p.1 0 := by
  intro p hp
  by_contra hmoved
  have hsettled := h.settled
  rw [hsplit] at hsettled
  have hfloor := (List.pairwise_cons.mp (List.pairwise_append.mp hsettled).2.1).1 p hp hmoved
  rw [floorOf, if_neg (by omega)] at hfloor
  omega

variable (hnodup : (order.map (·.1)).Nodup) (hpos : ∀ s ∈ order, 1 ≤ s.2)
  (hrange : ∀ s ∈ order, s.1 < u.length)

include hnodup hpos hrange

/-- The value at every position of the smallest vector that keeps `s`, against the run. -/
theorem lowestKeeping_le (h : Halved order u t) {s : Slot} (hs : s ∈ order)
    (hkept : t.getD s.1 0 = u.getD s.1 0) (k : Nat) :
    (lowestKeeping order u s).getD k 0 ≤ t.getD k 0 := by
  unfold lowestKeeping
  by_cases hk : ∀ p ∈ order, k ≠ p.1
  · -- not a slot: unchanged on both sides
    have hk' : ∀ p ∈ slotsBefore order s.1, k ≠ p.1 := fun p hp =>
      hk p ((List.takeWhile_sublist _).mem hp)
    rw [h.frame k hk]
    split
    · rw [getD_settle_of_notMem hk]
    · rw [getD_settle_of_notMem hk']
  · push Not at hk
    obtain ⟨p, hp, rfl⟩ := hk
    split
    · rw [getD_settle_of_mem hnodup hp (hrange p hp)]
      exact h.floor_le hp (hpos p hp)
    · rename_i hlong
      obtain ⟨post, hpost⟩ := slotsBefore_append hnodup hs
      have hnodup' : ((slotsBefore order s.1).map (·.1)).Nodup :=
        hnodup.sublist ((List.takeWhile_sublist _).map _)
      by_cases hbefore : p ∈ slotsBefore order s.1
      · rw [getD_settle_of_mem hnodup' hbefore (hrange p hp)]
        exact h.floor_le hp (hpos p hp)
      · rw [getD_settle_of_notMem]
        · -- `p` is `s` or comes after it
          have hp' := hp
          rw [hpost] at hp'
          rcases List.mem_append.mp hp' with hp' | hp'
          · exact absurd hp' hbefore
          · rcases List.mem_cons.mp hp' with rfl | hp'
            · exact le_of_eq hkept.symm
            · exact le_of_eq (h.kept_after hpost (hpos s hs) (by omega) hkept p hp').symm
        · intro q hq heq
          have hqo : q ∈ order := (List.takeWhile_sublist _).mem hq
          have : p = q := List.inj_on_of_nodup_map hnodup hp hqo heq
          exact hbefore (this ▸ hq)

/-- **At the brink.** When the next step halves slot `s` for the first time, the vector is
    the smallest one that keeps `s`. -/
theorem eq_lowestKeeping (h : Halved order u t) {s : Slot} (hs : s ∈ order)
    (hkept : t.getD s.1 0 = u.getD s.1 0)
    (hbrink : ∀ t', halveFirst order t = some t' → t'.getD s.1 0 ≠ u.getD s.1 0) :
    t = lowestKeeping order u s := by
  refine ext_getD (by rw [length_lowestKeeping, h.length_eq]) fun k => ?_
  refine le_antisymm ?_ (h.lowestKeeping_le hnodup hpos hrange hs hkept k)
  cases hstep : halveFirst order t with
  | none =>
    -- the run is stuck: every slot is at its floor, and `s` too short to be halved
    have hfloor := h.eq_floor_of_stuck hstep
    have hself := hfloor s hs
    have hs1 := hpos s hs
    have hshort : u.getD s.1 0 < 2 * s.2 := by
      by_contra hlong
      rw [floorOf, if_neg hlong] at hself
      omega
    rw [lowestKeeping, if_pos hshort]
    by_cases hk : ∀ p ∈ order, k ≠ p.1
    · rw [getD_settle_of_notMem hk, h.frame k hk]
    · push Not at hk
      obtain ⟨p, hp, rfl⟩ := hk
      rw [getD_settle_of_mem hnodup hp (hrange p hp), hfloor p hp]
  | some t' =>
    have hne := hbrink t' hstep
    obtain ⟨pre, i, a, post, hsplit, hpre, hlong, rfl⟩ := halveFirst_eq_some hstep
    have hmem : (i, a) ∈ order := by rw [hsplit]; simp
    -- the halved slot is `s`
    have hi : i = s.1 := by
      by_contra hi
      rw [getD_set, if_neg fun hc => hi hc.1] at hne
      exact hne hkept
    obtain rfl : (i, a) = s := List.inj_on_of_nodup_map hnodup hmem hs hi
    simp only at hkept hlong hne
    obtain ⟨post', hpost'⟩ := slotsBefore_append hnodup hs
    have hbefore : slotsBefore order i = pre := by
      have hn : order.Nodup := List.Nodup.of_map _ hnodup
      rw [hsplit, slotsBefore, List.takeWhile_append_of_pos]
      · simp
      · intro p hp
        rw [hsplit, List.map_append, List.map_cons] at hnodup
        have := (List.nodup_append.mp hnodup).2.2 p.1 (List.mem_map_of_mem hp) i (by simp)
        simpa using this
    rw [lowestKeeping, if_neg (by simp only; omega)]
    simp only [hbefore]
    by_cases hk : ∃ p ∈ pre, k = p.1
    · obtain ⟨p, hp, rfl⟩ := hk
      have hpo : p ∈ order := by rw [hsplit]; simp [hp]
      have hnodup' : (pre.map (·.1)).Nodup := by
        rw [hsplit, List.map_append] at hnodup
        exact (List.nodup_append.mp hnodup).1
      rw [getD_settle_of_mem hnodup' hp (hrange p hpo), h.eq_floor hpo (hpre p hp)]
    · push Not at hk
      rw [getD_settle_of_notMem hk]
      by_cases hko : ∀ p ∈ order, k ≠ p.1
      · rw [h.frame k hko]
      · push Not at hko
        obtain ⟨p, hp, rfl⟩ := hko
        exact h.le hp

end Halved

/-! ### The sequence of halvings -/

/-- The vector after `k` steps, if that many are possible. -/
def halvings (order : List Slot) (u : List Int) : Nat → Option (List Int)
  | 0 => some u
  | k + 1 => (halvings order u k).bind (halveFirst order)

theorem halvings_succ_eq_some {order : List Slot} {u t : List Int} {k : Nat} :
    halvings order u (k + 1) = some t ↔
      ∃ t', halvings order u k = some t' ∧ halveFirst order t' = some t :=
  Option.bind_eq_some_iff

section Sequence

variable {order : List Slot} {u t : List Int} (hnodup : (order.map (·.1)).Nodup)
  (hpos : ∀ s ∈ order, 1 ≤ s.2) (hrange : ∀ s ∈ order, s.1 < u.length)

/-- A step makes no entry larger. -/
theorem halveFirst_le (hpos : ∀ s ∈ order, 1 ≤ s.2) {t' : List Int}
    (h : halveFirst order t = some t') (k : Nat) : t'.getD k 0 ≤ t.getD k 0 := by
  obtain ⟨pre, i, a, post, hsplit, -, hlong, rfl⟩ := halveFirst_eq_some h
  have ha : 1 ≤ a := hpos (i, a) (by rw [hsplit]; simp)
  obtain ⟨-, hge, hhalf⟩ := halve_spec ha hlong
  rw [getD_set]
  split
  · rename_i hik
    rw [← hik.1]
    omega
  · exact le_refl _

/-- Entries only shrink along the sequence. -/
theorem halvings_anti (hpos : ∀ s ∈ order, 1 ≤ s.2) {j k : Nat} (hjk : j ≤ k) {t' : List Int}
    (hj : halvings order u j = some t) (hk : halvings order u k = some t') (i : Nat) :
    t'.getD i 0 ≤ t.getD i 0 := by
  induction k generalizing t' with
  | zero =>
    obtain rfl : j = 0 := by omega
    rw [hj] at hk
    rw [Option.some.inj hk]
  | succ k ih =>
    rcases Nat.eq_or_lt_of_le hjk with rfl | hlt
    · rw [hj] at hk
      rw [Option.some.inj hk]
    · obtain ⟨w, hw, hstep⟩ := halvings_succ_eq_some.mp hk
      exact (halveFirst_le hpos hstep i).trans (ih (by omega) hw)

/-- If a later vector of the sequence exists, so does the next one. -/
theorem halvings_succ_isSome {j k : Nat} (hjk : j < k) {t' : List Int}
    (hj : halvings order u j = some t) (hk : halvings order u k = some t') :
    ∃ w, halveFirst order t = some w := by
  induction k generalizing t' with
  | zero => omega
  | succ k ih =>
    obtain ⟨w, hw, hstep⟩ := halvings_succ_eq_some.mp hk
    rcases Nat.eq_or_lt_of_le (Nat.lt_succ_iff.mp hjk) with rfl | hlt
    · rw [hj] at hw
      rw [Option.some.inj hw]
      exact ⟨t', hstep⟩
    · exact ih hlt hw

include hnodup hpos hrange

/-- Every vector of the sequence satisfies the invariant. -/
theorem halved_of_halvings {k : Nat} (h : halvings order u k = some t) : Halved order u t := by
  induction k generalizing t with
  | zero => rw [← Option.some.inj h]; exact Halved.refl order u
  | succ k ih =>
    obtain ⟨w, hw, hstep⟩ := halvings_succ_eq_some.mp h
    exact (ih hw).step hnodup hpos hrange hstep

/-- **The brink is reached.** From a vector of the sequence that keeps slot `s`, the
    sequence goes on to the smallest vector that keeps it. -/
theorem halvings_lowestKeeping {s : Slot} (hs : s ∈ order) {k : Nat}
    (h : halvings order u k = some t) (hkept : t.getD s.1 0 = u.getD s.1 0) :
    ∃ j, halvings order u j = some (lowestKeeping order u s) := by
  -- by induction on the sum of the entries, which every step lowers
  induction hn : (t.map Int.toNat).sum using Nat.strong_induction_on generalizing k t with
  | _ n ih =>
    have hh := halved_of_halvings hnodup hpos hrange h
    by_cases hbrink : ∀ t', halveFirst order t = some t' → t'.getD s.1 0 ≠ u.getD s.1 0
    · exact ⟨k, by rw [h, ← hh.eq_lowestKeeping hnodup hpos hrange hs hkept hbrink]⟩
    · push Not at hbrink
      obtain ⟨t', hstep, hkept'⟩ := hbrink
      refine ih _ ?_ (halvings_succ_eq_some.mpr ⟨t, h, hstep⟩) hkept' rfl
      obtain ⟨pre, i, a, post, hsplit, -, hlong, rfl⟩ := halveFirst_eq_some hstep
      have hmem : (i, a) ∈ order := by rw [hsplit]; simp
      have ha : 1 ≤ a := hpos _ hmem
      obtain ⟨-, hge, hhalf⟩ := halve_spec ha hlong
      rw [← hn]
      exact sum_toNat_set_lt (by rw [hh.length_eq]; exact hrange _ hmem) (by omega) (by omega)

end Sequence

end Lib
