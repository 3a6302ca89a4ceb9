import CoralNPU.Lib.Memory

namespace Lib

/-!
# Regions of memory

* `Region`, `Region.Has`, `Region.Apart` — a range of addresses, membership, and that two ranges
  share no address.
* `alignUp`, `bump` — the regions that a bump allocator gives to a list of lengths.
* `bump_first_le`, `bump_pairwise` — they start at the cursor or later, and are apart.
* `Region.frame` — a write keeps every address that is not in its region.
-/

/-- The `length` addresses from `first` on. -/
structure Region where
  first : Nat
  length : Nat
  deriving DecidableEq, Repr

namespace Region

/-- The address lies in the region. -/
def Has (r : Region) (p : Nat) : Prop := r.first ≤ p ∧ p < r.first + r.length

/-- It can be decided whether an address lies in a region. -/
instance (r : Region) (p : Nat) : Decidable (r.Has p) := inferInstanceAs (Decidable (_ ∧ _))

/-- The regions share no address. -/
def Apart (r s : Region) : Prop := ∀ p, r.Has p → ¬ s.Has p

/-- Being apart is symmetric. -/
theorem Apart.symm {r s : Region} (h : r.Apart s) : s.Apart r := fun p hs hr => h p hr hs

/-- A region that ends before another begins. -/
theorem apart_of_le {r s : Region} (h : r.first + r.length ≤ s.first) : r.Apart s := by
  rintro p ⟨-, hr⟩ ⟨hs, -⟩
  omega

/-- An empty region is apart from every region. -/
theorem apart_of_length_eq_zero {r s : Region} (h : s.length = 0) : r.Apart s := by
  rintro p - ⟨hlo, hhi⟩
  omega

/-- Two entries of a list of regions that are apart. -/
theorem apart_of_pairwise {rs : List Region} (h : rs.Pairwise Apart) {i j : Nat} (hij : i ≠ j)
    {r s : Region} (hr : rs[i]? = some r) (hs : rs[j]? = some s) : r.Apart s := by
  obtain ⟨hi, rfl⟩ := List.getElem?_eq_some_iff.mp hr
  obtain ⟨hj, rfl⟩ := List.getElem?_eq_some_iff.mp hs
  rcases Nat.lt_or_gt_of_ne hij with hlt | hlt
  · exact List.pairwise_iff_getElem.mp h i j hi hj hlt
  · exact (List.pairwise_iff_getElem.mp h j i hj hi hlt).symm

/-- What keeps the ranges on both sides of a region keeps the addresses that are not in it. -/
theorem frame {r : Region} {m m' : Memory}
    (h : ∀ b k, b + k ≤ r.first ∨ r.first + r.length ≤ b → AgreeOn m' m b k) {p : Nat}
    (hp : ¬ r.Has p) : m' p = m p := by
  apply h p 1 _ p (Nat.le_refl p) (Nat.lt_succ_self p)
  unfold Has at hp
  omega

/-- Memories with the same bytes at the addresses of a region agree on it. -/
theorem agreeOn {r : Region} {m m' : Memory} (h : ∀ p, r.Has p → m p = m' p) :
    AgreeOn m m' r.first r.length :=
  fun p hlo hhi => h p ⟨hlo, hhi⟩

/-- A part of the region from `b` on. -/
theorem agreeOn_part {r : Region} {m m' : Memory} (h : ∀ p, r.Has p → m p = m' p) {b k : Nat}
    (hlo : r.first ≤ b) (hhi : b + k ≤ r.first + r.length) : AgreeOn m m' b k :=
  (agreeOn h).mono hlo hhi

end Region

/-- A write leaves the addresses outside of its region alone. -/
theorem writeMem_of_not_has {m : Memory} {a : Nat} {bs : List UInt8} {p : Nat}
    (h : ¬ Region.Has ⟨a, bs.length⟩ p) : writeMem m a bs p = m p :=
  Region.frame (fun _ _ hbk => writeMem_agreeOn hbk) h

/-! ### Bump allocation -/

/-- The first multiple of `n` from `a` on. -/
def alignUp (n a : Nat) : Nat := (a + (n - 1)) / n * n

/-- Rounding up does not go down. -/
theorem le_alignUp {n : Nat} (hn : 0 < n) (a : Nat) : a ≤ alignUp n a := by
  have h := Nat.div_add_mod (a + (n - 1)) n
  have hlt := Nat.mod_lt (a + (n - 1)) hn
  rw [Nat.mul_comm] at h
  unfold alignUp
  omega

/-- It gives a multiple. -/
theorem dvd_alignUp (n a : Nat) : n ∣ alignUp n a := Nat.dvd_mul_left n _

/-- Behind a multiple of the alignment, only what is behind it is rounded up. -/
theorem alignUp_add {n k : Nat} (hn : 0 < n) (hk : n ∣ k) (a : Nat) :
    alignUp n (k + a) = k + alignUp n a := by
  obtain ⟨c, rfl⟩ := hk
  rw [alignUp, alignUp, Nat.add_assoc, Nat.mul_add_div hn, Nat.add_mul, Nat.mul_comm c n]

/-- The regions of a bump allocator with the given cursor. -/
def bump (align : Nat) : Nat → List Nat → List Region
  | _, [] => []
  | cursor, n :: ns => ⟨alignUp align cursor, n⟩ :: bump align (alignUp align cursor + n) ns

/-- There is one block for each length. -/
@[simp] theorem length_bump (align cursor : Nat) (ns : List Nat) :
    (bump align cursor ns).length = ns.length := by
  induction ns generalizing cursor with
  | nil => rfl
  | cons n ns ih => rw [bump, List.length_cons, List.length_cons, ih]

/-- No region starts before the cursor. -/
theorem bump_first_le {align : Nat} (halign : 0 < align) {ns : List Nat} :
    ∀ {cursor : Nat}, ∀ r ∈ bump align cursor ns, cursor ≤ r.first := by
  induction ns with
  | nil => intro cursor r hr; exact absurd hr List.not_mem_nil
  | cons n ns ih =>
    intro cursor r hr
    have hcursor := le_alignUp halign cursor
    rcases List.mem_cons.mp hr with rfl | hr
    · exact hcursor
    · have := ih r hr
      omega

/-- **The regions of a bump allocator are apart.** -/
theorem bump_pairwise {align : Nat} (halign : 0 < align) {ns : List Nat} :
    ∀ {cursor : Nat}, (bump align cursor ns).Pairwise Region.Apart := by
  induction ns with
  | nil => exact List.Pairwise.nil
  | cons n ns ih =>
    intro cursor
    refine List.pairwise_cons.mpr ⟨fun r hr => ?_, ih⟩
    exact Region.apart_of_le (bump_first_le halign r hr)

/-- The length of a region is the one that was asked for. -/
theorem length_of_getElem?_bump {align : Nat} {ns : List Nat} :
    ∀ {cursor i : Nat} {r : Region}, (bump align cursor ns)[i]? = some r → ns[i]? = some r.length := by
  induction ns with
  | nil => intro cursor i r h; cases h
  | cons n ns ih =>
    intro cursor i r h
    cases i with
    | zero =>
      obtain rfl := Option.some.inj h
      rfl
    | succ i => exact ih h

end Lib
