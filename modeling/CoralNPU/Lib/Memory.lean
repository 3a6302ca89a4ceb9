import Mathlib.Data.List.GetD
import Mathlib.Data.List.Range
import Mathlib.Tactic.Ring

namespace Lib

/-!
# Byte-addressed little-endian memory

A memory is a function from addresses to bytes.  Reads and writes of byte strings, of
little-endian numbers of `w` bytes and of arrays of such numbers, with one law of each kind:

* masking low bits off an address aligns it down (`and_two_pow_sub`);
* a read of what was just written gives it back (`readMem_writeMem`, `load_store`,
  `loadArray_storeArray`);
* `AgreeOn m m' a n` — two memories hold the same bytes at `a, …, a + n - 1`.  A write keeps
  every range it does not meet (`writeMem_agreeOn`, `store_agreeOn`, `storeArray_agreeOn`),
  and reads of ranges on which the memories agree are equal (`AgreeOn.load` and its kin).
-/

/-! ### Alignment -/

/-- Masking the `k` low bits off rounds down to a multiple of `2 ^ k`. -/
theorem and_two_pow_sub {x k w : Nat} (hx : x < 2 ^ w) (hk : k ≤ w) :
    x &&& (2 ^ w - 2 ^ k) = x / 2 ^ k * 2 ^ k := by
  have hmask : 2 ^ w - 2 ^ k = (2 ^ (w - k) - 1) * 2 ^ k := by
    rw [Nat.sub_mul, ← pow_add, Nat.sub_add_cancel hk, one_mul]
  apply Nat.eq_of_testBit_eq
  intro i
  rw [hmask, Nat.testBit_and, Nat.testBit_mul_two_pow, Nat.testBit_mul_two_pow,
    Nat.testBit_two_pow_sub_one, Nat.testBit_div_two_pow]
  by_cases hki : k ≤ i
  · have hi : i - k + k = i := Nat.sub_add_cancel hki
    by_cases hiw : i < w
    · simp only [hki, hi, decide_true, Bool.true_and, Bool.and_eq_left_iff_imp, decide_eq_true_eq]
      intro _
      omega
    · -- bits from `w` on are zero on both sides
      have hle : 2 ^ w ≤ 2 ^ i := Nat.pow_le_pow_right (by omega) (by omega)
      have hbit : x.testBit i = false := Nat.testBit_lt_two_pow (lt_of_lt_of_le hx hle)
      simp [hi, hbit]
  · simp [hki]

/-! ### Little-endian numbers -/

/-- The `w` low bytes of `v`, least significant first. -/
def toLE : Nat → Nat → List UInt8
  | 0, _ => []
  | w + 1, v => UInt8.ofNat v :: toLE w (v / 256)

/-- The number with the given bytes, least significant first. -/
def ofLE : List UInt8 → Nat
  | [] => 0
  | b :: bs => b.toNat + 256 * ofLE bs

/-- As many bytes as asked for. -/
@[simp] theorem length_toLE (w v : Nat) : (toLE w v).length = w := by
  induction w generalizing v with
  | zero => rfl
  | succ w ih => simp only [toLE, List.length_cons, ih]

/-- Bytes and back: the value is cut to the width. -/
theorem ofLE_toLE (w v : Nat) : ofLE (toLE w v) = v % 256 ^ w := by
  induction w generalizing v with
  | zero => simp only [toLE, ofLE, pow_zero, Nat.mod_one]
  | succ w ih =>
    have hb : (UInt8.ofNat v).toNat = v % 256 := UInt8.toNat_ofNat'
    rw [toLE, ofLE, ih, hb, pow_succ', Nat.mod_mul]

/-- Value and back: the bytes are the same. -/
theorem toLE_ofLE (bs : List UInt8) : toLE bs.length (ofLE bs) = bs := by
  induction bs with
  | nil => rfl
  | cons b bs ih =>
    have hb : b.toNat < 256 := b.toNat_lt
    have hhead : UInt8.ofNat (b.toNat + 256 * ofLE bs) = b := by
      rw [← UInt8.toNat_inj, UInt8.toNat_ofNat']
      omega
    have htail : (b.toNat + 256 * ofLE bs) / 256 = ofLE bs := by omega
    rw [List.length_cons, ofLE, toLE, hhead, htail, ih]

/-- The value of `n` bytes is below `256 ^ n`. -/
theorem ofLE_lt (bs : List UInt8) : ofLE bs < 256 ^ bs.length := by
  rw [← toLE_ofLE bs, ofLE_toLE, length_toLE]
  exact Nat.mod_lt _ (Nat.pow_pos (by decide))

/-! ### Byte strings in memory -/

/-- The bytes of a memory, by address. -/
abbrev Memory := Nat → UInt8

/-- Write `bs` at the addresses from `a` on. -/
def writeMem (m : Memory) (a : Nat) (bs : List UInt8) : Memory :=
  fun p => if a ≤ p then bs.getD (p - a) (m p) else m p

/-- The `n` bytes from `a` on. -/
def readMem (m : Memory) (a n : Nat) : List UInt8 :=
  (List.range n).map fun i => m (a + i)

/-- As many bytes as asked for. -/
@[simp] theorem length_readMem (m : Memory) (a n : Nat) : (readMem m a n).length = n := by
  simp [readMem]

/-- Writing nothing changes nothing. -/
@[simp] theorem writeMem_nil (m : Memory) (a : Nat) : writeMem m a [] = m := by
  ext p
  simp [writeMem]

/-- The memories `m` and `m'` hold the same `n` bytes from `a` on. -/
def AgreeOn (m m' : Memory) (a n : Nat) : Prop := ∀ p, a ≤ p → p < a + n → m p = m' p

namespace AgreeOn

variable {m m' m'' : Memory} {a n : Nat}

/-- A memory agrees with itself. -/
theorem refl (m : Memory) (a n : Nat) : AgreeOn m m a n := fun _ _ _ => rfl

/-- Agreement is transitive. -/
theorem trans (h : AgreeOn m m' a n) (h' : AgreeOn m' m'' a n) : AgreeOn m m'' a n :=
  fun p hlo hhi => (h p hlo hhi).trans (h' p hlo hhi)

/-- Agreement is symmetric. -/
theorem symm (h : AgreeOn m m' a n) : AgreeOn m' m a n :=
  fun p hlo hhi => (h p hlo hhi).symm

/-- Agreement on a range is agreement on every part of it. -/
theorem mono (h : AgreeOn m m' a n) {b k : Nat} (hlo : a ≤ b) (hhi : b + k ≤ a + n) :
    AgreeOn m m' b k :=
  fun p hp hp' => h p (by omega) (by omega)

/-- Memories that agree on a range read the same bytes there. -/
theorem readMem (h : AgreeOn m m' a n) : readMem m a n = readMem m' a n := by
  apply List.map_congr_left
  intro i hi
  exact h (a + i) (by omega) (by have := List.mem_range.mp hi; omega)

end AgreeOn

/-- What was written is read back. -/
theorem readMem_writeMem (m : Memory) (a : Nat) (bs : List UInt8) :
    readMem (writeMem m a bs) a bs.length = bs := by
  apply List.ext_getElem
  · simp
  · intro i h₁ h₂
    simp [readMem, writeMem, h₂]

/-- **Frame of a write.** A write keeps every range that it does not meet. -/
theorem writeMem_agreeOn {m : Memory} {a : Nat} {bs : List UInt8} {b k : Nat}
    (h : b + k ≤ a ∨ a + bs.length ≤ b) : AgreeOn (writeMem m a bs) m b k := by
  intro p hlo hhi
  show (if a ≤ p then bs.getD (p - a) (m p) else m p) = m p
  by_cases hap : a ≤ p
  · -- the address lies past the end of what was written
    rw [if_pos hap, List.getD_eq_default _ _ (by omega)]
  · rw [if_neg hap]

/-- Two writes next to each other are one. -/
theorem writeMem_append (m : Memory) (a : Nat) (bs cs : List UInt8) :
    writeMem (writeMem m a bs) (a + bs.length) cs = writeMem m a (bs ++ cs) := by
  funext p
  show (if a + bs.length ≤ p then cs.getD (p - (a + bs.length)) (writeMem m a bs p)
    else writeMem m a bs p) = writeMem m a (bs ++ cs) p
  simp only [writeMem]
  by_cases hap : a ≤ p
  · by_cases hend : a + bs.length ≤ p
    · rw [if_pos hend, if_pos hap, if_pos hap, List.getD_append_right _ _ _ _ (by omega),
        List.getD_eq_default bs _ (by omega), show p - (a + bs.length) = p - a - bs.length by omega]
    · rw [if_neg hend, if_pos hap, if_pos hap, List.getD_append _ _ _ _ (by omega)]
  · rw [if_neg (by omega), if_neg hap, if_neg hap]

/-! ### Numbers in memory -/

/-- The little-endian number of `w` bytes at `a`. -/
def load (w : Nat) (m : Memory) (a : Nat) : Nat := ofLE (readMem m a w)

/-- Store the `w` low bytes of `v` at `a`. -/
def store (w : Nat) (m : Memory) (a v : Nat) : Memory := writeMem m a (toLE w v)

/-- What was stored is loaded back, cut to the width. -/
theorem load_store (w : Nat) (m : Memory) (a v : Nat) :
    load w (store w m a v) a = v % 256 ^ w := by
  have h := readMem_writeMem m a (toLE w v)
  rw [length_toLE] at h
  rw [load, store, h, ofLE_toLE]

/-- A store leaves the ranges beside it alone. -/
theorem store_agreeOn {w : Nat} {m : Memory} {a v b k : Nat} (h : b + k ≤ a ∨ a + w ≤ b) :
    AgreeOn (store w m a v) m b k :=
  writeMem_agreeOn (by simpa using h)

/-- Memories that agree on a word load the same value. -/
theorem AgreeOn.load {m m' : Memory} {a w : Nat} (h : AgreeOn m m' a w) :
    load w m a = load w m' a := by
  rw [Lib.load, Lib.load, h.readMem]

/-- A store keeps the numbers that it does not meet. -/
theorem load_store_of_disjoint {w k : Nat} {m : Memory} {a v b : Nat}
    (h : b + k ≤ a ∨ a + w ≤ b) : load k (store w m a v) b = load k m b :=
  (store_agreeOn h).load

/-! ### Arrays in memory -/

/-- Store the numbers of `vs`, of `w` bytes each, one after the other from `a` on. -/
def storeArray (w : Nat) : Memory → Nat → List Nat → Memory
  | m, _, [] => m
  | m, a, v :: vs => storeArray w (store w m a v) (a + w) vs

/-- The `n` numbers of `w` bytes each from `a` on. -/
def loadArray (w : Nat) (m : Memory) : Nat → Nat → List Nat
  | _, 0 => []
  | a, n + 1 => load w m a :: loadArray w m (a + w) n

/-- Storing an array leaves the ranges beside it alone. -/
theorem storeArray_agreeOn {w : Nat} {vs : List Nat} {b k : Nat} :
    ∀ {m : Memory} {a : Nat}, b + k ≤ a ∨ a + w * vs.length ≤ b →
      AgreeOn (storeArray w m a vs) m b k := by
  induction vs with
  | nil => intro m a _; exact AgreeOn.refl m b k
  | cons v vs ih =>
    intro m a h
    rw [List.length_cons, Nat.mul_succ] at h
    exact (ih (by omega)).trans (store_agreeOn (by omega))

/-- Memories that agree on an array load the same values. -/
theorem AgreeOn.loadArray {m m' : Memory} {w n : Nat} :
    ∀ {a : Nat}, AgreeOn m m' a (w * n) → loadArray w m a n = loadArray w m' a n := by
  induction n with
  | zero => intro a _; rfl
  | succ n ih =>
    intro a h
    rw [Nat.mul_succ] at h
    rw [Lib.loadArray, Lib.loadArray, (h.mono (Nat.le_refl a) (by omega)).load,
      ih (h.mono (by omega) (by omega))]

/-- An array that was stored is loaded back, cut to the width. -/
theorem loadArray_storeArray (w : Nat) (vs : List Nat) :
    ∀ (m : Memory) (a : Nat), loadArray w (storeArray w m a vs) a vs.length
      = vs.map (· % 256 ^ w) := by
  induction vs with
  | nil => intro m a; rfl
  | cons v vs ih =>
    intro m a
    -- the rest of the array leaves the first number in place
    have hhead : load w (storeArray w (store w m a v) (a + w) vs) a = v % 256 ^ w := by
      rw [(storeArray_agreeOn (Or.inl (Nat.le_refl _))).load, load_store]
    show load w (storeArray w (store w m a v) (a + w) vs) a
        :: loadArray w (storeArray w (store w m a v) (a + w) vs) (a + w) vs.length = _
    rw [hhead, ih, List.map_cons]

end Lib
