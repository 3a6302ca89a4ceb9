import CoralNPU.Lib.Memory
import Mathlib.Data.List.Induction
import Mathlib.Data.List.Nodup
import Mathlib.Algebra.Order.Ring.Abs
import Mathlib.Algebra.Order.Ring.Int
import Mathlib.Logic.Function.Basic

namespace Lib

/-!
# Strided two-dimensional arrays

The cells of a rectangle, row by row, and where the elements of a strided array stand.

* `cells` — the cells, each once (`mem_cells`, `nodup_cells`);
* `strided_injective_iff` — with unit stride inside a row, the rows are apart exactly when the row
  stride is at least as long as a row;
* `assignEach`, `storeEach` — one assignment, or one store to memory, for each of a list of cells;
  `assignEach_of_mem` and `load_storeEach` read them back.
-/

/-! ### Cells -/

/-- The cells of `rows` rows of `columns` columns. -/
def cells (rows columns : Nat) : List (Nat × Nat) :=
  (List.range rows).flatMap fun r => (List.range columns).map fun c => (r, c)

/-- The cells are the pairs below the two counts. -/
@[simp] theorem mem_cells {rows columns : Nat} {cell : Nat × Nat} :
    cell ∈ cells rows columns ↔ cell.1 < rows ∧ cell.2 < columns := by
  simp only [cells, List.mem_flatMap, List.mem_map, List.mem_range]
  constructor
  · rintro ⟨r, hr, c, hc, rfl⟩
    exact ⟨hr, hc⟩
  · rintro ⟨hr, hc⟩
    exact ⟨cell.1, hr, cell.2, hc, rfl⟩

/-- No cell comes twice. -/
theorem nodup_cells (rows columns : Nat) : (cells rows columns).Nodup := by
  refine List.nodup_flatMap.mpr ⟨fun r _ => ?_, List.nodup_range.imp fun {r r'} hne => ?_⟩
  · exact List.nodup_range.map fun c c' h => (Prod.mk.inj h).2
  · -- cells of different rows
    intro cell h h'
    obtain ⟨c, -, rfl⟩ := List.mem_map.mp h
    obtain ⟨c', -, h⟩ := List.mem_map.mp h'
    exact hne (Prod.mk.inj h).1.symm

/-- The number of cells. -/
@[simp] theorem length_cells (rows columns : Nat) : (cells rows columns).length = rows * columns := by
  simp [cells, List.length_flatMap]

/-- Nor without columns. -/
@[simp] theorem cells_zero_right (rows : Nat) : cells rows 0 = [] := by
  simp [cells]

/-! ### Places -/

/-- **The rows of a strided array are apart** — no two elements of the rectangle stand at the same
    place — exactly when there is one row, or a row is no longer than the row stride. -/
theorem strided_injective_iff {rows columns : Nat} (hcolumns : 0 < columns) (stride : Int) :
    (∀ cell ∈ cells rows columns, ∀ cell' ∈ cells rows columns,
      (cell.1 : Int) * stride + cell.2 = cell'.1 * stride + cell'.2 → cell = cell') ↔
      rows ≤ 1 ∨ (columns : Int) ≤ |stride| := by
  constructor
  · intro hinj
    by_contra hnot
    rw [not_or, not_le, not_le, abs_lt] at hnot
    obtain ⟨hrows, hneg, hpos⟩ := hnot
    -- the first element of row 1 stands inside row 0, or the other way round
    rcases le_total 0 stride with hsign | hsign
    · have h := hinj (1, 0) (by simp; omega) (0, stride.toNat) (by simp; omega) (by simp; omega)
      exact absurd (Prod.mk.inj h).1 (by decide)
    · have h := hinj (1, (-stride).toNat) (by simp; omega) (0, 0) (by simp; omega)
        (by simp; omega)
      exact absurd (Prod.mk.inj h).1 (by decide)
  · rintro hrows ⟨r, c⟩ hcell ⟨r', c'⟩ hcell' h
    simp only [mem_cells] at hcell hcell' h
    have hrow : r = r' := by
      rcases hrows with hrows | hlong
      · omega
      · by_contra hne
        -- rows `r` and `r'` are at least a row apart, columns `c` and `c'` are not
        have hdiff : ((r : Int) - r') * stride = c' - c := by
          rw [sub_mul]
          omega
        have hone : (1 : Int) ≤ |(r : Int) - r'| := Int.one_le_abs (by omega)
        have hfar : |stride| ≤ |(c' : Int) - c| := by
          rw [← hdiff, abs_mul]
          exact le_mul_of_one_le_left (abs_nonneg stride) hone
        have hnear : |(c' : Int) - c| < columns := by
          rw [abs_lt]
          omega
        omega
    subst hrow
    simp only [Prod.mk.injEq, true_and]
    omega

/-! ### One assignment a cell -/

section Assign

variable {ι κ ν : Type} [DecidableEq κ]

/-- Assign `value i` at `key i`, for each `i` of the list in order. -/
def assignEach (key : ι → κ) (value : ι → ν) (f : κ → ν) (is : List ι) : κ → ν :=
  is.foldl (fun f i => Function.update f (key i) (value i)) f

/-- What no index is the key of stays as it was. -/
theorem assignEach_of_notMem {key : ι → κ} {value : ι → ν} {f : κ → ν} {is : List ι} {k : κ}
    (h : ∀ i ∈ is, key i ≠ k) : assignEach key value f is k = f k := by
  induction is generalizing f with
  | nil => rfl
  | cons i is ih =>
    show assignEach key value (Function.update f (key i) (value i)) is k = f k
    rw [ih fun j hj => h j (List.mem_cons_of_mem i hj),
      Function.update_of_ne (h i List.mem_cons_self).symm]

/-- With keys that are apart, every index keeps its own value. -/
theorem assignEach_of_mem {key : ι → κ} {value : ι → ν} {f : κ → ν} {is : List ι}
    (hapart : is.Pairwise fun i j => key i ≠ key j) {i : ι} (hi : i ∈ is) :
    assignEach key value f is (key i) = value i := by
  induction is generalizing f with
  | nil => cases hi
  | cons j is ih =>
    obtain ⟨hj, his⟩ := List.pairwise_cons.mp hapart
    show assignEach key value (Function.update f (key j) (value j)) is (key i) = value i
    rcases List.mem_cons.mp hi with rfl | hi
    · -- the later assignments are elsewhere
      rw [assignEach_of_notMem fun k hk => (hj k hk).symm, Function.update_self]
    · exact ih his hi

/-- Assignments to one key may be repeated. -/
theorem assignEach_of_agree {key : ι → κ} {value : ι → ν} {f : κ → ν} {is : List ι}
    (hagree : ∀ i ∈ is, ∀ j ∈ is, key i = key j → value i = value j) {i : ι} (hi : i ∈ is) :
    assignEach key value f is (key i) = value i := by
  induction is using List.reverseRecOn with
  | nil => cases hi
  | append_singleton is j ih =>
    have hlast : assignEach key value f (is ++ [j])
        = Function.update (assignEach key value f is) (key j) (value j) := by
      rw [assignEach, List.foldl_append]
      rfl
    rw [hlast, Function.update_apply]
    split
    next heq => exact (hagree i hi j (by simp) heq).symm
    next hne =>
      have hmem : i ∈ is := by
        refine (List.mem_append.mp hi).resolve_right fun h => hne ?_
        rw [List.mem_singleton.mp h]
      refine ih (fun a ha b hb => hagree a ?_ b ?_) hmem
      · exact List.mem_append_left _ ha
      · exact List.mem_append_left _ hb

end Assign

/-! ### One store a cell -/

section Store

variable {ι : Type} {w : Nat} {address value : ι → Nat}

/-- Store `value i` at `address i`, for each `i` of the list in order. -/
def storeEach (w : Nat) (address value : ι → Nat) (m : Memory) (is : List ι) : Memory :=
  is.foldl (fun m i => store w m (address i) (value i)) m

/-- Stores that do not meet a range leave it alone. -/
theorem storeEach_agreeOn {m : Memory} {is : List ι} {b k : Nat}
    (h : ∀ i ∈ is, b + k ≤ address i ∨ address i + w ≤ b) :
    AgreeOn (storeEach w address value m is) m b k := by
  induction is generalizing m with
  | nil => exact AgreeOn.refl m b k
  | cons i is ih =>
    exact (ih fun j hj => h j (List.mem_cons_of_mem i hj)).trans
      (store_agreeOn (h i List.mem_cons_self))

/-- So every stored word is read back, if their places are apart. -/
theorem load_storeEach {m : Memory} {is : List ι}
    (hapart : is.Pairwise fun i j => address i + w ≤ address j ∨ address j + w ≤ address i) {i : ι}
    (hi : i ∈ is) : load w (storeEach w address value m is) (address i) = value i % 256 ^ w := by
  induction is generalizing m with
  | nil => cases hi
  | cons j is ih =>
    obtain ⟨hj, his⟩ := List.pairwise_cons.mp hapart
    show load w (storeEach w address value (store w m (address j) (value j)) is) (address i) = _
    rcases List.mem_cons.mp hi with rfl | hi
    · -- the later stores do not meet this one
      rw [(storeEach_agreeOn fun k hk => hj k hk).load, load_store]
    · exact ih his hi

end Store

end Lib
