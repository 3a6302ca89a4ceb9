import CoralNPU.Lib.RowMajor
import Mathlib.Algebra.Order.Ring.Nat
import Mathlib.Data.List.Basic

namespace CoralNPU.CheckGen

open Lib

/-!
# CheckGen — the generators that come with the program

The files `sequential.mlir`, `positive_sequential.mlir` and `fill.mlir` hold one function for each rank
and element type.  The functions of a file differ in these only.

* `generate` — a tensor from the body of a `linalg.generic` with parallel loops and identity maps.
* `sequentialBody`, `positiveSequentialBody` — the bodies.
* `sequential`, `positiveSequential`, `fill` — the functions of the files.
* `generators_rowMajor` — their elements in row-major order.

The conversion to `f32` is left out.
-/

/-- An integer element type of the generators. -/
inductive GenElement
  | i1 | i8 | i16 | i32
  deriving DecidableEq

def GenElement.width : GenElement → Nat
  | i1 => 1
  | i8 => 8
  | i16 => 16
  | i32 => 32

/-- A tensor with the extents `dims`, in row-major order.  The body is given each extent with the
    index in it. -/
def generate {β : Type} (body : List (Nat × Nat) → β) (dims : List Nat) : List β :=
  (indices dims).map fun index => body (dims.zip index)

/-- `arith.index_cast`, from an `index` of 64 bits to `i32`. -/
def indexCast (i : Nat) : BitVec 32 := (BitVec.ofNat 64 i).setWidth 32

/-- The value that the body of `sequential_rank_<n>` computes in `i32`: `%val<k>` is
    `%idx<k> + %val<k-1> * %dim<k>`. -/
def sequentialBody : List (Nat × Nat) → BitVec 32
  | [] => 0
  | (_, idx0) :: rest =>
    rest.foldl (fun val (dim, idx) => indexCast idx + val * indexCast dim) (indexCast idx0)

/-- The value of `positive_sequential_rank_2` in `i32`. -/
def positiveSequentialBody (point : List (Nat × Nat)) : BitVec 32 :=
  sequentialBody point % 5 + 1

/-- `sequential_rank_<n>_<type>`; the conversion to `i32` is the identity. -/
def sequential (type : GenElement) (dims : List Nat) : List (BitVec type.width) :=
  generate (fun point => (sequentialBody point).setWidth type.width) dims

/-- `positive_sequential_rank_2_<type>` -/
def positiveSequential (type : GenElement) (dim0 dim1 : Nat) : List (BitVec type.width) :=
  generate (fun point => (positiveSequentialBody point).setWidth type.width) [dim0, dim1]

/-- `fill_rank_<n>_i32` -/
def fill (val : BitVec 32) (dims : List Nat) : List (BitVec 32) := generate (fun _ => val) dims

example : sequential .i32 [2, 3] = [0, 1, 2, 3, 4, 5] := by decide

/-! ### The elements in order -/

theorem indexCast_eq (i : Nat) : indexCast i = BitVec.ofNat 32 i := by
  apply BitVec.eq_of_toNat_eq
  simp only [indexCast, BitVec.toNat_setWidth, BitVec.toNat_ofNat]
  exact Nat.mod_mod_of_dvd i (by decide)

/-- The loop over the dimensions after the first computes the place of the index. -/
theorem foldl_position (dims index : List Nat) (hlen : index.length = dims.length) : ∀ block,
    (dims.zip index).foldl (fun val (dim, idx) => indexCast idx + val * indexCast dim)
      (BitVec.ofNat 32 block) = BitVec.ofNat 32 (position block dims index) := by
  induction dims generalizing index with
  | nil => exact fun block => rfl
  | cons dim dims ih =>
    cases index with
    | nil => cases hlen
    | cons i index =>
      intro block
      rw [List.zip_cons_cons, List.foldl_cons, position, ← ih index (Nat.succ.inj hlen)]
      simp only [indexCast_eq]
      rw [BitVec.ofNat_add, BitVec.ofNat_mul, BitVec.add_comm]

/-- An index has one number for each dimension. -/
theorem length_of_mem_indices {dims index : List Nat} (h : index ∈ indices dims) :
    index.length = dims.length := by
  induction dims generalizing index with
  | nil =>
    rw [indices, List.mem_singleton] at h
    rw [h]
  | cons dim dims ih =>
    rw [indices, List.mem_flatMap] at h
    obtain ⟨i, -, h⟩ := h
    obtain ⟨rest, hrest, rfl⟩ := List.mem_map.mp h
    rw [List.length_cons, List.length_cons, ih hrest]

/-- **The body** computes the place of the element, modulo `2 ^ 32`. -/
theorem sequentialBody_eq {dim : Nat} {dims index : List Nat} (h : index ∈ indices (dim :: dims)) :
    sequentialBody ((dim :: dims).zip index) = BitVec.ofNat 32 (position 0 (dim :: dims) index) := by
  have hlen := length_of_mem_indices h
  cases index with
  | nil => cases hlen
  | cons i index =>
    rw [List.zip_cons_cons, sequentialBody, indexCast_eq, foldl_position dims index (Nat.succ.inj hlen),
      position, Nat.zero_mul, Nat.zero_add]

/-- A tensor whose body depends on the place of the element only. -/
theorem generate_position {β : Type} {body : List (Nat × Nat) → β} (dim : Nat) (dims : List Nat)
    (f : BitVec 32 → β) (hbody : ∀ point, body point = f (sequentialBody point)) :
    generate body (dim :: dims)
      = (List.range (volume (dim :: dims))).map fun p => f (BitVec.ofNat 32 p) := by
  rw [← map_position_indices, List.map_map, generate]
  refine List.map_congr_left fun index hindex => ?_
  rw [hbody, sequentialBody_eq hindex]
  rfl

/-- Conversion to the element type reduces modulo its width. -/
theorem setWidth_ofNat_of_le {w : Nat} (hw : w ≤ 32) (n : Nat) :
    (BitVec.ofNat 32 n).setWidth w = BitVec.ofNat w n := by
  apply BitVec.eq_of_toNat_eq
  rw [BitVec.toNat_setWidth, BitVec.toNat_ofNat, BitVec.toNat_ofNat]
  exact Nat.mod_mod_of_dvd n (Nat.pow_dvd_pow 2 hw)

theorem length_indices (dims : List Nat) : (indices dims).length = volume dims := by
  rw [← List.length_map (position 0 dims), map_position_indices, List.length_range]

theorem GenElement.width_le (type : GenElement) : type.width ≤ 32 := by
  cases type <;> decide

/-- **The generators in row-major order**, for every rank and all extents: `sequential` counts from
    zero, `positive_sequential` runs through the numbers from one to five, both modulo the width of
    the elements and with the count taken modulo `2 ^ 32`; `fill` repeats its value. -/
theorem generators_rowMajor (type : GenElement) (dim : Nat) (dims : List Nat) :
    sequential type (dim :: dims)
        = (List.range (volume (dim :: dims))).map (BitVec.ofNat type.width) ∧
      (∀ dim1, positiveSequential type dim dim1 = (List.range (dim * dim1)).map fun p =>
        BitVec.ofNat type.width (p % 2 ^ 32 % 5 + 1)) ∧
      ∀ val, fill val (dim :: dims) = List.replicate (volume (dim :: dims)) val := by
  refine ⟨?_, fun dim1 => ?_, fun val => ?_⟩
  · refine (generate_position dim dims _ fun _ => rfl).trans (List.map_congr_left fun p _ => ?_)
    exact setWidth_ofNat_of_le type.width_le p
  · have hgenerate := generate_position dim [dim1]
      (fun v => (v % 5 + 1).setWidth type.width) fun _ => rfl
    rw [volume, volume, volume, Nat.mul_one] at hgenerate
    refine hgenerate.trans (List.map_congr_left fun p _ => ?_)
    have hvalue : BitVec.ofNat 32 p % 5 + 1 = BitVec.ofNat 32 (p % 2 ^ 32 % 5 + 1) := by
      apply BitVec.eq_of_toNat_eq
      rw [BitVec.toNat_add, BitVec.toNat_umod, BitVec.toNat_ofNat, BitVec.toNat_ofNat]
      rfl
    rw [hvalue]
    exact setWidth_ofNat_of_le type.width_le _
  · rw [fill, generate, List.map_const', length_indices]

end CoralNPU.CheckGen
