import CoralNPU.Matrix.ToLLVM
import Mathlib.Tactic.Linarith

namespace CoralNPU.Matrix

open Lib

/-!
# Matrix — tile accesses against the memref descriptor

What the lowered loads and writebacks do at run time, and when that is what the descriptor of the
memref says: element `(r, c)` of the tile is the element of the memref at
`offset + (idx0 + r) * stride0 + (idx1 + c) * stride1`.

* `Operands`, `Value.eval`, `CallIntrinsic.transfers` — the emitted code, executed: the elements
  that move, each with its place in the tile and in memory;
* `TileAccess` — a memref, a pair of indices and a tile, with its load and its writeback;
  `TileAccess.elements` are the elements that the descriptor names;
* `transfers_eq` — the elements that the lowered code moves;
* `respectsDescriptor_iff` — they are those of the descriptor exactly when they have 32 bits, the
  column stride is 1, every row is lowered, and the rows of the memref are apart.
-/

variable {w p : Nat}

/-! ### The lowered code at run time -/

/-- The operands of a call at run time, with indices of `w` bits and pointers of `p` bits.  The
    lowering does not use operands 0 and 4, the allocated pointer and `size1`. -/
structure Operands (w p : Nat) where
  alignedPtr : BitVec p
  offset : BitVec w
  size0 : BitVec w
  stride0 : BitVec w
  stride1 : BitVec w
  idx0 : BitVec w
  idx1 : BitVec w
  tileId : BitVec 32
  deriving DecidableEq, Repr

namespace Operands

/-- The operands of the index type, by position. -/
def index (operands : Operands w p) : Nat → BitVec w
  | 2 => operands.offset
  | 3 => operands.size0
  | 5 => operands.stride0
  | 6 => operands.stride1
  | 7 => operands.idx0
  | 8 => operands.idx1
  | _ => 0

/-- The operands of type `i32`. -/
def i32 (operands : Operands w p) : Nat → BitVec 32
  | 9 => operands.tileId
  | _ => 0

/-- The operands that are pointers. -/
def pointer (operands : Operands w p) : Nat → BitVec p
  | 1 => operands.alignedPtr
  | _ => 0

end Operands

/-- The operations of the LLVM dialect, with wrapping arithmetic. -/
def Value.eval (operand : Nat → BitVec w) : Value w → BitVec w
  | .operand i => operand i
  | .constant value => BitVec.ofInt w value
  | .mul a b => a.eval operand * b.eval operand
  | .add a b => a.eval operand + b.eval operand
  | .shl a b => a.eval operand <<< b.eval operand
  | .or a b => a.eval operand ||| b.eval operand

/-- `getelementptr`: the index is extended to the width of a pointer, and scaled. -/
def gep (base : BitVec p) (element : GepElementType) (index : BitVec w) : BitVec p :=
  base + BitVec.ofNat p element.bytes * index.signExtend p

/-- One element that moves between a tile and memory, of `width` bits. -/
structure Transfer where
  isLoad : Bool
  tile : Nat
  row : Nat
  column : Nat
  address : Int
  width : Nat
  deriving DecidableEq, Repr

/-- A `vtle` or `vtse` moves a row of consecutive elements; the tile is in the upper bits of
    `tss`, the row in the lower ones. -/
def CallIntrinsic.transfers (operands : Operands w p) (columns : Nat) (op : CallIntrinsic w) :
    List Transfer :=
  let tss := op.tss.eval operands.i32
  let address := gep (operands.pointer op.alignedPtr) op.element (op.finalOffset.eval operands.index)
  (List.range columns).map fun c =>
    { isLoad := op.isLoad, tile := tss.toNat / 2 ^ 27, row := tss.toNat % 2 ^ 27, column := c,
      address := address.toNat + c * op.element.bytes, width := 8 * op.element.bytes }

/-- A memory, and the elements of the tiles by tile, row and column. -/
structure Machine where
  memory : Memory
  tiles : Nat × Nat × Nat → Nat

/-- One element moves. -/
def Machine.transfer (s : Machine) (t : Transfer) : Machine :=
  let cell := (t.tile, t.row, t.column)
  let bytes := t.width / 8
  if t.isLoad then
    { s with tiles := Function.update s.tiles cell (load bytes s.memory t.address.toNat) }
  else
    { s with memory := store bytes s.memory t.address.toNat (s.tiles cell) }

theorem Machine.transfer_load (s : Machine) (tile : Nat) (cell : Nat × Nat) (address : Int) :
    s.transfer ⟨true, tile, cell.1, cell.2, address, 32⟩
      = ⟨s.memory, Function.update s.tiles (tile, cell) (load 4 s.memory address.toNat)⟩ := by
  simp [Machine.transfer]

theorem Machine.transfer_store (s : Machine) (tile : Nat) (cell : Nat × Nat) (address : Int) :
    s.transfer ⟨false, tile, cell.1, cell.2, address, 32⟩
      = ⟨store 4 s.memory address.toNat (s.tiles (tile, cell)), s.tiles⟩ := by
  simp [Machine.transfer]

/-- The elements move in order. -/
def Machine.run (s : Machine) (ts : List Transfer) : Machine := ts.foldl Machine.transfer s

/-! ### What the descriptor says -/

/-- A memref with elements of `width` bits, a pair of indices, and a tile of `columns` columns.
    `constants` are the operands as the lowering sees them. -/
structure TileAccess (w p : Nat) where
  width : Nat
  operands : Operands w p
  columns : Nat
  constants : List (Option Int)
  numOperands : constants.length = 10
  size0_eq : ∀ n, constants.getD 3 none = some n → operands.size0.toInt = n

namespace TileAccess

/-- The load, or the writeback. -/
def call (a : TileAccess w p) (isLoad : Bool) : CallOp := ⟨funcName isLoad a.width, a.constants⟩

/-- The number of rows. -/
def rows (a : TileAccess w p) : Nat := a.operands.size0.toInt.toNat

/-- The tile. -/
def tile (a : TileAccess w p) : Nat := a.operands.tileId.toNat

/-- The bytes of an element. -/
def elementBytes (a : TileAccess w p) : Nat := (a.width + 7) / 8

/-- The index of an element of the tile in the memref. -/
def index (a : TileAccess w p) (cell : Nat × Nat) : Int :=
  a.operands.offset.toInt + (a.operands.idx0.toInt + cell.1) * a.operands.stride0.toInt
    + (a.operands.idx1.toInt + cell.2) * a.operands.stride1.toInt

/-- The address of an element of the tile. -/
def address (a : TileAccess w p) (cell : Nat × Nat) : Int :=
  a.operands.alignedPtr.toNat + a.elementBytes * a.index cell

/-- The elements that the descriptor names. -/
def elements (a : TileAccess w p) (isLoad : Bool) : List Transfer :=
  (cells a.rows a.columns).map fun cell =>
    { isLoad := isLoad, tile := a.tile, row := cell.1, column := cell.2, address := a.address cell,
      width := a.width }

/-- Nothing overflows: the index of each element fits the index type, and its bytes are in the
    address space. -/
structure NotOverflowing (a : TileAccess w p) : Prop where
  index : ∀ cell ∈ cells a.rows a.columns, -2 ^ w ≤ a.index cell * 2 ∧ a.index cell * 2 < 2 ^ w
  address : ∀ cell ∈ cells a.rows a.columns,
    0 ≤ a.address cell ∧ a.address cell + a.elementBytes ≤ 2 ^ p

/-- **The lowering respects the descriptor**: the load and the writeback move the elements that
    the descriptor names, the selectors of different rows and tiles are different, and a
    writeback followed by a load restores the tile. -/
structure RespectsDescriptor (a : TileAccess w p) : Prop where
  transfers : ∀ isLoad, ∃ code, lowerMatrixMemOp w (a.call isLoad) = .ok code ∧
    code.flatMap (CallIntrinsic.transfers a.operands a.columns) = a.elements isLoad
  selectors : ∀ tile tile' : BitVec 32, tile.toNat < 16 → tile'.toNat < 16 →
    ∀ row row' : Nat, row < 2 ^ 27 → row' < 2 ^ 27 →
      (tssValue row).eval (fun _ => tile) = (tssValue row').eval (fun _ => tile') →
        tile = tile' ∧ row = row'
  restores : ∀ stores loads, lowerMatrixMemOp w (a.call false) = .ok stores →
    lowerMatrixMemOp w (a.call true) = .ok loads → ∀ s : Machine,
      (∀ cell ∈ cells a.rows a.columns, s.tiles (a.tile, cell) < 2 ^ a.width) →
        ∀ cell ∈ cells a.rows a.columns,
          ((s.run (stores.flatMap (CallIntrinsic.transfers a.operands a.columns))).run
            (loads.flatMap (CallIntrinsic.transfers a.operands a.columns))).tiles (a.tile, cell)
              = s.tiles (a.tile, cell)

end TileAccess

/-! ### The selector -/

/-- The selector holds the tile above the row. -/
theorem tss_toNat {tile : BitVec 32} (htile : tile.toNat < 16) {row : Nat} (hrow : row < 2 ^ 27)
    {operand : Nat → BitVec 32} (hoperand : operand 9 = tile) :
    ((tssValue row).eval operand).toNat = tile.toNat * 2 ^ 27 + row := by
  have hbits : (BitVec.ofInt 32 row).toNat = row := by
    rw [BitVec.ofInt_natCast, BitVec.toNat_ofNat]
    exact Nat.mod_eq_of_lt (by omega)
  have hshift : (tile <<< BitVec.ofInt 32 27).toNat = tile.toNat * 2 ^ 27 := by
    show (tile <<< 27).toNat = _
    rw [BitVec.toNat_shiftLeft, Nat.shiftLeft_eq]
    exact Nat.mod_eq_of_lt (by omega)
  show ((operand 9 <<< BitVec.ofInt 32 27) ||| BitVec.ofInt 32 row).toNat = _
  rw [hoperand, BitVec.toNat_or, hshift, hbits, ← Nat.shiftLeft_eq,
    Nat.shiftLeft_add_eq_or_of_lt hrow]

/-- Different tiles and rows have different selectors. -/
theorem tss_injective {tile tile' : BitVec 32} (htile : tile.toNat < 16) (htile' : tile'.toNat < 16)
    {row row' : Nat} (hrow : row < 2 ^ 27) (hrow' : row' < 2 ^ 27)
    (h : (tssValue row).eval (fun _ => tile) = (tssValue row').eval (fun _ => tile')) :
    tile = tile' ∧ row = row' := by
  have hnat := congrArg BitVec.toNat h
  rw [tss_toNat htile hrow rfl, tss_toNat htile' hrow' rfl] at hnat
  exact ⟨BitVec.eq_of_toNat_eq (by omega), by omega⟩

namespace TileAccess

variable {a : TileAccess w p}

/-! ### The elements that move -/

/-- The rows that are lowered. -/
def loweredRows (a : TileAccess w p) : Nat := (numRows (a.call true)).toNat

/-- Every row is lowered exactly when the number of rows is a constant, or 4. -/
theorem loweredRows_eq_iff :
    a.loweredRows = a.rows ↔ (a.constants.getD 3 none).isSome = true ∨ a.rows = 4 := by
  unfold loweredRows numRows call rows
  cases hconst : a.constants.getD 3 none with
  | none =>
    simp only [Option.getD_none, Option.isSome_none, Bool.false_eq_true, false_or]
    omega
  | some n =>
    rw [a.size0_eq n hconst]
    simp only [Option.getD_some, Option.isSome_some, true_or]

theorem loweredRows_lt (hrows : a.rows < 2 ^ 27) : a.loweredRows < 2 ^ 27 := by
  unfold loweredRows numRows call
  unfold rows at hrows
  cases hconst : a.constants.getD 3 none with
  | none => decide
  | some n =>
    rw [a.size0_eq n hconst] at hrows
    exact hrows

/-- Where the code expects an element of a row. -/
def rowAddress (a : TileAccess w p) (row : Nat) : Nat :=
  (gep a.operands.alignedPtr .f32 ((rowOffset w row).eval a.operands.index)).toNat

/-- **The elements that the lowered code moves**, for either call. -/
theorem transfers_eq (htile : a.tile < 16) (hrows : a.loweredRows < 2 ^ 27) (isLoad : Bool) :
    ∃ code, lowerMatrixMemOp w (a.call isLoad) = .ok code ∧
      code.flatMap (CallIntrinsic.transfers a.operands a.columns)
        = (cells a.loweredRows a.columns).map fun cell =>
            { isLoad := isLoad, tile := a.tile, row := cell.1, column := cell.2,
              address := a.rowAddress cell.1 + cell.2 * 4, width := 32 } := by
  refine ⟨_, lowerMatrixMemOp_eq w isLoad a.width a.numOperands, ?_⟩
  rw [List.flatMap_map, cells, List.map_flatMap]
  refine List.flatMap_congr fun row hrow => ?_
  have hlt : row < 2 ^ 27 := (List.mem_range.mp hrow).trans hrows
  have htss : ((tssValue row).eval a.operands.i32).toNat = a.tile * 2 ^ 27 + row :=
    tss_toNat htile hlt rfl
  have htile' : (a.tile * 2 ^ 27 + row) / 2 ^ 27 = a.tile := by omega
  have hrow' : (a.tile * 2 ^ 27 + row) % 2 ^ 27 = row := by omega
  rw [List.map_map]
  simp only [CallIntrinsic.transfers, htss, htile', hrow']
  rfl

/-! ### Where the lowered code looks -/

/-- The offset of a row, in the arithmetic of the index type. -/
theorem rowOffset_eval (a : TileAccess w p) (row : Nat) :
    (rowOffset w row).eval a.operands.index = BitVec.ofInt w (a.index (row, 0)) := by
  have hsum : a.index (row, 0) = a.operands.offset.toInt
      + a.operands.idx0.toInt * a.operands.stride0.toInt
      + a.operands.idx1.toInt * a.operands.stride1.toInt + row * a.operands.stride0.toInt := by
    unfold index
    push_cast
    ring
  rw [hsum]
  simp only [BitVec.ofInt_add, BitVec.ofInt_mul, BitVec.ofInt_toInt]
  rfl

/-- **The address of a row** that does not overflow: that of its first element, for elements of
    4 bytes. -/
theorem rowAddress_eq (hfits : a.NotOverflowing) (hwidth : a.width = 32) {row : Nat}
    (hrow : (row, 0) ∈ cells a.rows a.columns) : (a.rowAddress row : Int) = a.address (row, 0) := by
  have hbytes : a.elementBytes = 4 := by rw [elementBytes, hwidth]
  obtain ⟨hlo, hhi⟩ := hfits.index _ hrow
  obtain ⟨hlo', hhi'⟩ := hfits.address _ hrow
  have hindex : ((rowOffset w row).eval a.operands.index).toInt = a.index (row, 0) := by
    rw [rowOffset_eval, BitVec.toInt_ofInt]
    exact Int.bmod_eq_of_le_mul_two (by exact_mod_cast hlo) (by exact_mod_cast hhi)
  have hgep : gep a.operands.alignedPtr .f32 ((rowOffset w row).eval a.operands.index)
      = BitVec.ofInt p (a.address (row, 0)) := by
    rw [address, hbytes, BitVec.ofInt_add, BitVec.ofInt_mul, gep, BitVec.signExtend, hindex]
    simp [GepElementType.bytes]
  rw [rowAddress, hgep, BitVec.toNat_ofInt, Int.toNat_of_nonneg (Int.emod_nonneg _ (by positivity))]
  exact Int.emod_eq_of_lt hlo' (by push_cast; omega)

/-! ### The round trip -/

/-- What the loads of the descriptor's elements leave in the tiles. -/
theorem run_loads (hwidth : a.width = 32) (s : Machine) :
    (s.run (a.elements true)).tiles = assignEach (fun cell => (a.tile, cell))
      (fun cell => load 4 s.memory (a.address cell).toNat) s.tiles (cells a.rows a.columns) := by
  have hrun : ∀ (cs : List (Nat × Nat)) (s : Machine),
      s.run (cs.map fun cell => ⟨true, a.tile, cell.1, cell.2, a.address cell, a.width⟩)
        = ⟨s.memory, assignEach (fun cell => (a.tile, cell))
            (fun cell => load 4 s.memory (a.address cell).toNat) s.tiles cs⟩ := by
    intro cs
    rw [hwidth]
    induction cs with
    | nil => exact fun s => rfl
    | cons cell cs ih =>
      intro s
      show (s.transfer ⟨true, a.tile, cell.1, cell.2, a.address cell, 32⟩).run _ = _
      rw [ih, Machine.transfer_load]
      rfl
  exact congrArg Machine.tiles (hrun _ s)

/-- What the stores of the descriptor's elements leave in memory; they leave the tiles alone. -/
theorem run_stores (hwidth : a.width = 32) (s : Machine) :
    s.run (a.elements false) = ⟨storeEach 4 (fun cell => (a.address cell).toNat)
      (fun cell => s.tiles (a.tile, cell)) s.memory (cells a.rows a.columns), s.tiles⟩ := by
  have hrun : ∀ (cs : List (Nat × Nat)) (s : Machine),
      s.run (cs.map fun cell => ⟨false, a.tile, cell.1, cell.2, a.address cell, a.width⟩)
        = ⟨storeEach 4 (fun cell => (a.address cell).toNat)
            (fun cell => s.tiles (a.tile, cell)) s.memory cs, s.tiles⟩ := by
    intro cs
    rw [hwidth]
    induction cs with
    | nil => exact fun s => rfl
    | cons cell cs ih =>
      intro s
      show (s.transfer ⟨false, a.tile, cell.1, cell.2, a.address cell, 32⟩).run _ = _
      rw [ih, Machine.transfer_store]
      rfl
  exact hrun _ s

/-- What a load after a writeback leaves in the tile: what memory holds at the element. -/
theorem run_roundTrip (hwidth : a.width = 32) (s : Machine) {cell : Nat × Nat}
    (hcell : cell ∈ cells a.rows a.columns) :
    ((s.run (a.elements false)).run (a.elements true)).tiles (a.tile, cell)
      = load 4 (storeEach 4 (fun cell => (a.address cell).toNat)
          (fun cell => s.tiles (a.tile, cell)) s.memory (cells a.rows a.columns))
          (a.address cell).toNat := by
  -- the cells of a tile are different
  have hkeys : (cells a.rows a.columns).Pairwise fun i j => (a.tile, i) ≠ (a.tile, j) :=
    (nodup_cells _ _).imp fun hne h => hne (Prod.mk.inj h).2
  rw [run_loads hwidth, run_stores hwidth]
  exact assignEach_of_mem hkeys hcell

/-- The places of the elements are different. -/
def Apart (a : TileAccess w p) : Prop :=
  ∀ cell ∈ cells a.rows a.columns, ∀ cell' ∈ cells a.rows a.columns,
    a.index cell = a.index cell' → cell = cell'

/-- Elements at different places are restored. -/
theorem restored_of_apart (hfits : a.NotOverflowing) (hwidth : a.width = 32) (hapart : a.Apart)
    (s : Machine) (hs : ∀ cell ∈ cells a.rows a.columns, s.tiles (a.tile, cell) < 2 ^ a.width)
    {cell : Nat × Nat} (hcell : cell ∈ cells a.rows a.columns) :
    ((s.run (a.elements false)).run (a.elements true)).tiles (a.tile, cell)
      = s.tiles (a.tile, cell) := by
  have hbytes : a.elementBytes = 4 := by rw [elementBytes, hwidth]
  have hmeet : (cells a.rows a.columns).Pairwise fun i j =>
      (a.address i).toNat + 4 ≤ (a.address j).toNat
        ∨ (a.address j).toNat + 4 ≤ (a.address i).toNat := by
    refine (nodup_cells _ _).imp_of_mem fun {i j} hi hj hne => ?_
    have hindex : a.index i ≠ a.index j := fun h => hne (hapart i hi j hj h)
    have hposi := (hfits.address i hi).1
    have hposj := (hfits.address j hj).1
    unfold address at hposi hposj ⊢
    rw [hbytes] at hposi hposj ⊢
    omega
  rw [run_roundTrip hwidth s hcell, load_storeEach hmeet hcell]
  have hlt := hs cell hcell
  rw [hwidth] at hlt
  exact Nat.mod_eq_of_lt hlt

/-- Elements that are restored are at different places. -/
theorem apart_of_restored (hwidth : a.width = 32)
    (h : ∀ s : Machine, (∀ cell ∈ cells a.rows a.columns, s.tiles (a.tile, cell) < 2 ^ a.width) →
      ∀ cell ∈ cells a.rows a.columns,
        ((s.run (a.elements false)).run (a.elements true)).tiles (a.tile, cell)
          = s.tiles (a.tile, cell)) : a.Apart := by
  intro cell hcell cell' hcell' hindex
  by_contra hne
  -- 1 in the first element, 0 in the second
  let s : Machine := ⟨fun _ => 0, fun k => if k = (a.tile, cell) then 1 else 0⟩
  have hs : ∀ k, s.tiles k < 2 ^ a.width := by
    intro k
    rw [hwidth]
    show (if k = (a.tile, cell) then 1 else 0) < 2 ^ 32
    split <;> norm_num
  have hone := h s (fun _ _ => hs _) cell hcell
  have hzero := h s (fun _ _ => hs _) cell' hcell'
  have haddress : a.address cell = a.address cell' := by rw [address, address, hindex]
  rw [run_roundTrip hwidth s hcell, haddress, ← run_roundTrip hwidth s hcell', hzero] at hone
  have hone' : s.tiles (a.tile, cell) = 1 := if_pos rfl
  have hzero' : s.tiles (a.tile, cell') = 0 := if_neg fun h => hne (Prod.mk.inj h).2.symm
  rw [hone', hzero'] at hone
  cases hone

/-! ### The condition -/

/-- The condition under which the lowering respects the descriptor: the tile has no columns; or
    every row is lowered and, unless there is none, the elements have 32 bits, the column stride
    is 1 or there is one column, and the rows are apart. -/
def Lowerable (a : TileAccess w p) : Prop :=
  a.columns = 0 ∨ (((a.constants.getD 3 none).isSome = true ∨ a.rows = 4) ∧
    (a.rows = 0 ∨ a.width = 32 ∧ (a.columns = 1 ∨ a.operands.stride1.toInt = 1) ∧
      (a.rows ≤ 1 ∨ (a.columns : Int) ≤ |a.operands.stride0.toInt|)))

/-- The column stride counts in columns other than 0 only. -/
theorem column_mul_stride (hstride : a.columns = 1 ∨ a.operands.stride1.toInt = 1)
    {cell : Nat × Nat} (hcell : cell ∈ cells a.rows a.columns) :
    (cell.2 : Int) * a.operands.stride1.toInt = cell.2 := by
  obtain ⟨-, hc⟩ := mem_cells.mp hcell
  rcases hstride with hone | hone
  · rw [show cell.2 = 0 by omega]
    simp
  · rw [hone, mul_one]

/-- With unit column stride the index of an element is its place in a strided array. -/
theorem apart_iff (hcolumns : 0 < a.columns)
    (hstride : a.columns = 1 ∨ a.operands.stride1.toInt = 1) :
    a.Apart ↔ a.rows ≤ 1 ∨ (a.columns : Int) ≤ |a.operands.stride0.toInt| := by
  rw [← strided_injective_iff hcolumns]
  refine forall₂_congr fun cell hcell => forall₂_congr fun cell' hcell' => ?_
  have hc := column_mul_stride hstride hcell
  have hc' := column_mul_stride hstride hcell'
  unfold index
  simp only [add_mul, hc, hc']
  constructor <;> intro h h' <;> exact h (by omega)

/-- The code moves the elements that the descriptor names exactly when it lowers every row, and
    a row is one of consecutive 32-bit elements. -/
theorem transfers_eq_iff (hfits : a.NotOverflowing) (hcolumns : 0 < a.columns) (isLoad : Bool) :
    ((cells a.loweredRows a.columns).map fun cell =>
        (⟨isLoad, a.tile, cell.1, cell.2, a.rowAddress cell.1 + cell.2 * 4, 32⟩ : Transfer))
      = a.elements isLoad ↔
    a.loweredRows = a.rows ∧
      (a.rows = 0 ∨ a.width = 32 ∧ (a.columns = 1 ∨ a.operands.stride1.toInt = 1)) := by
  have hfirst : ∀ {cell : Nat × Nat}, cell ∈ cells a.rows a.columns →
      (cell.1, 0) ∈ cells a.rows a.columns := fun hcell =>
    mem_cells.mpr ⟨(mem_cells.mp hcell).1, hcolumns⟩
  constructor
  · intro h
    have hrows : a.loweredRows = a.rows := by
      have hlength := congrArg List.length h
      simp only [elements, List.length_map, length_cells] at hlength
      exact Nat.eq_of_mul_eq_mul_right hcolumns hlength
    refine ⟨hrows, or_iff_not_imp_left.mpr fun hne => ?_⟩
    rw [hrows, elements, List.map_inj_left] at h
    -- the first element has the width, the second one the address
    have hzero : (0, 0) ∈ cells a.rows a.columns := mem_cells.mpr ⟨by omega, hcolumns⟩
    have hwidth : a.width = 32 := (Transfer.mk.inj (h _ hzero)).2.2.2.2.2.symm
    refine ⟨hwidth, or_iff_not_imp_left.mpr fun hone => ?_⟩
    have hnext : (0, 1) ∈ cells a.rows a.columns := mem_cells.mpr ⟨by omega, by show 1 < _; omega⟩
    have haddress := (Transfer.mk.inj (h _ hnext)).2.2.2.2.1
    rw [rowAddress_eq hfits hwidth hzero] at haddress
    simp only [address, index, elementBytes, hwidth] at haddress
    push_cast at haddress
    linarith
  · rintro ⟨hrows, hrow⟩
    rw [hrows, elements, List.map_inj_left]
    intro cell hcell
    have hr := (mem_cells.mp hcell).1
    rcases hrow with hnone | ⟨hwidth, hunit⟩
    · omega
    · rw [rowAddress_eq hfits hwidth (hfirst hcell), hwidth]
      have hcolumn := column_mul_stride hunit hcell
      have hbytes : a.elementBytes = 4 := by rw [elementBytes, hwidth]
      simp only [Transfer.mk.injEq, true_and, and_true, address, index, hbytes, add_mul, hcolumn]
      push_cast
      ring

/-- **The lowering respects the descriptor exactly under the condition.** -/
theorem respectsDescriptor_iff (hfits : a.NotOverflowing) (htile : a.tile < 16)
    (hrows : a.rows < 2 ^ 27) : a.RespectsDescriptor ↔ a.Lowerable := by
  have hlowered := transfers_eq htile (loweredRows_lt hrows)
  rcases Nat.eq_zero_or_pos a.columns with hnone | hcolumns
  · -- nothing moves
    refine iff_of_true ⟨fun isLoad => ?_, ?_, ?_⟩ (.inl hnone)
    · obtain ⟨code, hcode, hmoves⟩ := hlowered isLoad
      refine ⟨code, hcode, hmoves.trans ?_⟩
      rw [elements, hnone, cells_zero_right, cells_zero_right]
      rfl
    · exact fun _ _ h h' _ _ hr hr' => tss_injective h h' hr hr'
    · intro _ _ _ _ _ _ cell hcell
      rw [hnone, cells_zero_right] at hcell
      cases hcell
  · rw [Lowerable, or_iff_right hcolumns.ne', ← loweredRows_eq_iff]
    constructor
    · intro h
      obtain ⟨stores, hstores, hmoves⟩ := h.transfers false
      obtain ⟨loads, hloads, hmoves'⟩ := h.transfers true
      obtain ⟨code, hcode, heq⟩ := hlowered false
      obtain rfl := Except.ok.inj (hcode.symm.trans hstores)
      obtain ⟨hall, hrow⟩ := (transfers_eq_iff hfits hcolumns false).mp (heq.symm.trans hmoves)
      refine ⟨hall, hrow.imp_right fun ⟨hwidth, hunit⟩ => ⟨hwidth, hunit, ?_⟩⟩
      refine (apart_iff hcolumns hunit).mp (apart_of_restored hwidth fun s hs cell hcell => ?_)
      rw [← hmoves, ← hmoves']
      exact h.restores _ loads hcode hloads s hs cell hcell
    · rintro ⟨hall, hcond⟩
      have hmoves : ∀ isLoad, ∃ code, lowerMatrixMemOp w (a.call isLoad) = .ok code ∧
          code.flatMap (CallIntrinsic.transfers a.operands a.columns) = a.elements isLoad := by
        intro isLoad
        obtain ⟨code, hcode, heq⟩ := hlowered isLoad
        refine ⟨code, hcode, heq.trans ((transfers_eq_iff hfits hcolumns isLoad).mpr ⟨hall, ?_⟩)⟩
        exact hcond.imp_right fun h => ⟨h.1, h.2.1⟩
      refine ⟨hmoves, fun _ _ h h' _ _ hr hr' => tss_injective h h' hr hr', ?_⟩
      intro stores loads hstores hloads s hs cell hcell
      obtain ⟨stores', hstores', heq⟩ := hmoves false
      obtain ⟨loads', hloads', heq'⟩ := hmoves true
      obtain rfl := Except.ok.inj (hstores'.symm.trans hstores)
      obtain rfl := Except.ok.inj (hloads'.symm.trans hloads)
      rw [heq, heq']
      rcases hcond with hzero | ⟨hwidth, hunit, happart⟩
      · have hlt := (mem_cells.mp hcell).1
        omega
      · exact restored_of_apart hfits hwidth ((apart_iff hcolumns hunit).mpr happart) s hs hcell

/-! ### Two memrefs -/

/-- A 4x4 tile of 32-bit elements at address 4096, with the given strides. -/
def squareTile (stride0 stride1 : BitVec 32) : TileAccess 32 32 where
  width := 32
  operands :=
    { alignedPtr := 4096, offset := 0, size0 := 4, stride0 := stride0, stride1 := stride1,
      idx0 := 0, idx1 := 0, tileId := 3 }
  columns := 4
  constants := [none, none, none, some 4, some 4, none, none, some 0, some 0, some 3]
  numOperands := rfl
  size0_eq := by
    intro n h
    obtain rfl := Option.some.inj h
    rfl

theorem rowMajor_notOverflowing : (squareTile 4 1).NotOverflowing :=
  ⟨by decide +kernel, by decide +kernel⟩

theorem columnMajor_notOverflowing : (squareTile 1 4).NotOverflowing :=
  ⟨by decide +kernel, by decide +kernel⟩

/-- In a memref stored by columns, the load takes four consecutive elements for a row: element
    `(0, 1)` of the tile comes from address 4100, and not from 4112. -/
theorem columnMajor_not_respected :
    (squareTile 1 4).NotOverflowing ∧ (squareTile 1 4).address (0, 1) = 4112 ∧
      ¬ (squareTile 1 4).RespectsDescriptor := by
  refine ⟨columnMajor_notOverflowing, by decide, fun h => ?_⟩
  obtain ⟨code, hcode, hmoves⟩ := h.transfers true
  have hlowered : (lowerMatrixMemOp 32 ((squareTile 1 4).call true)).toOption.map
      (fun code => code.flatMap (CallIntrinsic.transfers (squareTile 1 4).operands 4))
        ≠ some ((squareTile 1 4).elements true) := by decide +kernel
  rw [hcode] at hlowered
  exact hlowered (congrArg some hmoves)

/-- The criterion at a memref stored by rows. -/
theorem respectsDescriptor_iff_rowMajor :
    (squareTile 4 1).RespectsDescriptor ↔ (squareTile 4 1).Lowerable :=
  respectsDescriptor_iff rowMajor_notOverflowing (by decide) (by decide)

end TileAccess

end CoralNPU.Matrix
