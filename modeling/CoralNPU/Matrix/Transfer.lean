import CoralNPU.Lib.Strided
import CoralNPU.Lib.WriteSet
import CoralNPU.Matrix.Configuration
import CoralNPU.Matrix.LoadPlace
import CoralNPU.Mlir.Types
import Mathlib.Algebra.BigOperators.Group.Finset.Basic
import Mathlib.Algebra.BigOperators.Ring.Finset
import Mathlib.Tactic.Linarith

namespace CoralNPU.Matrix

open Lib
open scoped BigOperators

/-!
# Matrix — from transfers to tile loads and writebacks

An accumulator that is read by a `vector.transfer_read` and written by a `vector.transfer_write`
is loaded into its tile at the loop or the first update, and written back in the place of the
write.  Both go through a subview built from the base and the indices of the transfer.

* `Memref`, `TransferOp` — a strided memref, and a transfer of a 4x4 vector with all its
  attributes; `TransferOp.read` and `TransferOp.stores` say what it does;
* `SubView`, `tileSubView` — the subview of the pass; `tileLoad` and `tileStores` say what the tile
  load and the writeback do;
* `KeepsAccesses` — the values read and the elements stored are the same;
* `keepsAccesses_iff` — they are exactly when both transfers access the whole of a tile in the two
  trailing dimensions, and nothing that may run between the read and the loop or first update writes
  the elements read.
-/

/-! ### Transfers -/

/-- A memref with a strided layout.  Places and strides are counted in elements. -/
structure Memref where
  offset : Int
  shape : List Int
  strides : List Int
  length_eq : strides.length = shape.length

namespace Memref

/-- `MemRefType::getRank`. -/
def rank (base : Memref) : Nat := base.shape.length

/-- The place of an element, from its index in each dimension. -/
def place (base : Memref) (index : Nat → Int) : Int :=
  base.offset + ∑ k ∈ Finset.range base.rank, index k * base.strides.getD k 0

end Memref

/-- A transfer between a memref and a 4x4 vector.  A dimension of the vector that the permutation
    map does not send to one of the memref is a broadcast.  A mask is given by position in the
    vector. -/
structure TransferOp where
  base : Memref
  indices : List Int
  permutationMap : AffineMap
  inBounds : List Bool
  mask : Option (Nat × Nat → Bool)
  padding : BitVec 32
  /-- `expected memref rank to be at least 2`. -/
  rank_ge : 2 ≤ base.rank

namespace TransferOp

/-- The index that an element of the vector has in dimension `k` of the memref. -/
def index (op : TransferOp) (cell : Nat × Nat) (k : Nat) : Int :=
  op.indices.getD k 0 + (if op.permutationMap[0]? = some (.dim k) then cell.1 else 0 : Nat)
    + (if op.permutationMap[1]? = some (.dim k) then cell.2 else 0 : Nat)

/-- The place of an element of the vector. -/
def place (op : TransferOp) (cell : Nat × Nat) : Int := op.base.place (op.index cell)

/-- An element is in bounds along dimension `t` of the vector: by the attribute, or at run time. -/
def isInBounds (op : TransferOp) (cell : Nat × Nat) (t : Nat) : Bool :=
  op.inBounds.getD t false ||
    match op.permutationMap[t]? with
    | some (.dim k) => 0 ≤ op.index cell k && op.index cell k < op.base.shape.getD k 0
    | _ => true

/-- The mask lets the element through. -/
def isUnmasked (op : TransferOp) (cell : Nat × Nat) : Bool :=
  match op.mask with
  | some mask => mask cell
  | none => true

/-- The transfer accesses the element. -/
def isActive (op : TransferOp) (cell : Nat × Nat) : Bool :=
  op.isUnmasked cell && op.isInBounds cell 0 && op.isInBounds cell 1

/-- `vector.transfer_read`: an element that is not accessed is padding. -/
def read (op : TransferOp) (m : Int → BitVec 32) (cell : Nat × Nat) : BitVec 32 :=
  if op.isActive cell then m (op.place cell) else op.padding

/-- `vector.transfer_write`: which element of the vector goes where. -/
def stores (op : TransferOp) : List ((Nat × Nat) × Int) :=
  ((cells 4 4).filter op.isActive).map fun cell => (cell, op.place cell)

end TransferOp

/-! ### Tile accesses -/

/-- `memref.subview`. -/
structure SubView where
  source : Memref
  offsets : List Int
  sizes : List Int
  strides : List Int

/-- `computeRankReductionMask`: the dimensions from `k` on that are kept, when sizes are matched
    with a shape in order. -/
def keptDims : Nat → List Int → List Int → List Nat
  | _, [], _ => []
  | _, _, [] => []
  | k, size :: sizes, extent :: shape =>
    if size = extent then k :: keptDims (k + 1) sizes shape
    else keptDims (k + 1) sizes (extent :: shape)

/-- The place of element `(row, column)` of the subview, reduced to a shape of rank 2. -/
def SubView.place (view : SubView) (resultShape : List Int) (cell : Nat × Nat) : Int :=
  let kept := keptDims 0 view.sizes resultShape
  view.source.place fun k =>
    view.offsets.getD k 0 + (if kept[0]? = some k then cell.1 else 0 : Nat) * view.strides.getD k 0
      + (if kept[1]? = some k then cell.2 else 0 : Nat) * view.strides.getD k 0

/-- The subview of the pass: at the indices of the transfer, with unit sizes before the last two
    dimensions. -/
def tileSubView (op : TransferOp) (configM configN : Int) : SubView :=
  let rank := op.base.rank
  { source := op.base
    offsets := op.indices
    sizes := List.replicate (rank - 2) 1 ++ [configM, configN]
    strides := List.replicate rank 1 }

/-- The place of an element of a tile. -/
def tilePlace (op : TransferOp) (cell : Nat × Nat) : Int := (tileSubView op 4 4).place [4, 4] cell

/-- The load of a tile, at indices 0 and 0 of the subview. -/
def tileLoad (op : TransferOp) (m : Int → BitVec 32) (cell : Nat × Nat) : BitVec 32 :=
  m (tilePlace op cell)

/-- The writeback of a tile: which element of the tile goes where. -/
def tileStores (op : TransferOp) : List ((Nat × Nat) × Int) :=
  (cells 4 4).map fun cell => (cell, tilePlace op cell)

/-- **The accesses are kept**, in a function `ops` in which the value `r` is read by `read` and the
    load of the tile follows: whatever the operations write that may run in between. -/
structure KeepsAccesses (sets : WriteSets) (ops : List Op) (r : ValueId) (tile : Nat)
    (read write : TransferOp) : Prop where
  load : ∀ run, runsBetween r (isTileLoad tile) ops = some run →
    ∀ m m' : Int → BitVec 32, MayRun (run.map sets.writes) m m' →
      ∀ cell ∈ cells 4 4, tileLoad read m' cell = read.read m cell
  writeback : tileStores write = write.stores

/-! ### Places -/

namespace TransferOp

variable {op : TransferOp}

/-- How far the place moves from one element to the next along dimension `t` of the vector. -/
def strideOf (op : TransferOp) (t : Nat) : Int :=
  match op.permutationMap[t]? with
  | some (.dim k) => op.base.strides.getD k 0
  | _ => 0

/-- How far it moves along dimension `k` of the memref. -/
def dimStride (op : TransferOp) (k : Nat) : Int := op.base.strides.getD k 0

/-- The place of the first element. -/
def origin (op : TransferOp) : Int := op.base.place fun k => op.indices.getD k 0

/-- One coordinate along dimension `j`, in a sum over the dimensions. -/
theorem sum_single_dim (base : Memref) (n j : Nat) {p : Nat → Prop} [DecidablePred p]
    (hp : ∀ k, p k ↔ j = k) :
    ∑ k ∈ Finset.range base.rank, ((if p k then n else 0 : Nat) : Int) * base.strides.getD k 0
      = n * base.strides.getD j 0 := by
  rw [Finset.sum_eq_single j]
  · rw [if_pos ((hp j).mpr rfl)]
  · intro k _ hne
    rw [if_neg fun h => hne ((hp k).mp h).symm]
    simp
  · -- past the rank there is no stride
    intro hj
    have hlen : base.strides.length ≤ j := by
      rw [base.length_eq]
      exact not_lt.mp fun hlt => hj (Finset.mem_range.mpr hlt)
    rw [List.getD_eq_default _ _ hlen, mul_zero]

theorem sum_dim (op : TransferOp) (t n : Nat) :
    ∑ k ∈ Finset.range op.base.rank,
        ((if op.permutationMap[t]? = some (.dim k) then n else 0 : Nat) : Int)
          * op.base.strides.getD k 0
      = n * op.strideOf t := by
  unfold strideOf
  cases hexpr : op.permutationMap[t]? with
  | none => simp
  | some expr =>
    cases expr with
    | dim j =>
      refine sum_single_dim op.base n j fun k => ?_
      simp
    | _ => simp

theorem place_eq (op : TransferOp) (cell : Nat × Nat) :
    op.place cell = op.origin + cell.1 * op.strideOf 0 + cell.2 * op.strideOf 1 := by
  unfold place Memref.place index
  simp only [add_mul, Finset.sum_add_distrib, sum_dim]
  unfold origin strideOf Memref.place
  ring

end TransferOp

theorem keptDims_replicate (n k : Nat) :
    keptDims k (List.replicate n 1 ++ [4, 4]) [4, 4] = [k + n, k + n + 1] := by
  induction n generalizing k with
  | zero => simp [keptDims]
  | succ n ih =>
    rw [List.replicate_succ, List.cons_append, keptDims, if_neg (by decide), ih]
    congr 1
    · omega
    · congr 1
      omega

/-- The tile lies along the last two dimensions. -/
theorem tilePlace_eq (op : TransferOp) (cell : Nat × Nat) :
    tilePlace op cell = op.origin + cell.1 * op.dimStride (op.base.rank - 2)
      + cell.2 * op.dimStride (op.base.rank - 1) := by
  have hrank := op.rank_ge
  have hkept : keptDims 0 (tileSubView op 4 4).sizes [4, 4]
      = [op.base.rank - 2, op.base.rank - 1] := by
    show keptDims 0 (List.replicate (op.base.rank - 2) 1 ++ [4, 4]) [4, 4] = _
    rw [keptDims_replicate]
    congr 1
    · omega
    · congr 1
      omega
  have hunit : ∀ k ∈ Finset.range op.base.rank, (tileSubView op 4 4).strides.getD k 0 = 1 := by
    intro k hk
    show (List.replicate op.base.rank (1 : Int)).getD k 0 = 1
    rw [List.getD_eq_getElem _ _ (by simpa using Finset.mem_range.mp hk), List.getElem_replicate]
  have hplace : tilePlace op cell = op.base.place fun k => op.indices.getD k 0
      + (if op.base.rank - 2 = k then cell.1 else 0 : Nat)
      + (if op.base.rank - 1 = k then cell.2 else 0 : Nat) := by
    unfold tilePlace SubView.place
    rw [hkept]
    show op.base.place _ = op.base.place _
    unfold Memref.place
    refine congrArg (op.base.offset + ·) (Finset.sum_congr rfl fun k hk => ?_)
    simp only [hunit k hk, mul_one, List.getElem?_cons_zero, List.getElem?_cons_succ,
      Option.some.injEq]
    rfl
  rw [hplace]
  unfold Memref.place
  simp only [add_mul, Finset.sum_add_distrib,
    TransferOp.sum_single_dim op.base _ _ fun k => Iff.rfl]
  unfold TransferOp.origin TransferOp.dimStride Memref.place
  ring

/-! ### The condition -/

/-- The transfer accesses the whole of a tile, in the two trailing dimensions: every element is
    active, and the two dimensions of the permutation map have the strides of the last two. -/
structure TransferOp.IsTrailing (op : TransferOp) : Prop where
  active : ∀ cell ∈ cells 4 4, op.isActive cell = true
  row : op.strideOf 0 = op.dimStride (op.base.rank - 2)
  column : op.strideOf 1 = op.dimStride (op.base.rank - 1)

/-- The places are those of the tile exactly when the strides are. -/
theorem places_eq_iff (op : TransferOp) :
    (∀ cell ∈ cells 4 4, tilePlace op cell = op.place cell) ↔
      op.strideOf 0 = op.dimStride (op.base.rank - 2) ∧
        op.strideOf 1 = op.dimStride (op.base.rank - 1) := by
  simp only [tilePlace_eq, TransferOp.place_eq]
  constructor
  · intro h
    have hrow := h (1, 0) (by decide)
    have hcolumn := h (0, 1) (by decide)
    push_cast at hrow hcolumn
    exact ⟨by linarith, by linarith⟩
  · rintro ⟨hrow, hcolumn⟩ cell _
    rw [hrow, hcolumn]

/-- A minor identity that is in bounds and not masked accesses the whole of a tile. -/
theorem isTrailing_of_minorIdentity {op : TransferOp}
    (hmap : op.permutationMap = .ofDims [op.base.rank - 2, op.base.rank - 1])
    (hbounds : op.inBounds = [true, true]) (hmask : op.mask = none) : op.IsTrailing where
  active := by
    intro cell _
    simp [TransferOp.isActive, TransferOp.isUnmasked, TransferOp.isInBounds, hbounds, hmask]
  row := by
    simp [TransferOp.strideOf, TransferOp.dimStride, hmap, AffineMap.ofDims]
  column := by
    simp [TransferOp.strideOf, TransferOp.dimStride, hmap, AffineMap.ofDims]

/-- Nothing in between writes an element of the tile. -/
def Untouched (read : TransferOp) (between : List (List Int)) : Prop :=
  ∀ cell ∈ cells 4 4, ∀ writes ∈ between, tilePlace read cell ∉ writes

instance nontrivial_word : Nontrivial (BitVec 32) := ⟨0, 1, by decide⟩

/-- **The tile load** reads what the transfer read, whatever the operations in between write. -/
theorem load_kept_iff (read : TransferOp) (between : List (List Int)) :
    (∀ m m' : Int → BitVec 32, MayRun between m m' →
        ∀ cell ∈ cells 4 4, tileLoad read m' cell = read.read m cell) ↔
      read.IsTrailing ∧ Untouched read between := by
  -- an element that is not active is read as padding
  have helement : ∀ cell, (∀ m m' : Int → BitVec 32, MayRun between m m' →
        tileLoad read m' cell = read.read m cell) ↔
      read.isActive cell = true ∧ tilePlace read cell = read.place cell
        ∧ ∀ writes ∈ between, tilePlace read cell ∉ writes := by
    intro cell
    by_cases hactive : read.isActive cell = true
    · rw [and_iff_right hactive]
      simp only [tileLoad, TransferOp.read, hactive, if_true]
      exact read_moved_iff
    · refine iff_of_false (fun h => ?_) fun h => hactive h.1
      refine not_read_constant (tilePlace read cell) read.padding fun m => ?_
      have hread := h m m (mayRun_refl between m)
      rwa [TransferOp.read, if_neg hactive] at hread
  constructor
  · intro h
    have hcell := fun cell hcell => (helement cell).mp fun m m' hrun => h m m' hrun cell hcell
    obtain ⟨hrow, hcolumn⟩ := (places_eq_iff read).mp fun cell hc => (hcell cell hc).2.1
    exact ⟨⟨fun cell hc => (hcell cell hc).1, hrow, hcolumn⟩, fun cell hc => (hcell cell hc).2.2⟩
  · rintro ⟨htrailing, huntouched⟩ m m' hrun cell hc
    have hplace := (places_eq_iff read).mpr ⟨htrailing.row, htrailing.column⟩ cell hc
    exact (helement cell).mpr ⟨htrailing.active cell hc, hplace, huntouched cell hc⟩ m m' hrun

/-- **The writeback** stores to the elements that the transfer wrote. -/
theorem stores_kept_iff (write : TransferOp) :
    tileStores write = write.stores ↔ write.IsTrailing := by
  unfold tileStores TransferOp.stores
  constructor
  · intro h
    -- as many elements are active as there are
    have hlength := congrArg List.length h
    simp only [List.length_map] at hlength
    have hfilter := List.filter_sublist.eq_of_length hlength.symm
    have hactive := List.filter_eq_self.mp hfilter
    rw [hfilter, List.map_inj_left] at h
    obtain ⟨hrow, hcolumn⟩ := (places_eq_iff write).mp fun cell hc => (Prod.mk.inj (h cell hc)).2
    exact ⟨hactive, hrow, hcolumn⟩
  · intro h
    rw [List.filter_eq_self.mpr h.active, List.map_inj_left]
    intro cell hc
    rw [(places_eq_iff write).mpr ⟨h.row, h.column⟩ cell hc]

/-- The elements of the tile are written by neither of two lists of operations, or by both. -/
theorem SameWrites.untouched_iff {sets : WriteSets} {run run' : List Leaf}
    (h : SameWrites sets run run') (read : TransferOp) :
    Untouched read (run'.map sets.writes) ↔ Untouched read (run.map sets.writes) := by
  have hplace : ∀ {run : List Leaf} {a : Int},
      (∀ writes ∈ run.map sets.writes, a ∉ writes) ↔ ¬ ∃ l ∈ run, a ∈ sets.writes l := by
    simp
  unfold Untouched
  simp only [hplace, h _]

/-- **The accesses are kept exactly when** both transfers access the whole of a tile in the last
    two dimensions, and nothing that may run between the read and the loop or first update writes an
    element read. -/
theorem keepsAccesses_iff {f : Function} {ops ops' : List Op} {chain : AccumulatorChain}
    {ctx : TileContext} {vector : ValueId} {access : Access} {run : List Leaf}
    (hrewrite : rewriteUpdates f ops chain ctx vector = .ok ops')
    (hread : readOp (findDef f.body chain.initVal) = some access) (hfresh : ¬ HasTile ops ctx.tile)
    (hrun : runsBetween chain.initVal (isReplaced ops chain vector) ops = some run)
    (sets : WriteSets) (read write : TransferOp) :
    KeepsAccesses sets ops' chain.initVal ctx.tile read write ↔
      (read.IsTrailing ∧ Untouched read (run.map sets.writes)) ∧ write.IsTrailing := by
  obtain ⟨run', hrun', hsame⟩ := runsBetween_rewriteUpdates sets hrewrite hread hfresh hrun
  rw [← hsame.untouched_iff, ← load_kept_iff, ← stores_kept_iff]
  refine ⟨fun h => ⟨h.load run' hrun', h.writeback⟩, fun h => ⟨fun run₁ hrun₁ => ?_, h.2⟩⟩
  obtain rfl := Option.some.inj (hrun'.symm.trans hrun₁)
  exact h.1

/-! ### A store in between -/

/-- A transfer of a whole 4x4 memref. -/
def wholeTransfer : TransferOp where
  base := { offset := 0, shape := [4, 4], strides := [4, 1], length_eq := rfl }
  indices := [0, 0]
  permutationMap := .ofDims [0, 1]
  inBounds := [true, true]
  mask := none
  padding := 0
  rank_ge := by decide

/-- An accumulator is read, the element `element` is stored to, and the contraction follows. -/
def storeBetween (element : Nat) : Function where
  isFuncOp := true
  cpuFeatures := some "+zvtbase".toList
  types v :=
    .vector ⟨if v = 1 then [4, 1] else if v = 2 then [1, 4] else [4, 4], .f32⟩
  body := [
    .leaf (.transferRead 0 .minorIdentity ⟨10, [11, 11]⟩ ⟨[4, 4], .f32⟩),
    .leaf (.other 0 [1, 2] []),
    .leaf (.other element [] []),
    .leaf (.contract 3 (outerContraction .f32 .f32) 1 2 0),
    .leaf (.transferWrite 0 .minorIdentity ⟨10, [11, 11]⟩ 3)]

/-- Its chain. -/
def storeChain : AccumulatorChain :=
  { initVal := 0, updates := [3], writeback := 0, inputElTy := .f32 }

/-- Its stores: an operation without results writes the element that it is named after. -/
def storeSets : WriteSets where
  writes
    | .other id [] _ => [id]
    | .transferWrite _ _ _ _ | .writeback _ _ _ _ => (List.range 16).map Int.ofNat
    | _ => []
  silent l hl := by cases l <;> first | rfl | cases hl
  clone off ρ l := by
    cases l with
    | other id results operands => cases results <;> rfl
    | _ => rfl

/-- The tile of the chain. -/
def storeContext : TileContext := { tile := 0, rows := 4, columns := 4, intrinsic := .vtfmm }

/-- Its function, with the updates rewritten. -/
def rewrittenBetween (element : Nat) : Except Failure (List Op) :=
  rewriteUpdates (storeBetween element) (storeBetween element).body storeChain storeContext 3

/-- A store behind the accumulator. -/
theorem keepsAccesses_iff_storeBehind :
    ∃ ops', rewrittenBetween 16 = .ok ops' ∧
      KeepsAccesses storeSets ops' 0 0 wholeTransfer wholeTransfer := by
  have htrailing : wholeTransfer.IsTrailing := isTrailing_of_minorIdentity rfl rfl rfl
  have hok : (rewrittenBetween 16).isOk = true := by decide +kernel
  have hfresh : ∀ l ∈ leavesOps (storeBetween 16).body, l.tile? ≠ some 0 := by decide +kernel
  have hrun : runsBetween 0 (isReplaced (storeBetween 16).body storeChain 3) (storeBetween 16).body
      = some [.other 0 [1, 2] [], .other 16 [] []] := by decide +kernel
  cases hrewrite : rewrittenBetween 16 with
  | error failure =>
    rw [hrewrite] at hok
    cases hok
  | ok ops' =>
    refine ⟨ops', rfl, (keepsAccesses_iff hrewrite rfl (fun ⟨l, hl, h⟩ => hfresh l hl h) hrun storeSets
      wholeTransfer wholeTransfer).mpr ⟨⟨htrailing, ?_⟩, htrailing⟩⟩
    unfold Untouched
    decide +kernel

/-- A store to the first element of the accumulator: the tile load reads the stored value. -/
theorem storeBetween_not_kept :
    collectChains (storeBetween 0) = .ok [storeChain] ∧
    ∃ ops' run, rewrittenBetween 0 = .ok ops' ∧ runsBetween 0 (isTileLoad 0) ops' = some run ∧
      (∃ m m' : Int → BitVec 32, MayRun (run.map storeSets.writes) m m' ∧
        tileLoad wholeTransfer m' (0, 0) = 1 ∧ wholeTransfer.read m (0, 0) = 0) ∧
      ¬ KeepsAccesses storeSets ops' 0 0 wholeTransfer wholeTransfer := by
  have hchain : collectChains (storeBetween 0) = .ok [storeChain] :=
    eq_ok_of_toOption (by decide +kernel)
  have hruns : (rewrittenBetween 0).toOption.bind (runsBetween 0 (isTileLoad 0))
      = some [.other 0 [1, 2] [], .other 0 [] []] := by decide +kernel
  have hstore : MayRun [[], [(0 : Int)]] (fun _ => (0 : BitVec 32)) (Function.update (fun _ => 0) 0 1) :=
    mayRun_update (List.mem_cons_of_mem _ (List.mem_singleton_self _)) (List.mem_singleton_self _) _ 1
  have hload : tileLoad wholeTransfer (Function.update (fun _ => 0) 0 1) (0, 0) = 1 := by
    decide +kernel
  have hread : wholeTransfer.read (fun _ => 0) (0, 0) = 0 := by decide +kernel
  cases hrewrite : rewrittenBetween 0 with
  | error failure =>
    rw [hrewrite] at hruns
    cases hruns
  | ok ops' =>
    rw [hrewrite] at hruns
    refine ⟨hchain, ops', _, rfl, hruns, ⟨_, _, hstore, hload, hread⟩, fun h => ?_⟩
    have hkept := h.load _ hruns _ _ hstore (0, 0) (by decide)
    rw [hload, hread] at hkept
    exact absurd hkept (by decide)

end CoralNPU.Matrix
