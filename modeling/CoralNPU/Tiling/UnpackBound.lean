import CoralNPU.Lib.Scatter
import CoralNPU.Tiling.PackBound

namespace CoralNPU.Tiling

open Lib

/-!
# Tiling — the footprint estimate of an unpack

A tile of the destination reads whole inner tiles of the source: all those that one of its elements
lies in.  Along one dimension, `touched` counts them.  The estimate looks up the extent and the
inner tile of destination dimension `d` at `permutedDim d`, and counts the inner tiles of a tile
that starts at the beginning of one.

* `touched` — the inner tiles along one dimension, with its bounds: `touched_le_extent` and
  `touched_le_ceil` for the sizes that every inner tile is cut into evenly;
  `two_le_touched` for the others.
* `unpackReads`, `unpackWrites` — the elements that a tile of the destination reads and writes.
* `UnpackBounded`, `UnpackSafe` — the estimates cover every tile of every size; the condition.
* `estimateSource_of_fits`, `estimateDest_of_fits` — the `int64_t` arithmetic of the estimates is
  exact where the bytes of the source and the sizes rounded up fit.
* `unpackBounded_iff` — the two are equivalent.
-/

/-! ### Inner tiles along one dimension -/

/-- The positions of the inner tiles that the iterations of a tile lie in. -/
def touchedTiles (extent tile size : Int) (k : Nat) : Finset Int :=
  (tileIndices extent size k).image (· / tile)

/-- Their number. -/
def touched (extent tile size : Int) (k : Nat) : Int := (touchedTiles extent tile size k).card

section Touched

variable {extent tile size : Int} {k : Nat}

/-- An untiled dimension touches all its inner tiles. -/
theorem touched_untiled (htile : 1 ≤ tile) (hextent : 0 ≤ extent) :
    touched extent tile 0 k = ceilDiv extent tile := by
  have himage : touchedTiles extent tile 0 k = indexRange 0 (ceilDiv extent tile) := by
    ext q
    rw [touchedTiles, tileIndices_zero, Finset.mem_image, mem_indexRange, lt_ceilDiv_iff htile]
    constructor
    · rintro ⟨x, hx, rfl⟩
      obtain ⟨hlo, hhi⟩ := mem_indexRange.mp hx
      exact ⟨Int.ediv_nonneg hlo (by omega),
        lt_of_le_of_lt (Int.ediv_mul_le x (by omega)) hhi⟩
    · rintro ⟨hlo, hhi⟩
      refine ⟨q * tile, mem_indexRange.mpr ⟨mul_nonneg hlo (by omega), hhi⟩, ?_⟩
      exact Int.mul_ediv_cancel q (by omega)
  have hnonneg : 0 ≤ ceilDiv extent tile := Int.ediv_nonneg (by omega) (by omega)
  rw [touched, himage, card_indexRange]
  omega

/-- No tile touches more inner tiles than there are. -/
theorem touched_le_extent (htile : 1 ≤ tile) (hextent : 0 ≤ extent) (hsize : 0 ≤ size) :
    touched extent tile size k ≤ ceilDiv extent tile := by
  rw [← touched_untiled (k := 0) htile hextent]
  unfold touched touchedTiles
  refine Int.ofNat_le.mpr (Finset.card_le_card (Finset.image_subset_image fun x hx => ?_))
  rw [tileIndices_zero, mem_indexRange]
  exact mem_tileIndices hsize hx

/-- All positions lie between that of the first iteration and that of the last. -/
theorem touched_le_span {lo hi : Int} (hlohi : lo ≤ hi)
    (h : ∀ x ∈ tileIndices extent size k, lo ≤ x / tile ∧ x / tile ≤ hi) :
    touched extent tile size k ≤ hi - lo + 1 := by
  have hsubset : touchedTiles extent tile size k ⊆ Finset.Icc lo hi := by
    intro q hq
    obtain ⟨x, hx, rfl⟩ := Finset.mem_image.mp hq
    exact Finset.mem_Icc.mpr (h x hx)
  have hcard := Finset.card_le_card hsubset
  rw [Int.card_Icc] at hcard
  unfold touched
  omega

/-- A tile with iterations on both sides of a border touches two inner tiles. -/
theorem two_le_touched {x y : Int} (hx : x ∈ tileIndices extent size k)
    (hy : y ∈ tileIndices extent size k) (hne : x / tile ≠ y / tile) :
    2 ≤ touched extent tile size k := by
  have hcard : 1 < (touchedTiles extent tile size k).card :=
    Finset.one_lt_card.mpr ⟨x / tile, Finset.mem_image_of_mem _ hx, y / tile,
      Finset.mem_image_of_mem _ hy, hne⟩
  unfold touched
  omega

/-- The positions of a tile of `size` iterations, `k * size` the first. -/
theorem touched_le_of_size (htile : 1 ≤ tile) (hsize : 1 ≤ size) :
    touched extent tile size k ≤ (k * size + size - 1) / tile - k * size / tile + 1 := by
  refine touched_le_span (Int.ediv_le_ediv (by omega) (by omega)) fun x hx => ?_
  rw [tileIndices, if_neg (by omega), mem_indexRange, lt_min_iff] at hx
  exact ⟨Int.ediv_le_ediv (by omega) hx.1, Int.ediv_le_ediv (by omega) (by omega)⟩

/-- Sizes that divide the inner tile touch one. -/
theorem touched_le_one_of_dvd (htile : 1 ≤ tile) (hsize : 1 ≤ size) (hdvd : size ∣ tile) :
    touched extent tile size k ≤ 1 := by
  obtain ⟨m, rfl⟩ := hdvd
  have hm : 0 < m := by
    by_contra hm
    have := mul_nonpos_of_nonneg_of_nonpos (show 0 ≤ size by omega) (show m ≤ 0 by omega)
    omega
  refine le_trans (touched_le_span (le_refl (k / m)) fun x hx => ?_) (by omega)
  rw [tileIndices, if_neg (by omega), mem_indexRange, lt_min_iff] at hx
  have hquot : x / size = k := (Int.ediv_eq_iff_of_pos (by omega)).mpr ⟨hx.1, hx.2.1⟩
  rw [← Int.ediv_ediv_of_nonneg (by omega), hquot]
  exact ⟨le_refl _, le_refl _⟩

/-- The border between inner tiles is never inside of a tile of up to `other` iterations. -/
def CutsEvenly (extent tile other : Int) : Prop :=
  extent ≤ tile ∨ ∀ size, 2 ≤ size → size ≤ other → size ∣ tile

variable {other : Int}

/-- Where all sizes up to `other` divide the inner tile, `other` is at most the inner tile, and
    either at most half of it, or at most 2. -/
theorem CutsEvenly.other_le (htile : 1 ≤ tile)
    (h : ∀ size, 2 ≤ size → size ≤ other → size ∣ tile) (hother : 1 ≤ other) :
    other ≤ tile ∧ (2 * other ≤ tile ∨ (other = tile ∧ tile ≤ 2)) := by
  have hle : other ≤ tile := by
    by_contra hlt
    have := Int.le_of_dvd (by omega) (h (tile + 1) (by omega) (by omega))
    omega
  refine ⟨hle, ?_⟩
  rcases eq_or_lt_of_le hle with heq | hlt
  · -- a tile of 3 or more is not a multiple of its predecessor
    refine or_iff_not_imp_left.mpr fun _ => ⟨heq, ?_⟩
    by_contra hbig
    have hone : tile - 1 ∣ 1 := by
      have := dvd_sub (h (tile - 1) (by omega) (by omega)) (dvd_refl (tile - 1))
      rwa [sub_sub_cancel] at this
    have := Int.le_of_dvd (by decide) hone
    omega
  · left
    rcases eq_or_lt_of_le hother with hone | htwo
    · omega
    · obtain ⟨m, hm⟩ := h other (by omega) (le_refl _)
      have : 2 ≤ m := by
        by_contra hm'
        have := mul_le_mul_of_nonneg_left (show m ≤ 1 by omega) (show 0 ≤ other by omega)
        omega
      nlinarith

/-- **Enough.** Where the borders are never inside, a tile touches no more inner tiles than its size
    divided by `other`. -/
theorem touched_le_ceil (htile : 1 ≤ tile) (hother : 1 ≤ other) (hsize : 1 ≤ size)
    (h : CutsEvenly extent tile other) : touched extent tile size k ≤ ceilDiv size other := by
  have hone := one_le_ceilDiv hsize hother
  rcases h with hshort | hcut
  · -- one inner tile holds the whole dimension
    refine le_trans (touched_le_span (le_refl 0) fun x hx => ?_) (by omega)
    obtain ⟨hlo, hhi⟩ := mem_tileIndices (by omega) hx
    rw [Int.ediv_eq_zero_of_lt hlo (by omega)]
    exact ⟨le_refl 0, le_refl 0⟩
  · obtain ⟨hle, hcase⟩ := CutsEvenly.other_le htile hcut hother
    by_cases hsmall : size ≤ other
    · -- the size divides the inner tile
      have hdvd : size ∣ tile := by
        rcases eq_or_lt_of_le hsize with hone' | htwo
        · exact hone' ▸ one_dvd tile
        · exact hcut size (by omega) hsmall
      exact le_trans (touched_le_one_of_dvd htile hsize hdvd) hone
    · refine le_trans (touched_le_of_size htile hsize) ?_
      rcases hcase with hhalf | ⟨heq, htwo⟩
      · -- two quotients of `other` fit into an inner tile
        have hq : size ≤ ceilDiv size other * other := (ceilDiv_le_iff hother).mp (le_refl _)
        have hq2 : 2 ≤ ceilDiv size other := by
          have : 1 < ceilDiv size other := (lt_ceilDiv_iff hother).mpr (by omega)
          omega
        generalize ceilDiv size other = q at *
        generalize (k : Int) * size = a
        have hspan : size ≤ (q - 1) * tile := by nlinarith
        have hlast : (a + size - 1) / tile < a / tile + q := by
          rw [Int.ediv_lt_iff_lt_mul (by omega)]
          have hrest := Int.emod_lt_of_pos a (show 0 < tile by omega)
          have hdiv := Int.ediv_mul_add_emod a tile
          nlinarith
        omega
      · -- inner tiles of one or two elements
        have hparity : size % 2 = 0 → ((k : Int) * size) % 2 = 0 := by
          intro heven
          rw [Int.mul_emod, heven, mul_zero]
          rfl
        rw [heq]
        unfold ceilDiv
        generalize (k : Int) * size = a at *
        have htile' : tile = 1 ∨ tile = 2 := by omega
        rcases htile' with rfl | rfl
        · omega
        · omega

/-- **Necessary.** Else some tile of at most `other` iterations touches two inner tiles. -/
theorem exists_two_le_touched (htile : 1 ≤ tile) (h : ¬ CutsEvenly extent tile other) :
    ∃ size, ∃ k : Nat, 1 ≤ size ∧ size ≤ extent ∧ size ≤ other ∧
      2 ≤ touched extent tile size k := by
  obtain ⟨hlong, hcut⟩ := not_or.mp h
  rw [not_le] at hlong
  simp only [not_forall] at hcut
  obtain ⟨size, htwo, hle, hndvd⟩ := hcut
  have hborder : (tile - 1) / tile ≠ tile / tile := by
    rw [Int.ediv_eq_zero_of_lt (by omega) (by omega), Int.ediv_self (by omega)]
    decide
  by_cases hbig : tile < size
  · -- the first tile of `tile + 1` iterations
    refine ⟨tile + 1, 0, by omega, by omega, by omega, ?_⟩
    refine two_le_touched (x := tile - 1) (y := tile) ?_ ?_ hborder
    · rw [tileIndices, if_neg (by omega), mem_indexRange, lt_min_iff]
      omega
    · rw [tileIndices, if_neg (by omega), mem_indexRange, lt_min_iff]
      omega
  · -- the tile over the first border
    have hrest : 1 ≤ tile % size := by
      have hne : tile % size ≠ 0 := fun hzero => hndvd (Int.dvd_of_emod_eq_zero hzero)
      have := Int.emod_nonneg tile (show size ≠ 0 by omega)
      omega
    have hlt := Int.emod_lt_of_pos tile (show 0 < size by omega)
    have hdiv := Int.ediv_mul_add_emod tile size
    have hk : ((tile / size).toNat : Int) = tile / size :=
      Int.toNat_of_nonneg (Int.ediv_nonneg (by omega) (by omega))
    have hne : size ≠ tile := fun heq => hndvd (heq ▸ dvd_refl size)
    refine ⟨size, (tile / size).toNat, by omega, by omega, hle, ?_⟩
    refine two_le_touched (x := tile - 1) (y := tile) ?_ ?_ hborder
    · rw [tileIndices, if_neg (by omega), mem_indexRange, lt_min_iff, hk]
      omega
    · rw [tileIndices, if_neg (by omega), mem_indexRange, lt_min_iff, hk]
      omega

end Touched

/-! ### The operation -/

/-- A static unpack, with the types of its source and its destination. -/
structure UnPackOp.Verified (op : UnPackOp) (source dest : TensorType) : Prop where
  source_eq : op.source = .tensor source
  dest_eq : op.dest = .tensor dest
  elementType_eq : source.elementType = dest.elementType
  packing : IsPacking dest.shape source.shape op.outerDimsPerm op.innerDimsPos op.mixedTiles

section Tile

variable (op : UnPackOp) (source dest : TensorType) (sizes : List Int) (k : Nat → Nat)

/-- The inner tile of destination dimension `d`. -/
def UnPackOp.tile (d : Nat) : Int := innerTileSize op.innerDimsPos op.mixedTiles d

/-- The source elements that the tile with numbers `k` reads: whole inner tiles, at every outer
    position of an element of the tile. -/
def unpackReads : Finset (Fin source.shape.length → Int) :=
  packedPoints source.shape dest.shape.length fun l =>
    let d := permutedDim op.outerDimsPerm l
    touchedTiles (dest.shape.getD d 0) (op.tile d) (sizes.getD d 0) (k d)

/-- The destination elements of the tile. -/
def unpackWrites : Finset (Fin dest.shape.length → Int) :=
  points dest.shape.length fun d => tileIndices (dest.shape.getD d 0) (sizes.getD d 0) (k d)

end Tile

/-- **The estimates are upper bounds**, for every vector of tile sizes and every tile with
    elements. -/
structure UnpackBounded (op : UnPackOp) (source dest : TensorType) (bits : Int) : Prop where
  covers_reads : ∀ sizes, TileSizes dest.shape sizes → ∃ bytes,
    estimateUnpackSourceFootprint toInt64 op sizes = .ok bytes ∧
    ∀ k, (unpackWrites dest sizes k).Nonempty →
      storageBytes bits (unpackReads op source dest sizes k).card ≤ bytes
  covers_writes : ∀ sizes, TileSizes dest.shape sizes → ∃ bytes,
    estimateUnpackDestFootprint toInt64 op sizes = .ok bytes ∧
    ∀ k, (unpackWrites dest sizes k).Nonempty →
      storageBytes bits (unpackWrites dest sizes k).card ≤ bytes

/-- The estimate looks up, at the position `permutedDim d`, the number of inner tiles of dimension
    `d`, and a size such that no tile of up to that size has a border of inner tiles of `d`
    inside.  Rounding up to that size does not wrap around. -/
def UnpackSafe (op : UnPackOp) (source dest : TensorType) : Prop :=
  ∀ d, d < dest.shape.length →
    source.shape.getD (permutedDim op.outerDimsPerm d) 0
      = source.shape.getD (outerDimOf op.outerDimsPerm d) 0 ∧
    CutsEvenly (dest.shape.getD d 0) (op.tile d) (op.tile (permutedDim op.outerDimsPerm d)) ∧
    FitsInt64 (dest.shape.getD d 0 + op.tile (permutedDim op.outerDimsPerm d) - 1)

section Bound

variable {op : UnPackOp} {source dest : TensorType} {bits : Int}

namespace UnPackOp.Verified

/-- The outer extent of a dimension counts its inner tiles. -/
theorem own_extent (h : op.Verified source dest) {d : Nat} (hd : d < dest.shape.length) :
    source.shape.getD (outerDimOf op.outerDimsPerm d) 0
      = ceilDiv (dest.shape.getD d 0) (op.tile d) := by
  obtain ⟨hlt, hback⟩ := outerDimOf_lt h.packing.perm hd
  rw [h.packing.outerExtent hlt, hback]
  rfl

/-- The extents that the estimate looks up are those of all dimensions. -/
theorem prod_lookedUp (h : op.Verified source dest) :
    ∏ d ∈ Finset.range dest.shape.length, source.shape.getD (permutedDim op.outerDimsPerm d) 0
      = ∏ d ∈ Finset.range dest.shape.length, ceilDiv (dest.shape.getD d 0) (op.tile d) := by
  rw [prod_permutedDim h.packing.perm (fun l => source.shape.getD l 0),
    ← prod_permutedDim h.packing.perm fun d => ceilDiv (dest.shape.getD d 0) (op.tile d)]
  exact Finset.prod_congr rfl fun l hl => h.packing.outerExtent (Finset.mem_range.mp hl)

/-- The elements that a tile reads. -/
theorem card_reads (h : op.Verified source dest) (sizes : List Int) (k : Nat → Nat) :
    ((unpackReads op source dest sizes k).card : Int)
      = (∏ d ∈ Finset.range dest.shape.length,
          touched (dest.shape.getD d 0) (op.tile d) (sizes.getD d 0) (k d))
        * (source.shape.drop dest.shape.length).prod := by
  rw [unpackReads, card_packedPoints h.packing.rank_le h.packing.inner_nonneg]
  congr 1
  exact prod_permutedDim h.packing.perm fun d =>
    touched (dest.shape.getD d 0) (op.tile d) (sizes.getD d 0) (k d)

/-- The factor of dimension `d`, without machine arithmetic. -/
theorem factor_eq (h : op.Verified source dest) {sizes : List Int}
    (hsizes : TileSizes dest.shape sizes) (d : Nat) :
    unpackSourceFactor id op source.shape sizes d =
      if sizes.getD d 0 = 0 then source.shape.getD (permutedDim op.outerDimsPerm d) 0
      else min (source.shape.getD (permutedDim op.outerDimsPerm d) 0)
        (ceilDiv (sizes.getD d 0) (op.tile (permutedDim op.outerDimsPerm d))) := by
  have htile := h.packing.one_le_tile (permutedDim op.outerDimsPerm d)
  have hsize := hsizes.nonneg d
  simp only [unpackSourceFactor, id, UnPackOp.tile, ceilDiv]
  rw [Int.tdiv_eq_ediv_of_nonneg (by omega)]

theorem estimateSource_eq (h : op.Verified source dest)
    (hbits : source.elementType.getIntOrFloatBitWidth = .ok bits) {sizes : List Int}
    (hsizes : TileSizes dest.shape sizes) :
    estimateUnpackSourceFootprint toInt64 op sizes = .ok (toInt64
      ((∏ d ∈ Finset.range dest.shape.length, unpackSourceFactor toInt64 op source.shape sizes d)
        * (source.shape.drop dest.shape.length).prod * (bits / 8))) := by
  rw [estimateUnpackSourceFootprint, h.source_eq, operandBytes_eq hbits, List.prod_append,
    hsizes.length_eq, prod_map_range]

theorem estimateDest_eq (h : op.Verified source dest)
    (hbits : dest.elementType.getIntOrFloatBitWidth = .ok bits) (sizes : List Int) :
    estimateUnpackDestFootprint toInt64 op sizes = .ok (toInt64
      ((∏ d ∈ Finset.range dest.shape.length,
        tiledExtent (dest.shape.getD d 0) (sizes.getD d 0)) * (bits / 8))) := by
  rw [estimateUnpackDestFootprint, h.dest_eq, operandBytes_eq hbits, prod_map_range]

/-- The source: the extents that the estimate looks up, and the inner tiles. -/
theorem prod_source (h : op.Verified source dest) :
    source.shape.prod = (∏ d ∈ Finset.range dest.shape.length,
        source.shape.getD (permutedDim op.outerDimsPerm d) 0)
      * (source.shape.drop dest.shape.length).prod := by
  rw [h.packing.prod_packed, Finset.prod_mul_distrib, h.packing.prod_innerTileSize, h.prod_lookedUp]
  congr 1
  exact Finset.prod_congr rfl fun d hd => h.own_extent (Finset.mem_range.mp hd)

/-- Rounding up to an inner tile, where this does not wrap around. -/
theorem factor_toInt64 (h : op.Verified source dest) {sizes : List Int}
    (hsizes : TileSizes dest.shape sizes) {d : Nat}
    (hfits : FitsInt64 (sizes.getD d 0 + op.tile (permutedDim op.outerDimsPerm d) - 1)) :
    unpackSourceFactor toInt64 op source.shape sizes d
      = unpackSourceFactor id op source.shape sizes d := by
  have htile : 1 ≤ op.tile (permutedDim op.outerDimsPerm d) := h.packing.one_le_tile _
  have hsize := hsizes.nonneg d
  simp only [unpackSourceFactor, toInt64_sub, id]
  rw [toInt64_of_fits (show 0 ≤ sizes.getD d 0
    + innerTileSize op.innerDimsPos op.mixedTiles (permutedDim op.outerDimsPerm d) - 1 from
      show 0 ≤ sizes.getD d 0 + op.tile (permutedDim op.outerDimsPerm d) - 1 by omega) hfits]

end UnPackOp.Verified

/-! ### Enough -/

/-- The tile writes no more elements than the estimate counts. -/
theorem card_unpackWrites_le (h : op.Verified source dest) {sizes : List Int}
    (hsizes : TileSizes dest.shape sizes) (k : Nat → Nat) :
    ((unpackWrites dest sizes k).card : Int)
      ≤ ∏ d ∈ Finset.range dest.shape.length,
          tiledExtent (dest.shape.getD d 0) (sizes.getD d 0) := by
  rw [unpackWrites, card_points]
  exact Finset.prod_le_prod (fun d _ => Int.natCast_nonneg _) fun d _ =>
    card_tileIndices_le (k d) (h.packing.getD_unpacked_nonneg d)
      (hsizes.nonneg d)

/-- In the dimensions of a safe unpack the factor covers the inner tiles. -/
theorem touched_le_factor (h : op.Verified source dest) (hsafe : UnpackSafe op source dest)
    {sizes : List Int} (hsizes : TileSizes dest.shape sizes) {d : Nat}
    (hd : d < dest.shape.length) (k : Nat) :
    touched (dest.shape.getD d 0) (op.tile d) (sizes.getD d 0) k
      ≤ unpackSourceFactor id op source.shape sizes d := by
  have htile : 1 ≤ op.tile d := h.packing.one_le_tile d
  have hextent := h.packing.getD_unpacked_nonneg d
  obtain ⟨hlookup, hcut, -⟩ := hsafe d hd
  rw [h.factor_eq hsizes, hlookup, h.own_extent hd]
  split
  next hzero => exact le_of_eq (by rw [hzero, touched_untiled htile hextent])
  next hne =>
    have hsize : 1 ≤ sizes.getD d 0 := (hsizes.size d hd).resolve_left hne |>.1
    exact le_min (touched_le_extent htile hextent (by omega))
      (touched_le_ceil htile (h.packing.one_le_tile _) hsize hcut)

theorem card_unpackReads_le (h : op.Verified source dest) (hsafe : UnpackSafe op source dest)
    {sizes : List Int} (hsizes : TileSizes dest.shape sizes) (k : Nat → Nat) :
    ((unpackReads op source dest sizes k).card : Int)
      ≤ (∏ d ∈ Finset.range dest.shape.length, unpackSourceFactor id op source.shape sizes d)
        * (source.shape.drop dest.shape.length).prod := by
  rw [h.card_reads]
  refine mul_le_mul_of_nonneg_right ?_ (List.prod_nonneg h.packing.inner_nonneg)
  exact Finset.prod_le_prod (fun d _ => Int.natCast_nonneg _) fun d hd =>
    touched_le_factor h hsafe hsizes (Finset.mem_range.mp hd) (k d)

/-- A tile of a destination without elements has none. -/
theorem unpackWrites_of_empty (hempty : 0 ∈ dest.shape) {sizes : List Int}
    (hsizes : TileSizes dest.shape sizes) (k : Nat → Nat) :
    ¬ (unpackWrites dest sizes k).Nonempty := by
  obtain ⟨d, hd, hget⟩ := List.getElem_of_mem hempty
  rintro ⟨p, hp⟩
  have hmem : p ⟨d, hd⟩ ∈ tileIndices (dest.shape.getD d 0) (sizes.getD d 0) (k d) :=
    Fintype.mem_piFinset.mp hp ⟨d, hd⟩
  rw [List.getD_eq_getElem _ _ hd, hget, tileIndices_of_empty (hsizes.nonneg d)] at hmem
  exact absurd hmem (Finset.notMem_empty _)

/-- No factor is negative, or larger than the extent that the estimate looks up. -/
theorem factor_bounds (h : op.Verified source dest) {sizes : List Int}
    (hsizes : TileSizes dest.shape sizes) {d : Nat} (hd : d < dest.shape.length) :
    0 ≤ unpackSourceFactor id op source.shape sizes d ∧
      unpackSourceFactor id op source.shape sizes d
        ≤ source.shape.getD (permutedDim op.outerDimsPerm d) 0 := by
  have hextent := h.packing.outerExtent_nonneg (permutedDim_lt h.packing.perm hd)
  rw [h.factor_eq hsizes]
  split
  next => exact ⟨hextent, le_refl _⟩
  next hne =>
    have hsize : 1 ≤ sizes.getD d 0 := (hsizes.size d hd).resolve_left hne |>.1
    exact ⟨le_min hextent (le_trans (by decide) (one_le_ceilDiv hsize (h.packing.one_le_tile _))),
      min_le_left _ _⟩

/-- **The source estimate** of a safe unpack is exact where the bytes of the source fit. -/
theorem estimateSource_of_fits (h : op.Verified source dest) (hsafe : UnpackSafe op source dest)
    (hbits : source.elementType.getIntOrFloatBitWidth = .ok bits)
    (hfits : FitsInt64 (source.shape.prod * (bits / 8))) {sizes : List Int}
    (hsizes : TileSizes dest.shape sizes) :
    estimateUnpackSourceFootprint toInt64 op sizes = .ok
      ((∏ d ∈ Finset.range dest.shape.length, unpackSourceFactor id op source.shape sizes d)
        * (source.shape.drop dest.shape.length).prod * (bits / 8)) := by
  have hbytes : 0 ≤ bits / 8 := Int.ediv_nonneg (getIntOrFloatBitWidth_nonneg hbits) (by decide)
  have hinner := List.prod_nonneg h.packing.inner_nonneg
  have hfactors : ∏ d ∈ Finset.range dest.shape.length, unpackSourceFactor toInt64 op source.shape sizes d
      = ∏ d ∈ Finset.range dest.shape.length, unpackSourceFactor id op source.shape sizes d := by
    refine Finset.prod_congr rfl fun d hd => h.factor_toInt64 hsizes ?_
    have hd := Finset.mem_range.mp hd
    have hextent := h.packing.getD_unpacked_nonneg d
    have hsize : sizes.getD d 0 ≤ dest.shape.getD d 0 := by
      rcases hsizes.size d hd with hzero | hle <;> omega
    exact (hsafe d hd).2.2.of_le (by omega)
  have hproduct : ∏ d ∈ Finset.range dest.shape.length, unpackSourceFactor id op source.shape sizes d
      ≤ ∏ d ∈ Finset.range dest.shape.length, source.shape.getD (permutedDim op.outerDimsPerm d) 0 :=
    Finset.prod_le_prod (fun d hd => (factor_bounds h hsizes (Finset.mem_range.mp hd)).1)
      fun d hd => (factor_bounds h hsizes (Finset.mem_range.mp hd)).2
  have hnonneg := Finset.prod_nonneg fun d hd => (factor_bounds h hsizes (Finset.mem_range.mp hd)).1
  rw [h.estimateSource_eq hbits hsizes, hfactors, toInt64_of_fits
    (mul_nonneg (mul_nonneg hnonneg hinner) hbytes) (hfits.of_le ?_)]
  rw [h.prod_source]
  exact mul_le_mul_of_nonneg_right (mul_le_mul_of_nonneg_right hproduct hinner) hbytes

/-- **The destination estimate** is exact where the bytes of the source fit. -/
theorem estimateDest_of_fits (h : op.Verified source dest)
    (hbits : dest.elementType.getIntOrFloatBitWidth = .ok bits)
    (hfits : FitsInt64 (source.shape.prod * (bits / 8))) {sizes : List Int}
    (hsizes : TileSizes dest.shape sizes) :
    estimateUnpackDestFootprint toInt64 op sizes = .ok
      ((∏ d ∈ Finset.range dest.shape.length,
        tiledExtent (dest.shape.getD d 0) (sizes.getD d 0)) * (bits / 8)) := by
  have hbytes : 0 ≤ bits / 8 := Int.ediv_nonneg (getIntOrFloatBitWidth_nonneg hbits) (by decide)
  have hextent : ∀ d ∈ Finset.range dest.shape.length,
      0 ≤ tiledExtent (dest.shape.getD d 0) (sizes.getD d 0) ∧
        tiledExtent (dest.shape.getD d 0) (sizes.getD d 0) ≤ dest.shape.getD d 0 := by
    intro d _
    have hextent := h.packing.getD_unpacked_nonneg d
    have hsize := hsizes.nonneg d
    unfold tiledExtent
    split <;> omega
  have hproduct : ∏ d ∈ Finset.range dest.shape.length,
      tiledExtent (dest.shape.getD d 0) (sizes.getD d 0) ≤ source.shape.prod := by
    refine le_trans ?_ h.packing.prod_unpacked_le
    rw [prod_eq_prod_range dest.shape]
    exact Finset.prod_le_prod (fun d hd => (hextent d hd).1) fun d hd => (hextent d hd).2
  rw [h.estimateDest_eq hbits, toInt64_of_fits
    (mul_nonneg (Finset.prod_nonneg fun d hd => (hextent d hd).1) hbytes)
    (hfits.of_le (mul_le_mul_of_nonneg_right hproduct hbytes))]

/-! ### Necessary -/

/-- The vector that tiles dimension `d` only. -/
def tileOnly (n d : Nat) (size : Int) : List Int := (List.replicate n 0).set d size

theorem getD_tileOnly {n d : Nat} (hd : d < n) (size : Int) (j : Nat) :
    (tileOnly n d size).getD j 0 = if j = d then size else 0 := by
  unfold tileOnly
  rw [getD_set, List.length_replicate]
  by_cases hj : j = d
  · rw [if_pos ⟨hj.symm, hj ▸ hd⟩, if_pos hj]
  · rw [if_neg fun hand => hj hand.1.symm, if_neg hj, getD_replicate_self]

theorem tileSizes_tileOnly {extents : List Int} {d : Nat} (hd : d < extents.length) {size : Int}
    (hsize : size = 0 ∨ (1 ≤ size ∧ size ≤ extents.getD d 0)) :
    TileSizes extents (tileOnly extents.length d size) := by
  refine ⟨by rw [tileOnly, List.length_set, List.length_replicate], fun j hj => ?_⟩
  rw [getD_tileOnly hd]
  by_cases hjd : j = d
  · subst hjd
    rw [if_pos rfl]
    exact hsize
  · rw [if_neg hjd]
    exact Or.inl rfl

/-- Two products that differ in one factor. -/
theorem prod_mul_eq_of_eq_off {n d : Nat} (hd : d < n) {f g : Nat → Int}
    (h : ∀ j, j < n → j ≠ d → f j = g j) :
    (∏ j ∈ Finset.range n, f j) * g d = (∏ j ∈ Finset.range n, g j) * f d := by
  have hmem := Finset.mem_range.mpr hd
  rw [← Finset.mul_prod_erase _ f hmem, ← Finset.mul_prod_erase _ g hmem]
  have hrest : ∏ j ∈ (Finset.range n).erase d, f j = ∏ j ∈ (Finset.range n).erase d, g j := by
    refine Finset.prod_congr rfl fun j hj => ?_
    obtain ⟨hne, hlt⟩ := Finset.mem_erase.mp hj
    exact h j (Finset.mem_range.mp hlt) hne
  rw [hrest]
  ring

/-- Products that differ in one factor compare as these factors do, relative to the ones that they
    stand for. -/
theorem factor_le_of_prod_le {all reads factors own lookup f g : Int} (hall : 0 < all)
    (hown : 0 ≤ own) (hlookup : 0 ≤ lookup) (hreads : reads * own = all * f)
    (hfactors : factors * lookup = all * g) (hle : reads ≤ factors) : f * lookup ≤ g * own := by
  refine le_of_mul_le_mul_left ?_ hall
  calc all * (f * lookup) = reads * own * lookup := by rw [hreads, mul_assoc]
    _ ≤ factors * own * lookup :=
        mul_le_mul_of_nonneg_right (mul_le_mul_of_nonneg_right hle hown) hlookup
    _ = all * (g * own) := by rw [mul_right_comm, hfactors, mul_assoc]

/-- The extents of a destination with elements. -/
theorem one_le_extent (h : op.Verified source dest) (hfull : 0 ∉ dest.shape) {d : Nat}
    (hd : d < dest.shape.length) : 1 ≤ dest.shape.getD d 0 := by
  have hnonneg := h.packing.getD_unpacked_nonneg d
  have hne : dest.shape.getD d 0 ≠ 0 := by
    rw [List.getD_eq_getElem _ _ hd]
    exact fun hzero => hfull (hzero ▸ List.getElem_mem hd)
  omega

/-- The tile has elements if it has iterations of every loop. -/
theorem unpackWrites_nonempty {sizes : List Int} {k : Nat → Nat}
    (h : ∀ d, d < dest.shape.length →
      (tileIndices (dest.shape.getD d 0) (sizes.getD d 0) (k d)).Nonempty) :
    (unpackWrites dest sizes k).Nonempty :=
  Fintype.piFinset_nonempty.mpr fun d => h d d.isLt

/-- A tile with elements reads some. -/
theorem card_unpackReads_pos (h : op.Verified source dest) {sizes : List Int} {k : Nat → Nat}
    (hsome : (unpackWrites dest sizes k).Nonempty) :
    0 < ((unpackReads op source dest sizes k).card : Int) := by
  rw [h.card_reads]
  refine mul_pos (Finset.prod_pos fun d hd => ?_) (List.prod_pos fun extent hextent =>
    h.packing.one_le_inner extent hextent)
  have hindices : (tileIndices (dest.shape.getD d 0) (sizes.getD d 0) (k d)).Nonempty :=
    Fintype.piFinset_nonempty.mp hsome ⟨d, Finset.mem_range.mp hd⟩
  exact Int.natCast_pos.mpr (Finset.card_pos.mpr (hindices.image _))

/-- An untiled loop over a dimension with elements has iterations. -/
theorem tileIndices_untiled_nonempty {extent : Int} (hextent : 1 ≤ extent) (k : Nat) :
    (tileIndices extent 0 k).Nonempty := by
  refine ⟨0, ?_⟩
  rw [tileIndices_zero, mem_indexRange]
  omega

/-- The extents that the estimate looks up, in a source of a destination with elements. -/
theorem one_le_lookup (h : op.Verified source dest) (hfull : 0 ∉ dest.shape) {d : Nat}
    (hd : d < dest.shape.length) :
    1 ≤ source.shape.getD (permutedDim op.outerDimsPerm d) 0 := by
  have hlt := permutedDim_lt h.packing.perm hd
  rw [h.packing.outerExtent hlt]
  exact one_le_ceilDiv (one_le_extent h hfull (permutedDim_lt h.packing.perm hlt))
    (h.packing.one_le_tile _)

theorem source_full (h : op.Verified source dest) (hfull : 0 ∉ dest.shape) : 0 ∉ source.shape := by
  intro hempty
  obtain ⟨l, hl, hzero⟩ := h.packing.exists_outer_eq_zero hempty
  have hnone := h.packing.unpacked_eq_zero hl hzero
  have hone := one_le_extent h hfull (permutedDim_lt h.packing.perm hl)
  omega

/-- **An untiled unpack** reads the whole source, so its bytes are whole, and fit. -/
theorem UnpackBounded.fits (hbounded : UnpackBounded op source dest bits)
    (h : op.Verified source dest) (hbits : source.elementType.getIntOrFloatBitWidth = .ok bits)
    (hwide : 8 ≤ bits) (hfull : 0 ∉ dest.shape) :
    bits % 8 = 0 ∧ FitsInt64 (source.shape.prod * (bits / 8)) := by
  have hsizes := tileSizes_untiled dest.shape
  obtain ⟨bytes, hbytes, hcovers⟩ := hbounded.covers_reads _ hsizes
  have hwhole : ∀ d, unpackSourceFactor toInt64 op source.shape (List.replicate dest.shape.length 0) d
      = source.shape.getD (permutedDim op.outerDimsPerm d) 0 := fun d =>
    if_pos (getD_replicate_self _ d 0)
  rw [h.estimateSource_eq hbits hsizes] at hbytes
  simp only [hwhole] at hbytes
  rw [← h.prod_source] at hbytes
  have hle := hcovers (fun _ => 0) (unpackWrites_nonempty fun d hd => by
    rw [getD_replicate_self]
    exact tileIndices_untiled_nonempty (one_le_extent h hfull hd) 0)
  -- every inner tile is read
  have hreads : ((unpackReads op source dest (List.replicate dest.shape.length 0) fun _ => 0).card : Int)
      = source.shape.prod := by
    rw [h.card_reads, h.prod_source, h.prod_lookedUp]
    congr 1
    refine Finset.prod_congr rfl fun d _ => ?_
    rw [getD_replicate_self]
    exact touched_untiled (h.packing.one_le_tile d) (h.packing.getD_unpacked_nonneg d)
  rw [← Except.ok.inj hbytes, hreads] at hle
  have hpos : 0 < source.shape.prod := List.prod_pos fun extent hextent =>
    lt_of_le_of_ne (h.packing.packed_nonneg extent hextent) fun hzero =>
      source_full h hfull (hzero ▸ hextent)
  exact whole_and_fits (by omega) hpos hle

/-- If the estimates are bounds, then the factors cover the inner tiles that a tile with elements
    touches, where no rounding up wraps around. -/
theorem UnpackBounded.touched_le (hbounded : UnpackBounded op source dest bits)
    (h : op.Verified source dest) (hbits : source.elementType.getIntOrFloatBitWidth = .ok bits)
    (hwide : 8 ≤ bits) (hwhole : bits % 8 = 0) {sizes : List Int}
    (hsizes : TileSizes dest.shape sizes)
    (hfactor : ∀ j ∈ Finset.range dest.shape.length,
      unpackSourceFactor toInt64 op source.shape sizes j
        = unpackSourceFactor id op source.shape sizes j) {k : Nat → Nat}
    (hsome : (unpackWrites dest sizes k).Nonempty) :
    ∏ j ∈ Finset.range dest.shape.length,
        touched (dest.shape.getD j 0) (op.tile j) (sizes.getD j 0) (k j)
      ≤ ∏ j ∈ Finset.range dest.shape.length, unpackSourceFactor id op source.shape sizes j := by
  obtain ⟨bytes, hbytes, hcovers⟩ := hbounded.covers_reads _ hsizes
  have hcovers := hcovers k hsome
  rw [h.estimateSource_eq hbits hsizes, Finset.prod_congr rfl hfactor] at hbytes
  have hinner : 0 < (source.shape.drop dest.shape.length).prod :=
    List.prod_pos fun extent hextent => h.packing.one_le_inner extent hextent
  have hnonneg := Finset.prod_nonneg fun j hj =>
    (factor_bounds h hsizes (Finset.mem_range.mp hj)).1
  rw [← Except.ok.inj hbytes, storageBytes_of_whole hwhole, h.card_reads] at hcovers
  have hcovers := hcovers.trans (toInt64_le (mul_nonneg (mul_nonneg hnonneg hinner.le)
    (show 0 ≤ bits / 8 by omega)))
  -- the number of elements is covered, not only that of bytes
  have helements := le_of_mul_le_mul_right hcovers (show 0 < bits / 8 by omega)
  exact le_of_mul_le_mul_right helements hinner

/-- A tile along one dimension has elements if it has iterations of that loop. -/
theorem unpackWrites_tileOnly_nonempty (h : op.Verified source dest) (hfull : 0 ∉ dest.shape)
    {d : Nat} (hd : d < dest.shape.length) {size : Int} {k : Nat}
    (hsome : (tileIndices (dest.shape.getD d 0) size k).Nonempty) :
    (unpackWrites dest (tileOnly dest.shape.length d size) fun _ => k).Nonempty := by
  refine unpackWrites_nonempty fun j hj => ?_
  rw [getD_tileOnly hd]
  split
  next heq => exact heq ▸ hsome
  next => exact tileIndices_untiled_nonempty (one_le_extent h hfull hj) k

/-- **One dimension.** If the estimates are bounds, then the inner tiles that a tile along one
    dimension touches are covered, relative to those that there are. -/
theorem UnpackBounded.dimension (hbounded : UnpackBounded op source dest bits)
    (h : op.Verified source dest) (hbits : source.elementType.getIntOrFloatBitWidth = .ok bits)
    (hwide : 8 ≤ bits) (hwhole : bits % 8 = 0) (hfull : 0 ∉ dest.shape) {d : Nat}
    (hd : d < dest.shape.length) {size : Int} (hsize : 1 ≤ size)
    (hle : size ≤ dest.shape.getD d 0)
    (hround : FitsInt64 (size + op.tile (permutedDim op.outerDimsPerm d) - 1)) (k : Nat) :
    touched (dest.shape.getD d 0) (op.tile d) size k
        * source.shape.getD (permutedDim op.outerDimsPerm d) 0
      ≤ min (source.shape.getD (permutedDim op.outerDimsPerm d) 0)
          (ceilDiv size (op.tile (permutedDim op.outerDimsPerm d)))
        * ceilDiv (dest.shape.getD d 0) (op.tile d) := by
  have hextents : ∀ j, j < dest.shape.length →
      0 < ceilDiv (dest.shape.getD j 0) (op.tile j) := fun j hj =>
    one_le_ceilDiv (one_le_extent h hfull hj) (h.packing.one_le_tile j)
  have hlookup := one_le_lookup h hfull hd
  by_cases hsome : (tileIndices (dest.shape.getD d 0) size k).Nonempty
  swap
  · -- a tile without elements touches nothing
    rw [touched, touchedTiles, Finset.not_nonempty_iff_eq_empty.mp hsome, Finset.image_empty,
      Finset.card_empty, Nat.cast_zero, zero_mul]
    refine mul_nonneg (le_min (by omega) ?_) (le_of_lt (hextents d hd))
    exact le_trans (by decide) (one_le_ceilDiv hsize (h.packing.one_le_tile _))
  have hsizes := tileSizes_tileOnly hd (Or.inr ⟨hsize, hle⟩)
  have hself : (tileOnly dest.shape.length d size).getD d 0 = size := by
    rw [getD_tileOnly hd, if_pos rfl]
  have hother : ∀ j, j ≠ d → (tileOnly dest.shape.length d size).getD j 0 = 0 := fun j hne => by
    rw [getD_tileOnly hd, if_neg hne]
  have hproducts := hbounded.touched_le h hbits hwide hwhole hsizes (fun j _ => by
    by_cases hj : j = d
    · subst hj
      exact h.factor_toInt64 hsizes (hself.symm ▸ hround)
    · rw [unpackSourceFactor, unpackSourceFactor, if_pos (hother j hj), if_pos (hother j hj)])
    (unpackWrites_tileOnly_nonempty h hfull hd hsome)
  -- all other dimensions are whole on both sides
  have hreads := prod_mul_eq_of_eq_off hd
    (f := fun j => touched (dest.shape.getD j 0) (op.tile j)
      ((tileOnly dest.shape.length d size).getD j 0) k)
    (g := fun j => ceilDiv (dest.shape.getD j 0) (op.tile j)) fun j hj hne => by
      simp only [hother j hne]
      exact touched_untiled (h.packing.one_le_tile j) (h.packing.getD_unpacked_nonneg j)
  have hfactors := prod_mul_eq_of_eq_off hd
    (f := unpackSourceFactor id op source.shape (tileOnly dest.shape.length d size))
    (g := fun j => source.shape.getD (permutedDim op.outerDimsPerm j) 0) fun j hj hne => by
      rw [h.factor_eq hsizes, hother j hne, if_pos rfl]
  rw [h.factor_eq hsizes, hself, if_neg (by omega : size ≠ 0), h.prod_lookedUp] at hfactors
  beta_reduce at hreads
  rw [hself] at hreads
  have hall : 0 < ∏ j ∈ Finset.range dest.shape.length,
      ceilDiv (dest.shape.getD j 0) (op.tile j) :=
    Finset.prod_pos fun j hj => hextents j (Finset.mem_range.mp hj)
  exact factor_le_of_prod_le hall (le_of_lt (hextents d hd)) (by omega) hreads hfactors hproducts

/-- Inner tiles and extents fit if the source does. -/
theorem dimension_fits (h : op.Verified source dest) (hfull : 0 ∉ dest.shape)
    (hfits : FitsInt64 source.shape.prod) {d : Nat} (hd : d < dest.shape.length) :
    FitsInt64 (op.tile d) ∧ FitsInt64 (dest.shape.getD d 0) := by
  have hpart := h.packing.prod_subset_le (source_full h hfull) {d} fun j hj =>
    Finset.mem_singleton.mp hj ▸ hd
  rw [Finset.prod_singleton] at hpart
  have htile : 1 ≤ op.tile d := h.packing.one_le_tile d
  have houter : 1 ≤ source.shape.getD (outerDimOf op.outerDimsPerm d) 0 := by
    rw [h.own_extent hd]
    exact one_le_ceilDiv (one_le_extent h hfull hd) htile
  exact ⟨hfits.of_le (le_trans (le_mul_of_one_le_left (by omega) houter) hpart),
    hfits.of_le ((h.packing.extent_le hd).trans hpart)⟩

/-- The first tile of one iteration touches an inner tile. -/
theorem one_le_touched (h : op.Verified source dest) (hfull : 0 ∉ dest.shape) {d : Nat}
    (hd : d < dest.shape.length) : 1 ≤ touched (dest.shape.getD d 0) (op.tile d) 1 0 := by
  have hcard : 0 < (touchedTiles (dest.shape.getD d 0) (op.tile d) 1 0).card :=
    Finset.card_pos.mpr ⟨0 / op.tile d, Finset.mem_image_of_mem _
      (zero_mem_tileIndices (one_le_extent h hfull hd) (by decide))⟩
  unfold touched
  omega

/-- The estimate looks up no more inner tiles than there are, from a tile of one iteration. -/
theorem UnpackBounded.lookup_le (hbounded : UnpackBounded op source dest bits)
    (h : op.Verified source dest) (hbits : source.elementType.getIntOrFloatBitWidth = .ok bits)
    (hwide : 8 ≤ bits) (hfull : 0 ∉ dest.shape) {d : Nat} (hd : d < dest.shape.length) :
    source.shape.getD (permutedDim op.outerDimsPerm d) 0
      ≤ ceilDiv (dest.shape.getD d 0) (op.tile d) := by
  obtain ⟨hwhole, hfits⟩ := hbounded.fits h hbits hwide hfull
  have helements := fits_elements hwide (List.prod_nonneg h.packing.packed_nonneg) hfits
  have htile : 1 ≤ op.tile (permutedDim op.outerDimsPerm d) := h.packing.one_le_tile _
  have hround : FitsInt64 (1 + op.tile (permutedDim op.outerDimsPerm d) - 1) :=
    (dimension_fits h hfull helements (permutedDim_lt h.packing.perm hd)).1.of_le (by omega)
  have hone := hbounded.dimension h hbits hwide hwhole hfull hd (le_refl 1)
    (one_le_extent h hfull hd) hround 0
  have hceil : ceilDiv 1 (op.tile (permutedDim op.outerDimsPerm d)) ≤ 1 := by
    rw [ceilDiv_le_iff htile]
    omega
  have hlookup := one_le_lookup h hfull hd
  have hextent : 0 < ceilDiv (dest.shape.getD d 0) (op.tile d) :=
    one_le_ceilDiv (one_le_extent h hfull hd) (h.packing.one_le_tile d)
  calc source.shape.getD (permutedDim op.outerDimsPerm d) 0
      = 1 * source.shape.getD (permutedDim op.outerDimsPerm d) 0 := (one_mul _).symm
    _ ≤ touched (dest.shape.getD d 0) (op.tile d) 1 0
          * source.shape.getD (permutedDim op.outerDimsPerm d) 0 :=
        mul_le_mul_of_nonneg_right (one_le_touched h hfull hd) (by omega)
    _ ≤ _ := hone
    _ ≤ 1 * ceilDiv (dest.shape.getD d 0) (op.tile d) :=
        mul_le_mul_of_nonneg_right (le_trans (min_le_right _ _) hceil) (le_of_lt hextent)
    _ = _ := one_mul _

/-- **The number of inner tiles that the estimate looks up is that of the dimension**: none is
    larger, and their products are equal. -/
theorem UnpackBounded.lookup_eq (hbounded : UnpackBounded op source dest bits)
    (h : op.Verified source dest) (hbits : source.elementType.getIntOrFloatBitWidth = .ok bits)
    (hwide : 8 ≤ bits) (hfull : 0 ∉ dest.shape) {d : Nat} (hd : d < dest.shape.length) :
    source.shape.getD (permutedDim op.outerDimsPerm d) 0
      = source.shape.getD (outerDimOf op.outerDimsPerm d) 0 := by
  rw [h.own_extent hd]
  by_contra hne
  have hlt := Finset.prod_lt_prod
    (fun j hj => one_le_lookup h hfull (Finset.mem_range.mp hj))
    (fun j hj => hbounded.lookup_le h hbits hwide hfull (Finset.mem_range.mp hj))
    ⟨d, Finset.mem_range.mpr hd,
      lt_of_le_of_ne (hbounded.lookup_le h hbits hwide hfull hd) hne⟩
  exact absurd h.prod_lookedUp (ne_of_lt hlt)

/-- A size that wraps around when it is rounded up gives a factor that is not positive, and not
    further below 0 than the dimension is long. -/
theorem wrapped_factor {extent tile : Int} (htile : 1 ≤ tile) (hextent : 1 ≤ extent)
    (hfits : FitsInt64 extent) (hfits' : FitsInt64 tile)
    (hwraps : ¬ FitsInt64 (extent + tile - 1)) :
    -ceilDiv extent tile ≤ (toInt64 (extent + tile - 1)).tdiv tile ∧
      (toInt64 (extent + tile - 1)).tdiv tile ≤ 0 := by
  unfold FitsInt64 at hfits hfits' hwraps
  have hwrapped : toInt64 (extent + tile - 1) = extent + tile - 1 - 18446744073709551616 := by
    unfold toInt64
    rw [← Int.sub_bmod_right, Int.bmod_eq_of_le]
    · rfl
    · omega
    · omega
  obtain ⟨x, hx⟩ : ∃ x, x = -toInt64 (extent + tile - 1) := ⟨_, rfl⟩
  have hxpos : 0 ≤ x := by omega
  have hle : x / tile ≤ ceilDiv extent tile := Int.ediv_le_ediv (by omega) (by omega)
  have hnonneg : 0 ≤ x / tile := Int.ediv_nonneg hxpos (by omega)
  rw [show toInt64 (extent + tile - 1) = -x by omega, Int.neg_tdiv,
    Int.tdiv_eq_ediv_of_nonneg hxpos]
  omega

/-- A product in which one factor `f` is not positive, instead of `own`. -/
theorem prod_wrapped {all factors own f : Int} (hown : 1 ≤ own) (hall : 0 ≤ all)
    (hfactors : factors * own = all * f) (hlow : -own ≤ f) (hhigh : f ≤ 0) :
    factors ≤ 0 ∧ -all ≤ factors := by
  constructor
  · refine le_of_mul_le_mul_right ?_ (show 0 < own by omega)
    rw [hfactors, zero_mul]
    exact mul_nonpos_of_nonneg_of_nonpos hall hhigh
  · refine le_of_mul_le_mul_right ?_ (show 0 < own by omega)
    rw [hfactors, neg_mul, ← mul_neg]
    exact mul_le_mul_of_nonneg_left hlow hall

/-- The extent and the inner tile of another dimension are part of the source, so together they
    fit. -/
theorem round_fits_of_ne (h : op.Verified source dest) (hfull : 0 ∉ dest.shape)
    (hfits : FitsInt64 source.shape.prod) {d : Nat} (hd : d < dest.shape.length)
    (hne : permutedDim op.outerDimsPerm d ≠ d) :
    FitsInt64 (dest.shape.getD d 0 + op.tile (permutedDim op.outerDimsPerm d) - 1) := by
  have hextent := one_le_extent h hfull hd
  have hlt := permutedDim_lt h.packing.perm hd
  have htile : 1 ≤ op.tile (permutedDim op.outerDimsPerm d) := h.packing.one_le_tile _
  have hpart := h.packing.prod_subset_le (source_full h hfull)
    {d, permutedDim op.outerDimsPerm d} fun j hj => by
      rcases Finset.mem_insert.mp hj with rfl | hj
      · exact hd
      · exact Finset.mem_singleton.mp hj ▸ hlt
  rw [Finset.prod_pair hne.symm] at hpart
  have houter : 1 ≤ source.shape.getD
      (outerDimOf op.outerDimsPerm (permutedDim op.outerDimsPerm d)) 0 := by
    rw [h.own_extent hlt]
    exact one_le_ceilDiv (one_le_extent h hfull hlt) htile
  have hother := le_mul_of_one_le_left (show 0 ≤ op.tile (permutedDim op.outerDimsPerm d) by omega)
    houter
  have hboth := mul_le_mul (h.packing.extent_le hd) hother (by omega)
    (le_trans (by omega) (h.packing.extent_le hd))
  refine hfits.of_le (le_trans ?_ (hboth.trans hpart))
  nlinarith

/-- **One wrapped factor.** In the estimate for the tile over a whole dimension `d`, whose extent
    wraps around when it is rounded up, the product of the factors is not positive, and not further
    below 0 than the extents that the estimate looks up. -/
theorem prod_factors_of_wraps (h : op.Verified source dest) (hfull : 0 ∉ dest.shape)
    (hfits : FitsInt64 source.shape.prod) {d : Nat} (hd : d < dest.shape.length)
    (hself : permutedDim op.outerDimsPerm d = d)
    (hlookup : source.shape.getD (permutedDim op.outerDimsPerm d) 0
      = source.shape.getD (outerDimOf op.outerDimsPerm d) 0)
    (hwraps : ¬ FitsInt64 (dest.shape.getD d 0 + op.tile d - 1)) :
    let factors := ∏ j ∈ Finset.range dest.shape.length, unpackSourceFactor toInt64 op source.shape
      (tileOnly dest.shape.length d (dest.shape.getD d 0)) j
    let all := ∏ j ∈ Finset.range dest.shape.length,
      source.shape.getD (permutedDim op.outerDimsPerm j) 0
    factors ≤ 0 ∧ -all ≤ factors := by
  intro factors all
  have hextent := one_le_extent h hfull hd
  have htile : 1 ≤ op.tile d := h.packing.one_le_tile d
  obtain ⟨htileFits, hextentFits⟩ := dimension_fits h hfull hfits hd
  obtain ⟨hlow, hhigh⟩ := wrapped_factor htile hextent hextentFits htileFits hwraps
  have hfactors := prod_mul_eq_of_eq_off hd
    (f := unpackSourceFactor toInt64 op source.shape
      (tileOnly dest.shape.length d (dest.shape.getD d 0)))
    (g := fun j => source.shape.getD (permutedDim op.outerDimsPerm j) 0) fun j hj hne => by
      rw [unpackSourceFactor, getD_tileOnly hd, if_neg hne, if_pos rfl]
  have hfactor : unpackSourceFactor toInt64 op source.shape
      (tileOnly dest.shape.length d (dest.shape.getD d 0)) d
        = (toInt64 (dest.shape.getD d 0 + op.tile d - 1)).tdiv (op.tile d) := by
    have hone := one_le_lookup h hfull hd
    rw [hself] at hone
    simp only [unpackSourceFactor, getD_tileOnly hd, toInt64_sub, hself, ite_true]
    rw [if_neg (by omega), min_eq_right]
    · rfl
    · exact le_trans hhigh (by omega)
  rw [hself] at hlookup
  rw [hself, hlookup, h.own_extent hd, hfactor] at hfactors
  have hall : 0 ≤ all := Finset.prod_nonneg fun j hj =>
    le_trans (by decide) (one_le_lookup h hfull (Finset.mem_range.mp hj))
  exact prod_wrapped (one_le_ceilDiv hextent htile) hall hfactors hlow hhigh

/-- **No rounding up wraps around**: the estimate for the tile over the whole dimension would not be
    positive. -/
theorem UnpackBounded.rounds (hbounded : UnpackBounded op source dest bits)
    (h : op.Verified source dest) (hbits : source.elementType.getIntOrFloatBitWidth = .ok bits)
    (hwide : 8 ≤ bits) (hfull : 0 ∉ dest.shape) {d : Nat} (hd : d < dest.shape.length) :
    FitsInt64 (dest.shape.getD d 0 + op.tile (permutedDim op.outerDimsPerm d) - 1) := by
  obtain ⟨hwhole, hfits⟩ := hbounded.fits h hbits hwide hfull
  have helements := fits_elements hwide (List.prod_nonneg h.packing.packed_nonneg) hfits
  by_cases hself : permutedDim op.outerDimsPerm d = d
  swap
  · exact round_fits_of_ne h hfull helements hd hself
  by_contra hwraps
  rw [hself] at hwraps
  obtain ⟨hnegative, hsmall⟩ := prod_factors_of_wraps h hfull helements hd hself
    (hbounded.lookup_eq h hbits hwide hfull hd) hwraps
  -- the tile over the whole dimension
  have hextent := one_le_extent h hfull hd
  have hsizes := tileSizes_tileOnly hd (Or.inr ⟨hextent, le_refl _⟩)
  have hsome := unpackWrites_tileOnly_nonempty h hfull hd
    ⟨0, zero_mem_tileIndices hextent (by omega : 0 ≤ dest.shape.getD d 0)⟩
  obtain ⟨bytes, hbytes, hcovers⟩ := hbounded.covers_reads _ hsizes
  have hcovers := hcovers _ hsome
  rw [h.estimateSource_eq hbits hsizes] at hbytes
  rw [← Except.ok.inj hbytes, storageBytes_of_whole hwhole] at hcovers
  have hbyte : 0 < bits / 8 := by omega
  have hinner : 0 ≤ (source.shape.drop dest.shape.length).prod := List.prod_nonneg h.packing.inner_nonneg
  rw [h.prod_source, mul_assoc] at hfits
  have hnonpos := toInt64_nonpos hfits
    (y := (∏ j ∈ Finset.range dest.shape.length, unpackSourceFactor toInt64 op source.shape
      (tileOnly dest.shape.length d (dest.shape.getD d 0)) j)
      * ((source.shape.drop dest.shape.length).prod * (bits / 8)))
    (by rw [← neg_mul]; exact mul_le_mul_of_nonneg_right hsmall (mul_nonneg hinner hbyte.le))
    (mul_nonpos_of_nonpos_of_nonneg hnegative (mul_nonneg hinner hbyte.le))
  rw [← mul_assoc] at hnonpos
  have hpos := mul_pos (card_unpackReads_pos h hsome) hbyte
  omega

/-- **Safe.** -/
theorem UnpackBounded.safe (hbounded : UnpackBounded op source dest bits)
    (h : op.Verified source dest) (hbits : source.elementType.getIntOrFloatBitWidth = .ok bits)
    (hwide : 8 ≤ bits) (hfull : 0 ∉ dest.shape) : UnpackSafe op source dest := by
  intro d hd
  have hlookup := hbounded.lookup_eq h hbits hwide hfull hd
  have hround := hbounded.rounds h hbits hwide hfull hd
  refine ⟨hlookup, ?_, hround⟩
  by_contra hcut
  have htile : 1 ≤ op.tile d := h.packing.one_le_tile d
  have hother : 1 ≤ op.tile (permutedDim op.outerDimsPerm d) := h.packing.one_le_tile _
  obtain ⟨size, k, hsize, hle, hsmall, htwo⟩ := exists_two_le_touched htile hcut
  have hdim := hbounded.dimension h hbits hwide (hbounded.fits h hbits hwide hfull).1 hfull hd hsize
    hle (hround.of_le (by omega)) k
  have hceil : ceilDiv size (op.tile (permutedDim op.outerDimsPerm d)) ≤ 1 := by
    rw [ceilDiv_le_iff hother]
    omega
  have hpos : 0 < ceilDiv (dest.shape.getD d 0) (op.tile d) :=
    one_le_ceilDiv (one_le_extent h hfull hd) htile
  rw [hlookup, h.own_extent hd] at hdim
  -- two inner tiles of the dimension are counted as one
  have hfactors := le_of_mul_le_mul_right hdim hpos
  have := le_trans hfactors (min_le_right _ _)
  omega

/-- **The estimates of an unpack are upper bounds if and only if** the destination has no elements,
    or elements are a whole number of bytes, those of the source fit an `int64_t` and the unpack is
    safe. -/
theorem unpackBounded_iff (h : op.Verified source dest)
    (hbits : source.elementType.getIntOrFloatBitWidth = .ok bits) (hwide : 8 ≤ bits) :
    UnpackBounded op source dest bits ↔
      0 ∈ dest.shape ∨ (bits % 8 = 0 ∧ FitsInt64 (source.shape.prod * (bits / 8)) ∧
        UnpackSafe op source dest) := by
  have hbits' : dest.elementType.getIntOrFloatBitWidth = .ok bits := by
    rw [← h.elementType_eq]
    exact hbits
  have hnonneg : 0 ≤ bits := by omega
  constructor
  · intro hbounded
    refine or_iff_not_imp_left.mpr fun hfull => ?_
    obtain ⟨hwhole, hfits⟩ := hbounded.fits h hbits hwide hfull
    exact ⟨hwhole, hfits, hbounded.safe h hbits hwide hfull⟩
  · rintro (hempty | ⟨hwhole, hfits, hsafe⟩)
    · exact ⟨fun sizes hsizes => ⟨_, h.estimateSource_eq hbits hsizes, fun k hk =>
          absurd hk (unpackWrites_of_empty hempty hsizes k)⟩,
        fun sizes hsizes => ⟨_, h.estimateDest_eq hbits' sizes, fun k hk =>
          absurd hk (unpackWrites_of_empty hempty hsizes k)⟩⟩
    · refine ⟨fun sizes hsizes => ⟨_, estimateSource_of_fits h hsafe hbits hfits hsizes, fun k _ => ?_⟩,
        fun sizes hsizes => ⟨_, estimateDest_of_fits h hbits' hfits hsizes, fun k _ => ?_⟩⟩
      · exact storageBytes_le hnonneg (Or.inl hwhole) (Int.natCast_nonneg _)
          (card_unpackReads_le h hsafe hsizes k)
      · exact storageBytes_le hnonneg (Or.inl hwhole) (Int.natCast_nonneg _)
          (card_unpackWrites_le h hsizes k)

end Bound

/-! ### A row of 16 bytes -/

/-- `linalg.unpack` of `outer` inner tiles into a row of 16 elements. -/
def rowUnpack (outer tile : Int) (htile : 1 ≤ tile) : UnPackOp where
  source := .tensor ⟨[outer, tile], .integer 8⟩
  dest := .tensor ⟨[16], .integer 8⟩
  outerDimsPerm := []
  innerDimsPos := [0]
  mixedTiles := [some tile]
  otherOperands := []
  innerTile_pos := by
    intro tile' htile' size hsize
    obtain rfl := List.mem_singleton.mp htile'
    obtain rfl := Option.mem_some_iff.mp hsize
    exact htile

theorem rowUnpack_verified (outer tile : Int) (htile : 1 ≤ tile)
    (houter : outer = (16 + tile - 1) / tile) :
    (rowUnpack outer tile htile).Verified ⟨[outer, tile], .integer 8⟩ ⟨[16], .integer 8⟩ where
  source_eq := rfl
  dest_eq := rfl
  elementType_eq := rfl
  packing :=
    { static := show ∀ extent ∈ [16], (0 : Int) ≤ extent by decide
      perm := Or.inl rfl
      innerDimsPos_nodup := show [0].Nodup by decide
      innerDimsPos_lt := show ∀ d ∈ [0], d < 1 by decide
      tiles_length := rfl
      tiles_static := by
        intro tile' htile'
        exact ⟨tile, List.mem_singleton.mp htile', htile⟩
      shape := by
        rw [houter]
        rfl }

/-- Inner tiles of two elements: every size is safe. -/
theorem unpackBounded_pairs :
    (rowUnpack 8 2 (by decide)).Verified ⟨[8, 2], .integer 8⟩ ⟨[16], .integer 8⟩ ∧
    UnpackBounded (rowUnpack 8 2 (by decide)) ⟨[8, 2], .integer 8⟩ ⟨[16], .integer 8⟩ 8 := by
  have hverified := rowUnpack_verified 8 2 (by decide) rfl
  refine ⟨hverified, (unpackBounded_iff hverified rfl (by decide)).mpr
    (Or.inr ⟨rfl, by decide, fun d hd => ?_⟩)⟩
  obtain rfl : d = 0 := Nat.lt_one_iff.mp hd
  refine ⟨rfl, Or.inr fun size htwo hle => ?_, by decide⟩
  have hsize : size = 2 := le_antisymm hle htwo
  exact hsize ▸ dvd_refl (2 : Int)

/-- **Inner tiles of eight elements**, in tiles of five: the second tile, from element 5 to 9, lies in
    both inner tiles, and is counted with one. -/
theorem unpack_not_bounded :
    ¬ UnpackBounded (rowUnpack 2 8 (by decide)) ⟨[2, 8], .integer 8⟩ ⟨[16], .integer 8⟩ 8 := by
  intro hbounded
  have hverified := rowUnpack_verified 2 8 (by decide) rfl
  have hsizes : TileSizes [16] [5] := by
    refine ⟨rfl, fun i hi => Or.inr ?_⟩
    obtain rfl : i = 0 := Nat.lt_one_iff.mp hi
    decide
  obtain ⟨bytes, hbytes, hcovers⟩ := hbounded.covers_reads [5] hsizes
  have hle := hcovers (fun _ => 1) (by decide)
  have hestimate : estimateUnpackSourceFootprint toInt64 (rowUnpack 2 8 (by decide)) [5] = .ok 8 := by
    decide
  obtain rfl := Except.ok.inj (hestimate.symm.trans hbytes)
  have htouched : touched 16 8 5 1 = 2 := by decide
  have hreads : ((unpackReads (rowUnpack 2 8 (by decide)) ⟨[2, 8], .integer 8⟩ ⟨[16], .integer 8⟩ [5]
      fun _ => 1).card : Int) = touched 16 8 5 1 * 8 := by
    rw [hverified.card_reads]
    simp only [List.length_singleton, Finset.prod_range_one]
    rfl
  rw [hreads, htouched] at hle
  exact absurd hle (by decide)

end CoralNPU.Tiling
