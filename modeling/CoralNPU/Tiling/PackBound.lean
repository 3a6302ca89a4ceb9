import CoralNPU.Tiling.Packing

namespace CoralNPU.Tiling

open Lib

/-!
# Tiling — the footprint estimate of a pack

* `PackOp.Verified` — what the verifier of `linalg.pack` checks.
* `packReads`, `packWrites` — the elements that a tile of the outer dimensions reads and writes.
* `PackBounded` — both estimates cover every tile of every size, and are monotone in every tile
  size.
* `estimatePackSource_eq`, `estimatePackDest_eq` — the `int64_t` arithmetic of the estimates is exact
  where the bytes of the destination fit.
* `packBounded_iff` — the estimates are bounds where elements are whole bytes and those of the
  destination fit, and else for a destination without elements only.
-/

/-- A static pack, with the types of its source and its destination. -/
structure PackOp.Verified (op : PackOp) (source dest : TensorType) : Prop where
  source_eq : op.source = .tensor source
  dest_eq : op.dest = .tensor dest
  elementType_eq : dest.elementType = source.elementType
  packing : IsPacking source.shape dest.shape op.outerDimsPerm op.innerDimsPos op.mixedTiles

section Tile

variable (op : PackOp) (source dest : TensorType) (sizes : List Int) (k : Nat → Nat)

/-- The coordinates along source dimension `d` that the tile reads: the element with coordinate `x`
    is packed at position `x / tile` of the outer dimension.  Positions past the end of the source
    are padding. -/
def packReadCoords (d : Nat) : Finset Int :=
  (indexRange 0 (source.shape.getD d 0)).filter fun x =>
    x / innerTileSize op.innerDimsPos op.mixedTiles d ∈
      tileIndices (dest.shape.getD (outerDimOf op.outerDimsPerm d) 0)
        (sizes.getD (outerDimOf op.outerDimsPerm d) 0) (k (outerDimOf op.outerDimsPerm d))

/-- The source elements that the tile with numbers `k` reads. -/
def packReads : Finset (Fin source.shape.length → Int) :=
  points source.shape.length (packReadCoords op source dest sizes k)

/-- The destination elements that the tile with numbers `k` writes: whole inner tiles. -/
def packWrites : Finset (Fin dest.shape.length → Int) :=
  packedPoints dest.shape source.shape.length fun l =>
    tileIndices (dest.shape.getD l 0) (sizes.getD l 0) (k l)

end Tile

/-- Tile sizes that are at least as large, loop by loop; an untiled loop is the largest. -/
def SizesLE (sizes sizes' : List Int) : Prop :=
  ∀ l, sizes'.getD l 0 = 0 ∨ (sizes.getD l 0 ≠ 0 ∧ sizes.getD l 0 ≤ sizes'.getD l 0)

/-- **The estimates are upper bounds**, for every vector of tile sizes and every tile, and monotone
    in the tile sizes. -/
structure PackBounded (op : PackOp) (source dest : TensorType) (bits : Int) : Prop where
  covers_reads : ∀ sizes, TileSizes (dest.shape.take source.shape.length) sizes → ∀ k, ∃ bytes,
    estimatePackSourceFootprint toInt64 op sizes = .ok bytes ∧
    storageBytes bits (packReads op source dest sizes k).card ≤ bytes
  covers_writes : ∀ sizes, TileSizes (dest.shape.take source.shape.length) sizes → ∀ k, ∃ bytes,
    estimatePackDestFootprint toInt64 op sizes = .ok bytes ∧
    storageBytes bits (packWrites source dest sizes k).card ≤ bytes
  monotone : ∀ sizes sizes', TileSizes (dest.shape.take source.shape.length) sizes →
    TileSizes (dest.shape.take source.shape.length) sizes' → SizesLE sizes sizes' →
    FootprintLE (estimatePackSourceFootprint toInt64 op sizes)
      (estimatePackSourceFootprint toInt64 op sizes') ∧
    FootprintLE (estimatePackDestFootprint toInt64 op sizes)
      (estimatePackDestFootprint toInt64 op sizes')

/-- The factors of the destination estimate: tiled outer, full inner dimensions. -/
def packDestFactors (shape sizes : List Int) : List Int :=
  (List.range sizes.length).map (fun l => tiledExtent (shape.getD l 0) (sizes.getD l 0))
    ++ shape.drop sizes.length

section Bound

variable {op : PackOp} {source dest : TensorType} {bits : Int}

/-! ### The factors -/

/-- The estimates of an operand, as products. -/
theorem operandBytes_eq {type : TensorType} (h : type.elementType.getIntOrFloatBitWidth = .ok bits)
    (factors : TensorType → List Int) :
    operandBytes toInt64 (.tensor type) factors = .ok (toInt64 ((factors type).prod * (bits / 8))) := by
  have hproduct := toInt64_numElements (f := id) (g := id) (l := factors type) (fun _ _ => rfl)
    (bits / 8)
  rw [List.map_id] at hproduct
  simp only [operandBytes, elementBytes_eq h, ok_bind, pure_eq_ok, hproduct]

/-- An estimate of all elements, rounded down and wrapped around, is enough for them only if nothing
    was rounded and nothing wrapped around. -/
theorem whole_and_fits {n : Int} (hbits : 0 ≤ bits) (hn : 0 < n)
    (h : storageBytes bits n ≤ toInt64 (n * (bits / 8))) :
    bits % 8 = 0 ∧ FitsInt64 (n * (bits / 8)) := by
  have hle := toInt64_le (mul_nonneg hn.le (show 0 ≤ bits / 8 by omega))
  have hwhole : bits % 8 = 0 := by
    by_contra hpart
    exact absurd (h.trans hle) (not_le.mpr (lt_storageBytes hpart hn))
  rw [storageBytes_of_whole hwhole] at h
  exact ⟨hwhole, (toInt64_fits _).of_le h⟩

/-- The elements fit if their bytes do. -/
theorem fits_elements {n : Int} (hwide : 8 ≤ bits) (hn : 0 ≤ n) (h : FitsInt64 (n * (bits / 8))) :
    FitsInt64 n :=
  h.of_le (le_mul_of_one_le_right hn (by omega))

/-- The length of the vector, and the bounds of its entries. -/
theorem PackOp.Verified.sizes_spec (h : op.Verified source dest) {sizes : List Int}
    (hsizes : TileSizes (dest.shape.take source.shape.length) sizes) :
    sizes.length = source.shape.length ∧ ∀ l, 0 ≤ sizes.getD l 0 := by
  have hlen : (dest.shape.take source.shape.length).length = source.shape.length := by
    rw [List.length_take, h.packing.length_packed]
    omega
  exact ⟨hsizes.length_eq.trans hlen, hsizes.nonneg⟩

/-- **Reading.** Along the dimension of loop `l` the tile reads no more coordinates than the factor
    of the loop says. -/
theorem card_packReadCoords_le (h : op.Verified source dest) {sizes : List Int}
    (hsizes : ∀ l, 0 ≤ sizes.getD l 0) (k : Nat → Nat) {l : Nat} (hl : l < source.shape.length) :
    ((packReadCoords op source dest sizes k (permutedDim op.outerDimsPerm l)).card : Int)
      ≤ packSourceFactor id op source.shape sizes l := by
  have htile := h.packing.one_le_tile (permutedDim op.outerDimsPerm l)
  have hextent := h.packing.getD_unpacked_nonneg (permutedDim op.outerDimsPerm l)
  have hwhole : ((packReadCoords op source dest sizes k (permutedDim op.outerDimsPerm l)).card : Int)
      ≤ source.shape.getD (permutedDim op.outerDimsPerm l) 0 := by
    have hcard := Finset.card_le_card (Finset.filter_subset (fun x =>
      x / innerTileSize op.innerDimsPos op.mixedTiles (permutedDim op.outerDimsPerm l) ∈
        tileIndices (dest.shape.getD (outerDimOf op.outerDimsPerm (permutedDim op.outerDimsPerm l)) 0)
          (sizes.getD (outerDimOf op.outerDimsPerm (permutedDim op.outerDimsPerm l)) 0)
          (k (outerDimOf op.outerDimsPerm (permutedDim op.outerDimsPerm l))))
      (indexRange 0 (source.shape.getD (permutedDim op.outerDimsPerm l) 0)))
    rw [card_indexRange] at hcard
    unfold packReadCoords
    omega
  simp only [packSourceFactor, id]
  split
  · exact hwhole
  next hne =>
  refine le_min hwhole ?_
  -- the coordinates lie in `size` inner tiles from the first one of the tile on
  have hsubset : packReadCoords op source dest sizes k (permutedDim op.outerDimsPerm l) ⊆
      indexRange (k l * sizes.getD l 0
          * innerTileSize op.innerDimsPos op.mixedTiles (permutedDim op.outerDimsPerm l))
        ((k l * sizes.getD l 0 + sizes.getD l 0)
          * innerTileSize op.innerDimsPos op.mixedTiles (permutedDim op.outerDimsPerm l)) := by
    intro x hx
    have hmem := (Finset.mem_filter.mp hx).2
    rw [outerDimOf_permutedDim h.packing.perm hl, tileIndices, if_neg hne, mem_indexRange,
      lt_min_iff] at hmem
    rw [mem_indexRange]
    exact ⟨(Int.le_ediv_iff_mul_le (by omega)).mp hmem.1,
      (Int.ediv_lt_iff_lt_mul (by omega)).mp hmem.2.1⟩
  have hcard := Finset.card_le_card hsubset
  rw [card_indexRange, ← sub_mul, add_sub_cancel_left] at hcard
  have hnonneg : 0 ≤ sizes.getD l 0
      * innerTileSize op.innerDimsPos op.mixedTiles (permutedDim op.outerDimsPerm l) :=
    mul_nonneg (hsizes l) (by omega)
  omega

/-- The tile reads no more elements than the estimate counts. -/
theorem card_packReads_le (h : op.Verified source dest) {sizes : List Int}
    (hsizes : TileSizes (dest.shape.take source.shape.length) sizes) (k : Nat → Nat) :
    ((packReads op source dest sizes k).card : Int)
      ≤ ((List.range sizes.length).map (packSourceFactor id op source.shape sizes)).prod := by
  obtain ⟨hlen, hnonneg⟩ := h.sizes_spec hsizes
  rw [packReads, card_points, ← prod_permutedDim h.packing.perm, prod_map_range, hlen]
  exact Finset.prod_le_prod (fun l _ => Int.natCast_nonneg _)
    fun l hl => card_packReadCoords_le h hnonneg k (Finset.mem_range.mp hl)

/-- **Writing.** The tile writes no more elements than the estimate counts. -/
theorem card_packWrites_le (h : op.Verified source dest) {sizes : List Int}
    (hsizes : TileSizes (dest.shape.take source.shape.length) sizes) (k : Nat → Nat) :
    ((packWrites source dest sizes k).card : Int) ≤ (packDestFactors dest.shape sizes).prod := by
  obtain ⟨hlen, hnonneg⟩ := h.sizes_spec hsizes
  have hrank := h.packing.rank_le
  have hinner := h.packing.inner_nonneg
  rw [packWrites, packDestFactors, card_packedPoints hrank hinner, List.prod_append, prod_map_range,
    hlen]
  refine mul_le_mul_of_nonneg_right ?_ (List.prod_nonneg hinner)
  exact Finset.prod_le_prod (fun l _ => Int.natCast_nonneg _) fun l hl =>
    card_tileIndices_le (k l) (h.packing.outerExtent_nonneg (Finset.mem_range.mp hl)) (hnonneg l)

/-- An untiled pack writes the whole destination. -/
theorem card_packWrites_untiled (h : op.Verified source dest) (k : Nat → Nat) :
    ((packWrites source dest (List.replicate source.shape.length 0) k).card : Int)
      = dest.shape.prod := by
  have hrank := h.packing.rank_le
  have hinner := h.packing.inner_nonneg
  have htake : (dest.shape.take source.shape.length).length = source.shape.length := by
    rw [List.length_take]
    omega
  rw [packWrites, card_packedPoints hrank hinner]
  conv_rhs => rw [← List.take_append_drop source.shape.length dest.shape, List.prod_append,
    prod_eq_prod_range, htake]
  congr 1
  refine Finset.prod_congr rfl fun l hl => ?_
  have hl := Finset.mem_range.mp hl
  have hget : (dest.shape.take source.shape.length).getD l 0 = dest.shape.getD l 0 := by
    rw [List.getD_eq_getElem _ _ (by omega), List.getD_eq_getElem _ _ (by omega),
      List.getElem_take]
  rw [getD_replicate_self, tileIndices_zero, card_indexRange, hget]
  have := h.packing.outerExtent_nonneg hl
  omega

/-- The estimate of an untiled pack counts the whole destination. -/
theorem untiledFactors {shape : List Int} {n : Nat} (hn : n ≤ shape.length) :
    packDestFactors shape (List.replicate n 0) = shape := by
  rw [packDestFactors, List.length_replicate]
  conv_rhs => rw [← List.take_append_drop n shape]
  congr 1
  apply List.ext_getElem
  · simp [hn]
  · intro l hl _
    rw [List.length_map, List.length_range] at hl
    simp only [List.getElem_map, List.getElem_range, List.getElem_take]
    rw [List.getD_eq_getElem _ _ (by omega), getD_replicate_self, tiledExtent, if_pos rfl]

/-! ### Monotonicity -/

theorem packSourceFactor_sizesLE (h : op.Verified source dest) {sizes sizes' : List Int}
    (hnonneg : ∀ l, 0 ≤ sizes.getD l 0) (hle : SizesLE sizes sizes') (l : Nat) :
    0 ≤ packSourceFactor id op source.shape sizes l ∧
      packSourceFactor id op source.shape sizes l
        ≤ packSourceFactor id op source.shape sizes' l := by
  have htile := h.packing.one_le_tile (permutedDim op.outerDimsPerm l)
  have hextent := h.packing.getD_unpacked_nonneg (permutedDim op.outerDimsPerm l)
  have hfirst : 0 ≤ packSourceFactor id op source.shape sizes l := by
    simp only [packSourceFactor, id]
    split
    · exact hextent
    · exact le_min hextent (mul_nonneg (hnonneg l) (by omega))
  refine ⟨hfirst, ?_⟩
  simp only [packSourceFactor, id]
  rcases hle l with hzero | ⟨hne, hsize⟩
  · -- untiled: the whole extent
    rw [if_pos hzero]
    split
    · exact le_refl _
    · exact min_le_left _ _
  · have hpos := hnonneg l
    rw [if_neg hne, if_neg (by omega)]
    exact min_le_min_left _ (mul_le_mul_of_nonneg_right hsize (by omega))

theorem tiledExtent_sizesLE {extent : Int} (hextent : 0 ≤ extent) {sizes sizes' : List Int}
    (hnonneg : ∀ l, 0 ≤ sizes.getD l 0) (hle : SizesLE sizes sizes') (l : Nat) :
    0 ≤ tiledExtent extent (sizes.getD l 0) ∧
      tiledExtent extent (sizes.getD l 0) ≤ tiledExtent extent (sizes'.getD l 0) := by
  have hpos := hnonneg l
  unfold tiledExtent
  rcases hle l with hzero | ⟨hne, hsize⟩
  · rw [if_pos hzero]
    split <;> omega
  · rw [if_neg hne, if_neg (by omega)]
    omega

/-- The source factors of larger tiles have a larger product. -/
theorem prod_packSourceFactor_le (h : op.Verified source dest) {sizes sizes' : List Int}
    (hsizes : TileSizes (dest.shape.take source.shape.length) sizes)
    (hsizes' : TileSizes (dest.shape.take source.shape.length) sizes') (hle : SizesLE sizes sizes') :
    0 ≤ ((List.range sizes.length).map (packSourceFactor id op source.shape sizes)).prod ∧
      ((List.range sizes.length).map (packSourceFactor id op source.shape sizes)).prod
        ≤ ((List.range sizes'.length).map (packSourceFactor id op source.shape sizes')).prod := by
  obtain ⟨hlen, hnonneg⟩ := h.sizes_spec hsizes
  obtain ⟨hlen', -⟩ := h.sizes_spec hsizes'
  rw [hlen, hlen', ← numElements_eq_prod, ← numElements_eq_prod]
  exact numElements_mono (factorsLE_map _ fun l _ => packSourceFactor_sizesLE h hnonneg hle l)

/-- The destination factors of larger tiles have a larger product. -/
theorem prod_packDestFactor_le (h : op.Verified source dest) {sizes sizes' : List Int}
    (hsizes : TileSizes (dest.shape.take source.shape.length) sizes)
    (hsizes' : TileSizes (dest.shape.take source.shape.length) sizes') (hle : SizesLE sizes sizes') :
    0 ≤ (packDestFactors dest.shape sizes).prod ∧
      (packDestFactors dest.shape sizes).prod ≤ (packDestFactors dest.shape sizes').prod := by
  obtain ⟨hlen, hnonneg⟩ := h.sizes_spec hsizes
  obtain ⟨hlen', -⟩ := h.sizes_spec hsizes'
  rw [packDestFactors, packDestFactors, hlen, hlen', ← numElements_eq_prod, ← numElements_eq_prod]
  refine numElements_mono (factorsLE_append (factorsLE_map _ fun l hl => ?_)
    (factorsLE_refl fun f hf => ?_))
  · exact tiledExtent_sizesLE (h.packing.outerExtent_nonneg (List.mem_range.mp hl)) hnonneg hle l
  · exact le_trans (by decide) (h.packing.one_le_inner f hf)

/-! ### Machine arithmetic -/

/-- The untiled vector is the largest one. -/
theorem PackOp.Verified.untiled (h : op.Verified source dest) (sizes : List Int) :
    TileSizes (dest.shape.take source.shape.length) (List.replicate source.shape.length 0) ∧
      SizesLE sizes (List.replicate source.shape.length 0) := by
  have huntiled := tileSizes_untiled (dest.shape.take source.shape.length)
  rw [List.length_take, Nat.min_eq_left h.packing.rank_le] at huntiled
  exact ⟨huntiled, fun l => .inl (getD_replicate_self _ l 0)⟩

/-- The source factors stay within the source, the destination factors within the destination. -/
theorem PackOp.Verified.factors_le (h : op.Verified source dest) {sizes : List Int}
    (hsizes : TileSizes (dest.shape.take source.shape.length) sizes) :
    ((List.range sizes.length).map (packSourceFactor id op source.shape sizes)).prod
        ≤ dest.shape.prod ∧
      (packDestFactors dest.shape sizes).prod ≤ dest.shape.prod := by
  obtain ⟨huntiled, hlargest⟩ := h.untiled sizes
  constructor
  · refine (prod_packSourceFactor_le h hsizes huntiled hlargest).2.trans ?_
    have hwhole : ∀ l, packSourceFactor id op source.shape (List.replicate source.shape.length 0) l
        = source.shape.getD (permutedDim op.outerDimsPerm l) 0 := fun l =>
      if_pos (getD_replicate_self _ l 0)
    simp only [List.length_replicate, prod_map_range, hwhole]
    rw [prod_permutedDim h.packing.perm fun d => source.shape.getD d 0, ← prod_eq_prod_range]
    exact h.packing.prod_unpacked_le
  · refine (prod_packDestFactor_le h hsizes huntiled hlargest).2.trans (le_of_eq ?_)
    rw [untiledFactors h.packing.rank_le]

/-- The source factors do not wrap around if the destination fits. -/
theorem prod_packSourceFactor_toInt64 (h : op.Verified source dest)
    (hfits : FitsInt64 dest.shape.prod) {sizes : List Int}
    (hsizes : TileSizes (dest.shape.take source.shape.length) sizes) :
    ((List.range sizes.length).map (packSourceFactor toInt64 op source.shape sizes)).prod
      = ((List.range sizes.length).map (packSourceFactor id op source.shape sizes)).prod := by
  obtain ⟨hlen, hnonneg⟩ := h.sizes_spec hsizes
  have hsize : ∀ l, l < source.shape.length →
      sizes.getD l 0 = 0 ∨ (1 ≤ sizes.getD l 0 ∧ sizes.getD l 0 ≤ dest.shape.getD l 0) := by
    intro l hl
    have hrank := h.packing.rank_le
    have hlt : l < (dest.shape.take source.shape.length).length := by
      rw [List.length_take]
      omega
    have hget : (dest.shape.take source.shape.length).getD l 0 = dest.shape.getD l 0 := by
      rw [List.getD_eq_getElem _ _ hlt, List.getD_eq_getElem _ _ (by omega), List.getElem_take]
    exact hget ▸ hsizes.size l hlt
  by_cases hempty : 0 ∈ dest.shape
  · -- an empty loop is not tiled, and its factor is 0 in either arithmetic
    obtain ⟨l, hl, hzero⟩ := h.packing.exists_outer_eq_zero hempty
    have hnone := h.packing.unpacked_eq_zero hl hzero
    have huntiled : sizes.getD l 0 = 0 := by
      have := hsize l hl
      omega
    have hmem : ∀ normalize, 0 ∈ (List.range sizes.length).map
        (packSourceFactor normalize op source.shape sizes) := fun normalize =>
      List.mem_map.mpr ⟨l, List.mem_range.mpr (hlen ▸ hl), (if_pos huntiled).trans hnone⟩
    rw [List.prod_eq_zero (hmem toInt64), List.prod_eq_zero (hmem id)]
  · congr 1
    refine List.map_congr_left fun l hl => ?_
    have hl : l < source.shape.length := hlen ▸ List.mem_range.mp hl
    have htile := h.packing.one_le_tile (permutedDim op.outerDimsPerm l)
    simp only [packSourceFactor, id]
    split
    · rfl
    next hne =>
      -- a tile is part of the destination, which fits
      have hpart := h.packing.prod_subset_le hempty
        {permutedDim op.outerDimsPerm l} fun d hd =>
          Finset.mem_singleton.mp hd ▸ permutedDim_lt h.packing.perm hl
      rw [Finset.prod_singleton, outerDimOf_permutedDim h.packing.perm hl] at hpart
      have hle := mul_le_mul_of_nonneg_right ((hsize l hl).resolve_left hne).2
        (show 0 ≤ innerTileSize op.innerDimsPos op.mixedTiles (permutedDim op.outerDimsPerm l) by omega)
      rw [toInt64_of_fits (mul_nonneg (hnonneg l) (by omega)) (hfits.of_le (hle.trans hpart))]

/-- **The source estimate** is exact where the bytes of the destination fit. -/
theorem estimatePackSource_eq (h : op.Verified source dest)
    (hbits : source.elementType.getIntOrFloatBitWidth = .ok bits) (hwide : 8 ≤ bits)
    (hfits : FitsInt64 (dest.shape.prod * (bits / 8))) {sizes : List Int}
    (hsizes : TileSizes (dest.shape.take source.shape.length) sizes) :
    estimatePackSourceFootprint toInt64 op sizes = .ok
      (((List.range sizes.length).map (packSourceFactor id op source.shape sizes)).prod
        * (bits / 8)) := by
  have hbytes : 0 ≤ bits / 8 := by omega
  have hnonneg := (prod_packSourceFactor_le h hsizes (h.untiled sizes).1 (h.untiled sizes).2).1
  have hle := mul_le_mul_of_nonneg_right (h.factors_le hsizes).1 hbytes
  rw [estimatePackSourceFootprint, h.source_eq, operandBytes_eq hbits, prod_packSourceFactor_toInt64 h
    (fits_elements hwide (List.prod_nonneg h.packing.packed_nonneg) hfits) hsizes,
    toInt64_of_fits (mul_nonneg hnonneg hbytes) (hfits.of_le hle)]

/-- **The destination estimate** is exact where the bytes of the destination fit. -/
theorem estimatePackDest_eq (h : op.Verified source dest)
    (hbits : dest.elementType.getIntOrFloatBitWidth = .ok bits) (hwide : 8 ≤ bits)
    (hfits : FitsInt64 (dest.shape.prod * (bits / 8))) {sizes : List Int}
    (hsizes : TileSizes (dest.shape.take source.shape.length) sizes) :
    estimatePackDestFootprint toInt64 op sizes
      = .ok ((packDestFactors dest.shape sizes).prod * (bits / 8)) := by
  have hbytes : 0 ≤ bits / 8 := by omega
  have hnonneg := (prod_packDestFactor_le h hsizes (h.untiled sizes).1 (h.untiled sizes).2).1
  have hle := mul_le_mul_of_nonneg_right (h.factors_le hsizes).2 hbytes
  rw [estimatePackDestFootprint, h.dest_eq, operandBytes_eq hbits, ← packDestFactors,
    toInt64_of_fits (mul_nonneg hnonneg hbytes) (hfits.of_le hle)]

/-! ### The result -/

/-- In a tile of a destination without elements, some source dimension is empty. -/
theorem card_packReads_of_empty (h : op.Verified source dest) (hempty : 0 ∈ dest.shape)
    (sizes : List Int) (k : Nat → Nat) : ((packReads op source dest sizes k).card : Int) = 0 := by
  obtain ⟨l, hl, hzero⟩ := h.packing.exists_outer_eq_zero hempty
  -- no coordinate along the dimension of `l`
  have hnone := h.packing.unpacked_eq_zero hl hzero
  rw [packReads, card_points]
  refine Finset.prod_eq_zero (Finset.mem_range.mpr (permutedDim_lt h.packing.perm hl)) ?_
  rw [packReadCoords, hnone, indexRange_self, Finset.filter_empty, Finset.card_empty,
    Nat.cast_zero]

/-- A tile of a destination without elements writes nothing. -/
theorem card_packWrites_of_empty (h : op.Verified source dest) (hempty : 0 ∈ dest.shape)
    {sizes : List Int} (hsizes : TileSizes (dest.shape.take source.shape.length) sizes)
    (k : Nat → Nat) : ((packWrites source dest sizes k).card : Int) = 0 := by
  obtain ⟨l, hl, hzero⟩ := h.packing.exists_outer_eq_zero hempty
  rw [packWrites, card_packedPoints h.packing.rank_le h.packing.inner_nonneg]
  refine mul_eq_zero_of_left (Finset.prod_eq_zero (Finset.mem_range.mpr hl) ?_) _
  rw [hzero, tileIndices_of_empty ((h.sizes_spec hsizes).2 l), Finset.card_empty, Nat.cast_zero]

/-- **The estimates of a pack are upper bounds if and only if** elements are a whole number of bytes
    and the bytes of the destination fit an `int64_t`, or the destination has no elements. -/
theorem packBounded_iff (h : op.Verified source dest)
    (hbits : source.elementType.getIntOrFloatBitWidth = .ok bits) (hwide : 8 ≤ bits) :
    PackBounded op source dest bits ↔
      0 ∈ dest.shape ∨ (bits % 8 = 0 ∧ FitsInt64 (dest.shape.prod * (bits / 8))) := by
  have hbits' : dest.elementType.getIntOrFloatBitWidth = .ok bits := by
    rw [h.elementType_eq]
    exact hbits
  have hnonneg := getIntOrFloatBitWidth_nonneg hbits
  constructor
  · intro hbounded
    refine or_iff_not_imp_left.mpr fun hfull => ?_
    -- the untiled pack writes every element of the destination
    obtain ⟨bytes, hbytes, hle⟩ := hbounded.covers_writes _ (h.untiled []).1 fun _ => 0
    rw [estimatePackDestFootprint, h.dest_eq, operandBytes_eq hbits', ← packDestFactors,
      untiledFactors h.packing.rank_le] at hbytes
    rw [← Except.ok.inj hbytes, card_packWrites_untiled h] at hle
    have hpos : 0 < dest.shape.prod := List.prod_pos fun extent hextent =>
      lt_of_le_of_ne (h.packing.packed_nonneg extent hextent) fun hzero => hfull (hzero ▸ hextent)
    exact whole_and_fits hnonneg hpos hle
  · intro hcase
    have hfits : FitsInt64 (dest.shape.prod * (bits / 8)) := by
      rcases hcase with hempty | hcase
      · rw [List.prod_eq_zero hempty, zero_mul]
        decide
      · exact hcase.2
    have hwhole : bits % 8 = 0 ∨ 0 ∈ dest.shape := hcase.symm.imp_left And.left
    refine ⟨fun sizes hsizes k => ⟨_, estimatePackSource_eq h hbits hwide hfits hsizes, ?_⟩,
      fun sizes hsizes k => ⟨_, estimatePackDest_eq h hbits' hwide hfits hsizes, ?_⟩,
      fun sizes sizes' hsizes hsizes' hle => ⟨?_, ?_⟩⟩
    · refine storageBytes_le hnonneg ?_ (Int.natCast_nonneg _) (card_packReads_le h hsizes k)
      exact hwhole.imp id fun hempty => card_packReads_of_empty h hempty sizes k
    · refine storageBytes_le hnonneg ?_ (Int.natCast_nonneg _) (card_packWrites_le h hsizes k)
      exact hwhole.imp id fun hempty => card_packWrites_of_empty h hempty hsizes k
    · rw [estimatePackSource_eq h hbits hwide hfits hsizes,
        estimatePackSource_eq h hbits hwide hfits hsizes']
      exact .ok (mul_le_mul_of_nonneg_right (prod_packSourceFactor_le h hsizes hsizes' hle).2
        (by omega))
    · rw [estimatePackDest_eq h hbits' hwide hfits hsizes,
        estimatePackDest_eq h hbits' hwide hfits hsizes']
      exact .ok (mul_le_mul_of_nonneg_right (prod_packDestFactor_le h hsizes hsizes' hle).2
        (by omega))

end Bound

/-! ### A padded pack with a permutation -/

/-- `linalg.pack` of a tensor of extents 4, 6 and 5, with two inner tiles and padding. -/
def paddedPack (type : ElementType) : PackOp where
  source := .tensor ⟨[4, 6, 5], type⟩
  dest := .tensor ⟨[6, 3, 1, 2, 4], type⟩
  outerDimsPerm := [1, 2, 0]
  innerDimsPos := [2, 0]
  mixedTiles := [some 2, some 4]
  otherOperands := [.scalar type]
  rank_le := show 3 ≤ 5 by decide
  innerTile_pos := by decide

theorem paddedPack_verified (type : ElementType) :
    (paddedPack type).Verified ⟨[4, 6, 5], type⟩ ⟨[6, 3, 1, 2, 4], type⟩ where
  source_eq := rfl
  dest_eq := rfl
  elementType_eq := rfl
  packing :=
    { static := show ∀ extent ∈ [4, 6, 5], (0 : Int) ≤ extent by decide
      perm := Or.inr (show [1, 2, 0].Perm (List.range 3) by decide)
      innerDimsPos_nodup := show [2, 0].Nodup by decide
      innerDimsPos_lt := show ∀ d ∈ [2, 0], d < 3 by decide
      tiles_length := rfl
      tiles_static := by
        intro tile htile
        simp only [paddedPack, List.mem_cons, List.not_mem_nil, or_false] at htile
        rcases htile with rfl | rfl
        · exact ⟨2, rfl, by decide⟩
        · exact ⟨4, rfl, by decide⟩
      shape := rfl }

theorem packBounded_paddedPack :
    PackBounded (paddedPack .f32) ⟨[4, 6, 5], .f32⟩ ⟨[6, 3, 1, 2, 4], .f32⟩ 32 :=
  (packBounded_iff (paddedPack_verified .f32) rfl (by decide)).mpr (Or.inr ⟨rfl, by decide⟩)

/-- **Elements of 12 bits** are counted as one byte each. -/
theorem paddedPack_not_bounded :
    ¬ PackBounded (paddedPack (.integer 12)) ⟨[4, 6, 5], .integer 12⟩
      ⟨[6, 3, 1, 2, 4], .integer 12⟩ 12 := by
  intro hbounded
  obtain ⟨bytes, hbytes, hle⟩ := hbounded.covers_writes [0, 0, 0]
    ⟨rfl, fun l hl => Or.inl (by
      have hl : l < 3 := hl
      match l, hl with
      | 0, _ => rfl
      | 1, _ => rfl
      | 2, _ => rfl)⟩ fun _ => 0
  have hwrites := card_packWrites_untiled (paddedPack_verified (.integer 12)) fun _ => 0
  have hestimate : estimatePackDestFootprint toInt64 (paddedPack (.integer 12)) [0, 0, 0] = .ok 144 := by
    decide
  obtain rfl := Except.ok.inj (hestimate.symm.trans hbytes)
  rw [show [0, 0, 0] = List.replicate 3 (0 : Int) from rfl] at hle
  rw [show ((packWrites ⟨[4, 6, 5], .integer 12⟩ ⟨[6, 3, 1, 2, 4], .integer 12⟩
    (List.replicate 3 0) fun _ => 0).card : Int) = 144 from hwrites] at hle
  exact absurd hle (by decide)

end CoralNPU.Tiling
