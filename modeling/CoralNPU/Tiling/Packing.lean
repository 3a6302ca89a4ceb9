import CoralNPU.Tiling.TileAccess

namespace CoralNPU.Tiling

open Lib

/-!
# Tiling — packed shapes

`linalg.pack` cuts the dimensions of its source into inner tiles and permutes the outer
dimensions; `linalg.unpack` is the way back.

* `IsPacking` — the shapes and attributes of both operations, as their verifiers check them.
* `outerDimOf` — the outer dimension of the packed tensor that a dimension ends up in, the
  inverse of `permutedDim`.
* `prod_permutedDim` — a product over the outer dimensions is one over the dimensions.
* `IsPacking.outerExtent` and the lemmas after it read the packed shape.
* `packedPoints` — points of the packed tensor, by their outer coordinates.
-/

/-! ### Packed shapes -/

/-- `packed` is the shape of a tensor of shape `unpacked` after packing, with static inner
    tiles. -/
structure IsPacking (unpacked packed : List Int) (outerDimsPerm innerDimsPos : List Nat)
    (mixedTiles : List (Option Int)) : Prop where
  static : ∀ extent ∈ unpacked, 0 ≤ extent
  /-- No permutation stands for the identity. -/
  perm : outerDimsPerm = [] ∨ outerDimsPerm.Perm (List.range unpacked.length)
  innerDimsPos_nodup : innerDimsPos.Nodup
  innerDimsPos_lt : ∀ d ∈ innerDimsPos, d < unpacked.length
  tiles_length : mixedTiles.length = innerDimsPos.length
  tiles_static : ∀ tile ∈ mixedTiles, ∃ size, tile = some size ∧ 1 ≤ size
  /-- The outer dimensions count inner tiles, the last one possibly padded. -/
  shape : packed =
    ((List.range unpacked.length).map fun l =>
      let d := permutedDim outerDimsPerm l
      let tile := innerTileSize innerDimsPos mixedTiles d
      (unpacked.getD d 0 + tile - 1) / tile) ++ mixedTiles.map (·.getD 1)

/-- The outer dimension of the packed tensor that holds dimension `d`. -/
def outerDimOf (outerDimsPerm : List Nat) (d : Nat) : Nat :=
  if outerDimsPerm.isEmpty then d else outerDimsPerm.idxOf d

/-- A product over a list, by position. -/
theorem prod_eq_prod_range (xs : List Int) :
    xs.prod = ∏ j ∈ Finset.range xs.length, xs.getD j 0 := by
  rw [← prod_map_range]
  congr 1
  apply List.ext_getElem
  · simp
  · intro i hi _
    simp only [List.getElem_map, List.getElem_range]
    rw [List.getD_eq_getElem _ _ hi]

section Permutation

variable {perm : List Nat} {n : Nat}

/-- The dimension behind an outer dimension is one of the tensor's. -/
theorem permutedDim_lt (h : perm = [] ∨ perm.Perm (List.range n)) {l : Nat} (hl : l < n) :
    permutedDim perm l < n := by
  unfold permutedDim
  rcases h with rfl | h
  · exact hl
  · have hlen : perm.length = n := h.length_eq.trans List.length_range
    split
    · exact hl
    · rw [List.getD_eq_getElem _ _ (by omega)]
      exact List.mem_range.mp (h.mem_iff.mp (List.getElem_mem _))

/-- `outerDimOf` undoes `permutedDim`. -/
theorem outerDimOf_permutedDim (h : perm = [] ∨ perm.Perm (List.range n)) {l : Nat} (hl : l < n) :
    outerDimOf perm (permutedDim perm l) = l := by
  unfold outerDimOf permutedDim
  rcases h with rfl | h
  · rfl
  · have hlen : perm.length = n := h.length_eq.trans List.length_range
    have hne : perm.isEmpty = false := by
      rw [List.isEmpty_eq_false_iff, ← List.length_pos_iff]
      omega
    simp only [hne, Bool.false_eq_true, if_false]
    rw [List.getD_eq_getElem _ _ (by omega)]
    exact (h.nodup_iff.mpr List.nodup_range).idxOf_getElem _ _

/-- Every dimension ends up in an outer dimension, and `permutedDim` leads back. -/
theorem outerDimOf_lt (h : perm = [] ∨ perm.Perm (List.range n)) {d : Nat} (hd : d < n) :
    outerDimOf perm d < n ∧ permutedDim perm (outerDimOf perm d) = d := by
  unfold outerDimOf permutedDim
  rcases h with rfl | h
  · exact ⟨hd, rfl⟩
  · have hlen : perm.length = n := h.length_eq.trans List.length_range
    have hne : perm.isEmpty = false := by
      rw [List.isEmpty_eq_false_iff, ← List.length_pos_iff]
      omega
    have hidx : perm.idxOf d < perm.length :=
      List.idxOf_lt_length_of_mem (h.mem_iff.mpr (List.mem_range.mpr hd))
    simp only [hne, Bool.false_eq_true, if_false]
    rw [List.getD_eq_getElem _ _ hidx]
    exact ⟨hlen ▸ hidx, List.getElem_idxOf hidx⟩

/-- A product over the outer dimensions is a product over the dimensions. -/
theorem prod_permutedDim (h : perm = [] ∨ perm.Perm (List.range n)) (f : Nat → Int) :
    ∏ l ∈ Finset.range n, f (permutedDim perm l) = ∏ d ∈ Finset.range n, f d := by
  rcases h with rfl | h
  · rfl
  · have hlen : perm.length = n := h.length_eq.trans List.length_range
    rw [← prod_map_range, ← prod_map_range]
    -- the outer dimensions are looked up in the order of the permutation
    have hmap : (List.range n).map (fun l => f (permutedDim perm l)) = perm.map f := by
      apply List.ext_getElem
      · simp [hlen]
      · intro i hi _
        rw [List.length_map, List.length_range] at hi
        have hne : perm.isEmpty = false := by
          rw [List.isEmpty_eq_false_iff, ← List.length_pos_iff]
          omega
        simp only [List.getElem_map, List.getElem_range, permutedDim, hne, Bool.false_eq_true,
          if_false]
        rw [List.getD_eq_getElem _ _ (by omega)]
    rw [hmap]
    exact (h.map f).prod_eq

end Permutation

/-! ### The packed shape -/

namespace IsPacking

variable {unpacked packed : List Int} {outerDimsPerm innerDimsPos : List Nat}
  {mixedTiles : List (Option Int)}

/-- The length of the inner tiles of dimension `d`. -/
theorem one_le_tile (h : IsPacking unpacked packed outerDimsPerm innerDimsPos mixedTiles)
    (d : Nat) : 1 ≤ innerTileSize innerDimsPos mixedTiles d := by
  refine innerTileSize_pos innerDimsPos (fun tile htile size hsize => ?_) d
  obtain ⟨size', rfl, hpos⟩ := h.tiles_static tile htile
  obtain rfl := Option.mem_some_iff.mp hsize
  exact hpos

/-- An outer extent counts the inner tiles of its dimension. -/
theorem outerExtent (h : IsPacking unpacked packed outerDimsPerm innerDimsPos mixedTiles) {l : Nat}
    (hl : l < unpacked.length) :
    packed.getD l 0 =
      (unpacked.getD (permutedDim outerDimsPerm l) 0
        + innerTileSize innerDimsPos mixedTiles (permutedDim outerDimsPerm l) - 1)
      / innerTileSize innerDimsPos mixedTiles (permutedDim outerDimsPerm l) := by
  rw [h.shape, List.getD_append _ _ _ _ (by rw [List.length_map, List.length_range]; exact hl)]
  rw [List.getD_eq_getElem _ _ (by rw [List.length_map, List.length_range]; exact hl)]
  simp only [List.getElem_map, List.getElem_range]

/-- After the outer extents come the inner tiles. -/
theorem drop_outer (h : IsPacking unpacked packed outerDimsPerm innerDimsPos mixedTiles) :
    packed.drop unpacked.length = mixedTiles.map (·.getD 1) := by
  rw [h.shape]
  exact List.drop_left' (by rw [List.length_map, List.length_range])

/-- Packing adds one dimension for each inner tile. -/
theorem length_packed (h : IsPacking unpacked packed outerDimsPerm innerDimsPos mixedTiles) :
    packed.length = unpacked.length + mixedTiles.length := by
  rw [h.shape, List.length_append, List.length_map, List.length_range, List.length_map]

/-- The inner dimensions are not empty. -/
theorem one_le_inner (h : IsPacking unpacked packed outerDimsPerm innerDimsPos mixedTiles) :
    ∀ extent ∈ packed.drop unpacked.length, 1 ≤ extent := by
  rw [h.drop_outer]
  intro extent hextent
  obtain ⟨tile, htile, rfl⟩ := List.mem_map.mp hextent
  obtain ⟨size, rfl, hpos⟩ := h.tiles_static tile htile
  exact hpos

/-- No extent is negative. -/
theorem getD_unpacked_nonneg
    (h : IsPacking unpacked packed outerDimsPerm innerDimsPos mixedTiles) (d : Nat) :
    0 ≤ unpacked.getD d 0 := getD_shape_nonneg h.static d

/-- No outer extent is negative. -/
theorem outerExtent_nonneg (h : IsPacking unpacked packed outerDimsPerm innerDimsPos mixedTiles)
    {l : Nat} (hl : l < unpacked.length) : 0 ≤ packed.getD l 0 := by
  have htile := h.one_le_tile (permutedDim outerDimsPerm l)
  have hextent := h.getD_unpacked_nonneg (permutedDim outerDimsPerm l)
  rw [h.outerExtent hl]
  exact Int.ediv_nonneg (by omega) (by omega)

/-- No packed extent is negative. -/
theorem packed_nonneg (h : IsPacking unpacked packed outerDimsPerm innerDimsPos mixedTiles) :
    ∀ extent ∈ packed, 0 ≤ extent := by
  intro extent hextent
  rw [← List.take_append_drop unpacked.length packed, List.mem_append] at hextent
  rcases hextent with hextent | hextent
  · obtain ⟨l, hl, rfl⟩ := List.getElem_of_mem hextent
    rw [List.length_take] at hl
    rw [List.getElem_take, ← List.getD_eq_getElem packed 0 (by omega)]
    exact h.outerExtent_nonneg (by omega)
  · have := h.one_le_inner extent hextent
    omega

/-- The outer dimensions are among those of the packed tensor. -/
theorem rank_le (h : IsPacking unpacked packed outerDimsPerm innerDimsPos mixedTiles) :
    unpacked.length ≤ packed.length := by
  rw [h.length_packed]
  omega

/-- No inner extent is negative. -/
theorem inner_nonneg (h : IsPacking unpacked packed outerDimsPerm innerDimsPos mixedTiles) :
    ∀ extent ∈ packed.drop unpacked.length, 0 ≤ extent :=
  fun extent hextent => le_trans (by decide) (h.one_le_inner extent hextent)

/-- A packed tensor without elements has an empty outer dimension. -/
theorem exists_outer_eq_zero
    (h : IsPacking unpacked packed outerDimsPerm innerDimsPos mixedTiles) (hempty : 0 ∈ packed) :
    ∃ l, l < unpacked.length ∧ packed.getD l 0 = 0 := by
  rw [← List.take_append_drop unpacked.length packed, List.mem_append] at hempty
  rcases hempty with houter | hinner
  · obtain ⟨l, hl, hget⟩ := List.getElem_of_mem houter
    rw [List.getElem_take] at hget
    rw [List.length_take] at hl
    exact ⟨l, by omega, by rw [List.getD_eq_getElem _ _ (by omega), hget]⟩
  · have := h.one_le_inner 0 hinner
    omega

/-- Without inner tiles along a dimension there is nothing to pack along it. -/
theorem unpacked_eq_zero (h : IsPacking unpacked packed outerDimsPerm innerDimsPos mixedTiles)
    {l : Nat} (hl : l < unpacked.length) (hzero : packed.getD l 0 = 0) :
    unpacked.getD (permutedDim outerDimsPerm l) 0 = 0 := by
  have htile := h.one_le_tile (permutedDim outerDimsPerm l)
  have hextent := h.getD_unpacked_nonneg (permutedDim outerDimsPerm l)
  have hle := (ceilDiv_le_iff htile).mp ((h.outerExtent hl).symm.trans hzero).le
  omega

/-- The inner tiles of all dimensions are the inner extents. -/
theorem prod_innerTileSize (h : IsPacking unpacked packed outerDimsPerm innerDimsPos mixedTiles) :
    ∏ d ∈ Finset.range unpacked.length, innerTileSize innerDimsPos mixedTiles d
      = (packed.drop unpacked.length).prod := by
  have hsubset : innerDimsPos.toFinset ⊆ Finset.range unpacked.length := fun d hd =>
    Finset.mem_range.mpr (h.innerDimsPos_lt d (List.mem_toFinset.mp hd))
  rw [← Finset.prod_subset hsubset fun d _ hd => ?_,
    List.prod_toFinset _ h.innerDimsPos_nodup, h.drop_outer]
  · congr 1
    apply List.ext_getElem
    · rw [List.length_map, List.length_map, h.tiles_length]
    · intro i hi hi'
      rw [List.length_map] at hi hi'
      simp only [List.getElem_map, innerTileSize, List.getElem_mem, if_true,
        h.innerDimsPos_nodup.idxOf_getElem _ _, List.getElem?_eq_getElem hi', Option.join_some]
  · -- a dimension without an inner tile
    exact if_neg fun hmem => hd (List.mem_toFinset.mpr hmem)

/-- The packed tensor has the elements of the inner tiles of every dimension. -/
theorem prod_packed (h : IsPacking unpacked packed outerDimsPerm innerDimsPos mixedTiles) :
    packed.prod = ∏ d ∈ Finset.range unpacked.length,
      packed.getD (outerDimOf outerDimsPerm d) 0 * innerTileSize innerDimsPos mixedTiles d := by
  have hlen : (packed.take unpacked.length).length = unpacked.length := by
    rw [List.length_take, Nat.min_eq_left h.rank_le]
  rw [Finset.prod_mul_distrib, h.prod_innerTileSize,
    ← prod_permutedDim h.perm fun d => packed.getD (outerDimOf outerDimsPerm d) 0]
  conv_lhs => rw [← List.take_append_drop unpacked.length packed, List.prod_append,
    prod_eq_prod_range, hlen]
  congr 1
  refine Finset.prod_congr rfl fun l hl => ?_
  have hl := Finset.mem_range.mp hl
  have hle := h.rank_le
  rw [outerDimOf_permutedDim h.perm hl, List.getD_eq_getElem _ _ (by omega),
    List.getD_eq_getElem _ _ (by omega), List.getElem_take]

/-- The inner tiles of a dimension have room for all its elements. -/
theorem extent_le (h : IsPacking unpacked packed outerDimsPerm innerDimsPos mixedTiles) {d : Nat}
    (hd : d < unpacked.length) :
    unpacked.getD d 0
      ≤ packed.getD (outerDimOf outerDimsPerm d) 0 * innerTileSize innerDimsPos mixedTiles d := by
  obtain ⟨hlt, hback⟩ := outerDimOf_lt h.perm hd
  have htile := h.one_le_tile d
  rw [h.outerExtent hlt, hback]
  exact (ceilDiv_le_iff htile).mp (le_refl _)

/-- Packing adds padding only. -/
theorem prod_unpacked_le (h : IsPacking unpacked packed outerDimsPerm innerDimsPos mixedTiles) :
    unpacked.prod ≤ packed.prod := by
  rw [prod_eq_prod_range, h.prod_packed]
  exact Finset.prod_le_prod (fun d _ => h.getD_unpacked_nonneg d)
    fun d hd => h.extent_le (Finset.mem_range.mp hd)

/-- The inner tiles of some dimensions are part of the packed tensor, if it has elements. -/
theorem prod_subset_le (h : IsPacking unpacked packed outerDimsPerm innerDimsPos mixedTiles)
    (hfull : 0 ∉ packed) (dims : Finset Nat) (hdims : ∀ d ∈ dims, d < unpacked.length) :
    ∏ d ∈ dims, packed.getD (outerDimOf outerDimsPerm d) 0 * innerTileSize innerDimsPos mixedTiles d
      ≤ packed.prod := by
  have hone : ∀ d, d < unpacked.length →
      1 ≤ packed.getD (outerDimOf outerDimsPerm d) 0 * innerTileSize innerDimsPos mixedTiles d := by
    intro d hd
    have hlt := (outerDimOf_lt h.perm hd).1
    have houter : 1 ≤ packed.getD (outerDimOf outerDimsPerm d) 0 := by
      have hnonneg := h.outerExtent_nonneg hlt
      have hrank := h.rank_le
      have hne : packed.getD (outerDimOf outerDimsPerm d) 0 ≠ 0 := by
        rw [List.getD_eq_getElem _ _ (by omega)]
        exact fun hzero => hfull (hzero ▸ List.getElem_mem _)
      omega
    exact one_le_mul_of_one_le_of_one_le houter (h.one_le_tile d)
  rw [h.prod_packed]
  rw [← Finset.prod_sdiff (fun d hd => Finset.mem_range.mpr (hdims d hd) : dims ⊆ _)]
  refine le_mul_of_one_le_left (Finset.prod_nonneg fun d hd => ?_) ?_
  · exact le_trans (by decide) (hone d (hdims d hd))
  · exact Finset.prod_induction _ (1 ≤ ·) (fun _ _ => one_le_mul_of_one_le_of_one_le) (le_refl 1)
      fun d hd => hone d (Finset.mem_range.mp (Finset.mem_sdiff.mp hd).1)

end IsPacking

/-! ### Points of the packed tensor -/

/-- The points with the given outer coordinates, and with all inner ones. -/
def packedPoints (packed : List Int) (n : Nat) (outer : Nat → Finset Int) :
    Finset (Fin packed.length → Int) :=
  points packed.length fun j => if j < n then outer j else indexRange 0 (packed.getD j 0)

/-- The number of such points: the outer choices, times the inner extents. -/
theorem card_packedPoints {packed : List Int} {n : Nat} (hn : n ≤ packed.length)
    (hinner : ∀ extent ∈ packed.drop n, 0 ≤ extent) (outer : Nat → Finset Int) :
    ((packedPoints packed n outer).card : Int)
      = (∏ l ∈ Finset.range n, ((outer l).card : Int)) * (packed.drop n).prod := by
  obtain ⟨m, hm⟩ := Nat.exists_eq_add_of_le hn
  have hdrop : (packed.drop n).length = m := by
    rw [List.length_drop]
    omega
  -- outer and inner dimensions apart
  rw [packedPoints, card_points, prod_eq_prod_range, hdrop, hm, Finset.prod_range_add]
  congr 1
  · refine Finset.prod_congr rfl fun l hl => ?_
    rw [if_pos (Finset.mem_range.mp hl)]
  · refine Finset.prod_congr rfl fun j hj => ?_
    have hj := Finset.mem_range.mp hj
    have hget : (packed.drop n).getD j 0 = packed.getD (n + j) 0 := by
      rw [List.getD_eq_getElem _ _ (by omega), List.getD_eq_getElem _ _ (by omega),
        List.getElem_drop]
    have hpos : 0 ≤ (packed.drop n).getD j 0 := getD_shape_nonneg hinner j
    rw [if_neg (by omega), card_indexRange, hget]
    omega

end CoralNPU.Tiling
