import CoralNPU.Tiling.Fit
import CoralNPU.Tiling.RegisterTile

namespace CoralNPU.Tiling

open Lib

/-!
# Tiling — when cache tiles are whole numbers of register tiles

The DTCM pass aligns every tile down to the register tiles, but then caps the vector and
unroll loops at `maxParallelTileSize`, and the cap need not be a multiple of the register
tile.  A capped tile is repaired only if the loop is halved later (or by the fallback), so
whether the cache tiles come out whole depends on the footprints the loop passes through.

* `CacheTilesWhole` — every cache tile is a positive multiple of its register tile;
* `CapHarmless` — a cap that is no multiple of the register tile never survives: all tiles of
  the halving sequence that still have it are over budget;
* `cacheTilesWhole_iff` — the first holds of a successful run exactly when the second does;
* `capHarmless_iff` — with exact bounds it is enough to look at one tile for each loop.
-/

/-- Every cache tile below a register tile is a positive multiple of it. -/
def WholeTiles (n : Nat) (register cache : List Int) : Prop :=
  ∀ i < n, 0 < register.getD i 0 → 0 < cache.getD i 0 ∧ register.getD i 0 ∣ cache.getD i 0

/-- The cache tiles of a configuration are whole numbers of its register tiles. -/
def CacheTilesWhole (n : Nat) (config : LoweringConfig) : Prop :=
  WholeTiles n (config.getStaticTilingLevelSizes .vectorCommonParallelTiles)
      (config.getStaticTilingLevelSizes .cacheParallelTiles)
    ∧ WholeTiles n (config.getStaticTilingLevelSizes .vectorReductionTiles)
      (config.getStaticTilingLevelSizes .cacheReductionTiles)

/-- The loops, each with the largest register tile of its list. -/
def registerSlots (loops : LoopClassification) (tile redTile : Nat → Int) : List Slot :=
  loops.vectorLoops.map (·, largestTile tile loops.vectorLoops)
    ++ loops.unrollLoops.map (·, largestTile tile loops.unrollLoops)
    ++ loops.batchLoops.map (·, largestTile tile loops.batchLoops)
    ++ loops.reductionLoops.map (·, largestTile redTile loops.reductionLoops)

/-- The alignment of a loop; 1 if it is in no list. -/
def alignmentAt (slots : List Slot) (i : Nat) : Int :=
  ((slots.find? (·.1 = i)).map (·.2)).getD 1

/-- The first cache tile: every range aligned down, and capped. -/
def firstTile (cap : Int) (loops : LoopClassification) (ranges : List Int) (slots : List Slot) :
    List Int :=
  (List.range ranges.length).map fun i =>
    startTile cap (loops.IsCapped i) (alignmentAt slots i) (ranges.getD i 0)

/-- The loops whose cap is no multiple of their register tile. -/
def BadCap (cap : Int) (loops : LoopClassification) (ranges : List Int) (tile : Nat → Int)
    (p : Slot) : Prop :=
  loops.IsCapped p.1 ∧ cap < alignedExtent p.2 (ranges.getD p.1 0) ∧ ¬ tile p.1 ∣ cap

/-- No tile of the halving sequence in which such a loop still has its capped size fits. -/
def CapHarmless (isOver : List Int → Except Failure Bool) (cap : Int) (loops : LoopClassification)
    (ranges : List Int) (tile redTile : Nat → Int) : Prop :=
  let slots := registerSlots loops tile redTile
  let first := firstTile cap loops ranges slots
  ∀ p ∈ slots, BadCap cap loops ranges tile p →
    ∀ k t, halvings slots first k = some t → t.getD p.1 0 = first.getD p.1 0 → isOver t = .ok true

/-! ### The start, from the register tiles -/

theorem alignmentAt_eq {slots : List Slot} (hnodup : (slots.map (·.1)).Nodup) {p : Slot}
    (hp : p ∈ slots) : alignmentAt slots p.1 = p.2 := by
  unfold alignmentAt
  cases hfind : slots.find? (·.1 = p.1) with
  | none =>
    have := List.find?_eq_none.mp hfind p hp
    simp at this
  | some q =>
    have hq : q.1 = p.1 := by simpa using List.find?_some hfind
    rw [List.inj_on_of_nodup_map hnodup (List.mem_of_find?_eq_some hfind) hp hq]
    rfl

section Start

variable {target : Target} {options : RegisterOptions} {analysis : TilingAnalysis}
  {vw : Int} {alignments : Alignments}

/-- The register tiles the register pass gives the parallel loops. -/
def tileOf (target : Target) (analysis : TilingAnalysis) (vw : Int) (alignments : Alignments) :
    Nat → Int :=
  registerTile analysis.classification analysis.staticLoopRanges vw alignments
    (hasMatrix target analysis.rootTilingOp)

/-- The configuration the register pass leaves behind. -/
def registerConfig (target : Target) (analysis : TilingAnalysis) (vw : Int)
    (alignments : Alignments) : LoweringConfig :=
  [(.vectorCommonParallelTiles, registerParallelSizes analysis.classification
      analysis.staticLoopRanges vw alignments (hasMatrix target analysis.rootTilingOp)),
    (.vectorReductionTiles, registerReductionSizes analysis.classification
      analysis.staticLoopRanges alignments)]

/-- **The slots of the shrink loop** are those of the register tiles. -/
theorem slots_eq (h : analysis.WellFormed) {s₀ : ShrinkState}
    (hs₀ : IsStart target analysis (registerConfig target analysis vw alignments) s₀) :
    s₀.slots analysis.classification = registerSlots analysis.classification
      (tileOf target analysis vw alignments)
      (reductionTile analysis.staticLoopRanges alignments) := by
  have hlt : ∀ i ∈ analysis.classification.allLoops, i < analysis.staticLoopRanges.length :=
    fun i hi => (h.mem_allLoops i).mp hi
  have hpar : ∀ loops : List Nat, (∀ i ∈ loops, i ∈ analysis.classification.parallelLoops) →
      alignmentOf ((registerConfig target analysis vw alignments).getStaticTilingLevelSizes
        .vectorCommonParallelTiles) loops = largestTile (tileOf target analysis vw alignments) loops := by
    intro loops hloops
    refine alignmentOf_eq_largestTile fun i hi => ?_
    have hi' := hlt i (List.mem_append_left _ (hloops i hi))
    show i < (registerParallelSizes _ _ _ _ _).length
      ∧ (registerParallelSizes _ _ _ _ _).getD i 0 = _
    rw [length_registerParallelSizes, getD_registerParallelSizes h.nodup hi',
      if_pos (hloops i hi)]
    exact ⟨hi', rfl⟩
  have hred : alignmentOf ((registerConfig target analysis vw alignments).getStaticTilingLevelSizes
        .vectorReductionTiles) analysis.classification.reductionLoops
      = largestTile (reductionTile analysis.staticLoopRanges alignments)
          analysis.classification.reductionLoops := by
    refine alignmentOf_eq_largestTile fun i hi => ?_
    have hi' := hlt i (List.mem_append_right _ hi)
    show i < (registerReductionSizes _ _ _).length ∧ (registerReductionSizes _ _ _).getD i 0 = _
    rw [length_registerReductionSizes, getD_registerReductionSizes hi', if_pos hi]
    exact ⟨hi', rfl⟩
  unfold ShrinkState.slots registerSlots
  rw [hs₀.vectorAlign, hs₀.unrollAlign, hs₀.batchAlign, hs₀.reductionAlign, hred,
    hpar _ fun i hi => mem_parallelLoops.mpr (.inl hi),
    hpar _ fun i hi => mem_parallelLoops.mpr (.inr (.inl hi)),
    hpar _ fun i hi => mem_parallelLoops.mpr (.inr (.inr hi))]

/-- The first tile of the shrink loop, from its slots. -/
theorem IsStart.tiles_eq (h : analysis.WellFormed) {config : LoweringConfig} {s₀ : ShrinkState}
    (hs₀ : IsStart target analysis config s₀) :
    s₀.dtcmTileSizes = firstTile (maxParallelTileSize target analysis.rootTilingOp)
      analysis.classification analysis.staticLoopRanges (s₀.slots analysis.classification) := by
  refine ext_getD (by rw [hs₀.length_eq]; simp [firstTile]) fun i => ?_
  by_cases hi : i < analysis.staticLoopRanges.length
  · obtain ⟨p, hp, rfl⟩ := (mem_slots h.partitions s₀).mpr hi
    rw [hs₀.tile p hp, firstTile, List.getD_eq_getElem (List.map _ _) _ (by simpa using hi),
      List.getElem_map, List.getElem_range, alignmentAt_eq (slots_nodup h.partitions s₀) hp]
  · rw [List.getD_eq_default _ _ (by rw [hs₀.length_eq]; omega),
      List.getD_eq_default _ _ (by simp [firstTile]; omega)]

/-- **The first tile of the shrink loop**, from the register tiles. -/
theorem tiles_eq (h : analysis.WellFormed) {s₀ : ShrinkState}
    (hs₀ : IsStart target analysis (registerConfig target analysis vw alignments) s₀) :
    s₀.dtcmTileSizes = firstTile (maxParallelTileSize target analysis.rootTilingOp)
      analysis.classification analysis.staticLoopRanges
      (registerSlots analysis.classification (tileOf target analysis vw alignments)
        (reductionTile analysis.staticLoopRanges alignments)) := by
  rw [← slots_eq h hs₀]
  exact hs₀.tiles_eq h

/-- The tiles of every list are limited to the alignment of the list. -/
theorem limited_registerSlots (target : Target) (vw : Int) (alignments : Alignments)
    (h : analysis.WellFormed) {p : Slot}
    (hp : p ∈ registerSlots analysis.classification (tileOf target analysis vw alignments)
      (reductionTile analysis.staticLoopRanges alignments)) :
    (p.1 ∈ analysis.classification.parallelLoops
      ∧ (tileOf target analysis vw alignments p.1 ≤ 1
        ∨ tileOf target analysis vw alignments p.1
          = min (analysis.staticLoopRanges.getD p.1 0) p.2))
    ∨ (p.1 ∈ analysis.classification.reductionLoops
      ∧ (reductionTile analysis.staticLoopRanges alignments p.1 ≤ 1
        ∨ reductionTile analysis.staticLoopRanges alignments p.1
          = min (analysis.staticLoopRanges.getD p.1 0) p.2)) := by
  obtain ⟨hvub, -, -⟩ := List.nodup_append.mp h.nodup
  obtain ⟨hvu, -, hdb⟩ := List.nodup_append.mp hvub
  obtain ⟨-, -, hdu⟩ := List.nodup_append.mp hvu
  simp only [registerSlots, List.mem_append, List.mem_map] at hp
  rcases hp with ((⟨i, hi, rfl⟩ | ⟨i, hi, rfl⟩) | ⟨i, hi, rfl⟩) | ⟨i, hi, rfl⟩
  · exact .inl ⟨mem_parallelLoops.mpr (.inl hi), limited_vectorLoops.largestTile i hi⟩
  · refine .inl ⟨mem_parallelLoops.mpr (.inr (.inl hi)), ?_⟩
    exact (limited_unrollLoops fun j hj hc => hdu j hc j hj rfl).largestTile i hi
  · refine .inl ⟨mem_parallelLoops.mpr (.inr (.inr hi)), ?_⟩
    exact (limited_batchLoops (fun j hj hc => hdb j (List.mem_append_left _ hc) j hj rfl)
      fun j hj hc => hdb j (List.mem_append_right _ hc) j hj rfl).largestTile i hi
  · exact .inr ⟨hi, limited_reductionLoops.largestTile i hi⟩

end Start

/-! ### One loop -/

/-- A tile that is limited to the alignment divides the aligned extent. -/
theorem dvd_alignedExtent {r a range : Int} (hr : 0 < r)
    (hlimited : r ≤ 1 ∨ r = min range a) : r ∣ alignedExtent a range := by
  rcases hlimited with hone | heq
  · obtain rfl : r = 1 := by omega
    exact one_dvd _
  · unfold alignedExtent
    by_cases hle : range ≤ a
    · rw [if_pos hle, heq, min_eq_left hle]
    · rw [if_neg hle, heq, min_eq_right (by omega)]
      exact Dvd.intro_left _ rfl

/-- A tile that is limited to the alignment divides a halved tile. -/
theorem dvd_of_halved {r a range u t : Int} (hr : 0 < r)
    (hlimited : r ≤ 1 ∨ r = min range a) (hu : u ≤ range) (hlong : 2 * a ≤ u) (hdvd : a ∣ t) :
    r ∣ t := by
  rcases hlimited with hone | heq
  · obtain rfl : r = 1 := by omega
    exact one_dvd _
  · rw [heq, min_eq_right (by omega)]
    exact hdvd

/-! ### The exit state of the shrink loop -/

section Exit

variable {target : Target} {analysis : TilingAnalysis} {vw : Int} {alignments : Alignments}
  {config : LoweringConfig} {s₀ : ShrinkState}

/-- Before the fallback the loop is in its halving sequence. -/
def InSequence (loops : LoopClassification) (s₀ s : ShrinkState) : Prop :=
  s.fallback = false → ∃ k, halvings (s₀.slots loops) s₀.dtcmTileSizes k = some s.dtcmTileSizes

theorem inSequence_step (hs₀ : IsStart target analysis config s₀) {s s' : ShrinkState}
    (hs : ShrinkPhase analysis.classification analysis.staticLoopRanges s₀ s)
    (hin : InSequence analysis.classification s₀ s)
    (hstep : shrinkOnce analysis.classification analysis.staticLoopRanges s = .ok s') :
    InSequence analysis.classification s₀ s' := by
  rcases shrinkOnce_ok (hs.aligned_state hs₀) hstep with ⟨tiles, hhalve, rfl⟩ | ⟨-, -, rfl⟩
  · intro hfalse
    cases hs with
    | aligned hh =>
      obtain ⟨k, hk⟩ := hin hfalse
      exact ⟨k + 1, halvings_succ_eq_some.mpr ⟨_, hk, hhalve⟩⟩
    | fallback hh => cases hfalse
  · intro hfalse
    cases hfalse

/-- Before the `k`-th vector of the halving sequence, and before the fallback. -/
def Before (loops : LoopClassification) (s₀ : ShrinkState) (k : Nat) (s : ShrinkState) : Prop :=
  s.fallback = false
    ∧ ∃ j ≤ k, halvings (s₀.slots loops) s₀.dtcmTileSizes j = some s.dtcmTileSizes

/-- A loop that would stop at the `k`-th vector of the sequence does not get past it. -/
theorem before_step (hs₀ : IsStart target analysis config s₀) {isOver : List Int → Except Failure Bool}
    {k : Nat} {t : List Int}
    (hk : halvings (s₀.slots analysis.classification) s₀.dtcmTileSizes k = some t)
    (hfits : isOver t ≠ .ok true) {s s' : ShrinkState}
    (hs : ShrinkPhase analysis.classification analysis.staticLoopRanges s₀ s)
    (hbefore : Before analysis.classification s₀ k s) (hover : isOver s.dtcmTileSizes = .ok true)
    (hstep : shrinkOnce analysis.classification analysis.staticLoopRanges s = .ok s') :
    Before analysis.classification s₀ k s' := by
  obtain ⟨hfalse, j, hjk, hj⟩ := hbefore
  have hlt : j < k := by
    rcases Nat.lt_or_eq_of_le hjk with hlt | rfl
    · exact hlt
    · rw [hj] at hk
      exact absurd (Option.some.inj hk ▸ hover) hfits
  obtain ⟨w, hw⟩ := halvings_succ_isSome hlt hj hk
  rcases shrinkOnce_ok (hs.aligned_state hs₀) hstep with ⟨tiles, hhalve, rfl⟩ | ⟨hnone, -, rfl⟩
  · cases hs with
    | aligned hh => exact ⟨hfalse, j + 1, hlt, halvings_succ_eq_some.mpr ⟨_, hj, hhalve⟩⟩
    | fallback hh => cases hfalse
  · -- the sequence goes on, so this is not the time to fall back
    cases hs with
    | aligned hh =>
      rw [ShrinkState.slots_with_tiles, hw] at hnone
      cases hnone
    | fallback hh => cases hfalse

/-- The register tile of a loop in a configuration the DTCM pass did not fall back from. -/
theorem register_of_not_fallback (target : Target) (vw : Int) (alignments : Alignments)
    (h : analysis.WellFormed) {s : ShrinkState}
    (hfalse : s.fallback = false) {i : Nat} (hi : i < analysis.staticLoopRanges.length) :
    ((dtcmConfig analysis (registerConfig target analysis vw alignments) s).getStaticTilingLevelSizes
        .vectorCommonParallelTiles).getD i 0
      = (if i ∈ analysis.classification.parallelLoops then tileOf target analysis vw alignments i
          else 0)
    ∧ ((dtcmConfig analysis (registerConfig target analysis vw alignments) s).getStaticTilingLevelSizes
        .vectorReductionTiles).getD i 0
      = if i ∈ analysis.classification.reductionLoops
          then reductionTile analysis.staticLoopRanges alignments i else 0 := by
  rw [dtcmConfig_get_vectorCommonParallelTiles, dtcmConfig_get_vectorReductionTiles, hfalse]
  exact ⟨getD_registerParallelSizes h.nodup hi, getD_registerReductionSizes hi⟩

/-- **After the fallback** every register tile is 1, so every cache tile is whole. -/
theorem cacheTilesWhole_of_fallback (h : analysis.WellFormed)
    (hs₀ : IsStart target analysis config s₀) {s : ShrinkState}
    (hs : ShrinkPhase analysis.classification analysis.staticLoopRanges s₀ s)
    (htrue : s.fallback = true) (config' : LoweringConfig) :
    CacheTilesWhole analysis.staticLoopRanges.length (dtcmConfig analysis config' s) := by
  unfold CacheTilesWhole WholeTiles
  rw [dtcmConfig_get_vectorCommonParallelTiles, dtcmConfig_get_vectorReductionTiles,
    dtcmConfig_get_cacheParallelTiles, dtcmConfig_get_cacheReductionTiles, htrue]
  simp only [if_true]
  constructor
  · intro i hi hpos
    have htile := (hs.tile_spec hs₀ h hi).1
    rw [getD_fallbackParallelSizes hi] at hpos ⊢
    rw [getD_cacheParallelSizes _ _ hi]
    by_cases hcapped : analysis.classification.IsCapped i
    · have hpar : i ∈ analysis.classification.parallelLoops := by
        rw [mem_parallelLoops]
        exact hcapped.elim .inl fun hu => .inr (.inl hu)
      rw [if_pos hcapped, if_pos hpar, min_eq_right htile]
      exact ⟨by omega, one_dvd _⟩
    · rw [if_neg hcapped] at hpos
      omega
  · intro i hi hpos
    have htile := (hs.tile_spec hs₀ h hi).1
    rw [getD_fallbackReductionSizes hi] at hpos ⊢
    rw [getD_cacheReductionSizes _ _ hi]
    by_cases hred : i ∈ analysis.classification.reductionLoops
    · rw [if_pos hred, if_pos hred, min_eq_right htile]
      exact ⟨by omega, one_dvd _⟩
    · rw [if_neg hred] at hpos
      omega

/-- **One loop without fallback.** Its cache tile is whole, unless it still has a cap that
    is no multiple of its register tile. -/
theorem dvd_tile (h : analysis.WellFormed)
    (hs₀ : IsStart target analysis config s₀) {tiles : List Int}
    (hh : Halved (s₀.slots analysis.classification) s₀.dtcmTileSizes tiles) {p : Slot}
    (hp : p ∈ s₀.slots analysis.classification) {r : Int} (hr : 0 < r)
    (hlimited : r ≤ 1 ∨ r = min (analysis.staticLoopRanges.getD p.1 0) p.2)
    (hcap : analysis.classification.IsCapped p.1 →
      maxParallelTileSize target analysis.rootTilingOp
        < alignedExtent p.2 (analysis.staticLoopRanges.getD p.1 0) →
      ¬ r ∣ maxParallelTileSize target analysis.rootTilingOp →
      tiles.getD p.1 0 ≠ s₀.dtcmTileSizes.getD p.1 0) :
    r ∣ tiles.getD p.1 0 := by
  have hlt := slots_lt h.partitions s₀ p hp
  have hle := (hs₀.tile_spec h hlt).2
  by_cases hkept : tiles.getD p.1 0 = s₀.dtcmTileSizes.getD p.1 0
  · -- the loop has its first tile: the aligned range, or the cap
    rw [hkept, hs₀.tile p hp]
    unfold startTile
    by_cases hcapped : analysis.classification.IsCapped p.1
    · rw [if_pos hcapped]
      by_cases hsmall : alignedExtent p.2 (analysis.staticLoopRanges.getD p.1 0)
          ≤ maxParallelTileSize target analysis.rootTilingOp
      · rw [min_eq_left hsmall]
        exact dvd_alignedExtent hr hlimited
      · rw [min_eq_right (by omega)]
        by_contra hndvd
        exact hcap hcapped (by omega) hndvd hkept
    · rw [if_neg hcapped]
      exact dvd_alignedExtent hr hlimited
  · rcases hh.slot p hp with heq | ⟨hdvd, -, hlong, -⟩
    · exact absurd heq hkept
    · exact dvd_of_halved hr hlimited hle hlong hdvd

/-- A loop that still has a first tile that is the cap has the cap in every state on the way. -/
theorem cap_kept (h : analysis.WellFormed) (hs₀ : IsStart target analysis config s₀) {p : Slot}
    (hp : p ∈ s₀.slots analysis.classification) (hcapped : analysis.classification.IsCapped p.1)
    (hbig : maxParallelTileSize target analysis.rootTilingOp
      < alignedExtent p.2 (analysis.staticLoopRanges.getD p.1 0)) {j k : Nat} {tiles t : List Int}
    (hjk : j ≤ k) (hj : halvings (s₀.slots analysis.classification) s₀.dtcmTileSizes j = some tiles)
    (hk : halvings (s₀.slots analysis.classification) s₀.dtcmTileSizes k = some t)
    (hkept : t.getD p.1 0 = s₀.dtcmTileSizes.getD p.1 0) :
    tiles.getD p.1 0 = maxParallelTileSize target analysis.rootTilingOp := by
  have hanti := halvings_anti (ShrinkState.one_le_of_mem_slots hs₀.aligned) hjk hj hk p.1
  have hh := halved_of_halvings (slots_nodup h.partitions s₀)
    (ShrinkState.one_le_of_mem_slots hs₀.aligned)
    (fun q hq => by rw [hs₀.length_eq]; exact slots_lt h.partitions s₀ q hq) hj
  have hfirst := hs₀.tile p hp
  rw [startTile, if_pos hcapped, min_eq_right hbig.le] at hfirst
  have hle := hh.le hp
  omega

/-- **Without fallback** the cache tiles are whole, if no loop still has a harmful cap. -/
theorem cacheTilesWhole_of_halved (h : analysis.WellFormed)
    (hs₀ : IsStart target analysis (registerConfig target analysis vw alignments) s₀)
    {s : ShrinkState} (hs : ShrinkPhase analysis.classification analysis.staticLoopRanges s₀ s)
    (hfalse : s.fallback = false)
    (hh : Halved (s₀.slots analysis.classification) s₀.dtcmTileSizes s.dtcmTileSizes)
    (hnot : ∀ p ∈ s₀.slots analysis.classification,
      BadCap (maxParallelTileSize target analysis.rootTilingOp) analysis.classification
        analysis.staticLoopRanges (tileOf target analysis vw alignments) p →
      s.dtcmTileSizes.getD p.1 0 ≠ s₀.dtcmTileSizes.getD p.1 0) :
    CacheTilesWhole analysis.staticLoopRanges.length
      (dtcmConfig analysis (registerConfig target analysis vw alignments) s) := by
  have hslots := slots_eq h hs₀
  refine ⟨fun i hi hpos => ?_, fun i hi hpos => ?_⟩
  · have hr := (register_of_not_fallback target vw alignments h hfalse hi).1
    rw [hr] at hpos ⊢
    have hpar : i ∈ analysis.classification.parallelLoops := by
      by_contra hc
      rw [if_neg hc] at hpos
      omega
    rw [if_pos hpar] at hpos ⊢
    rw [dtcmConfig_get_cacheParallelTiles, getD_cacheParallelSizes _ _ hi, if_pos hpar]
    have htile := (hs.tile_spec hs₀ h hi).1
    refine ⟨by omega, ?_⟩
    obtain ⟨p, hp, rfl⟩ := (mem_slots h.partitions s₀).mpr hi
    have hlim := limited_registerSlots target vw alignments h (hslots ▸ hp)
    have hnred : p.1 ∉ analysis.classification.reductionLoops := fun hc =>
      (List.nodup_append.mp h.nodup).2.2 p.1 hpar p.1 hc rfl
    exact dvd_tile h hs₀ hh hp hpos (hlim.resolve_right fun hc => hnred hc.1).2
      fun hcapped hbig hndvd => hnot p hp ⟨hcapped, hbig, hndvd⟩
  · have hr := (register_of_not_fallback target vw alignments h hfalse hi).2
    rw [hr] at hpos ⊢
    have hred : i ∈ analysis.classification.reductionLoops := by
      by_contra hc
      rw [if_neg hc] at hpos
      omega
    rw [if_pos hred] at hpos ⊢
    rw [dtcmConfig_get_cacheReductionTiles, getD_cacheReductionSizes _ _ hi, if_pos hred]
    have htile := (hs.tile_spec hs₀ h hi).1
    refine ⟨by omega, ?_⟩
    obtain ⟨p, hp, rfl⟩ := (mem_slots h.partitions s₀).mpr hi
    have hlim := limited_registerSlots target vw alignments h (hslots ▸ hp)
    have hnpar : p.1 ∉ analysis.classification.parallelLoops := fun hc =>
      (List.nodup_append.mp h.nodup).2.2 p.1 hc p.1 hred rfl
    -- a reduction loop has no cap
    exact dvd_tile h hs₀ hh hp hpos (hlim.resolve_left fun hc => hnpar hc.1).2 fun hcapped =>
      absurd (mem_parallelLoops.mpr (hcapped.elim .inl fun hu => .inr (.inl hu))) hnpar

end Exit

/-! ### The passes -/

section Pass

variable {target : Target} {options : RegisterOptions} {analysis : TilingAnalysis}
  {vw : Int} {alignments : Alignments}

/-- The register tile of a capped loop is positive. -/
theorem tileOf_pos (h : analysis.WellFormed) (hoptions : options.NonNegative) (hvw : 1 ≤ vw)
    (hal : registerAlignments target options analysis vw = .ok alignments) {i : Nat}
    (hi : i < analysis.staticLoopRanges.length) (hcapped : analysis.classification.IsCapped i) :
    0 < tileOf target analysis vw alignments i := by
  have hrange := h.one_le_range i hi
  have hpos := (registerAlignments_pos hoptions hvw hal).1
  unfold tileOf registerTile
  by_cases hempty : analysis.classification.unrollLoops.isEmpty
  · simp only [hempty, if_true]
    split
    · exact lt_min (by omega) (by omega)
    · norm_num
  · obtain ⟨hv, hu⟩ := hpos (by simpa using hempty)
    simp only [hempty, Bool.false_eq_true, if_false]
    split
    · exact lt_min (by omega) (by omega)
    · rename_i hnv
      have hmem : i ∈ analysis.classification.unrollLoops := hcapped.resolve_left hnv
      rw [if_pos hmem]
      unfold unrollTile
      split
      · norm_num
      · exact lt_min (by omega) (by omega)

variable {dispatch d₁ d₂ : Dispatch} {root : RootOp}

/-- **The register pass** sets exactly the two vector levels. -/
theorem registerPass_ok (h : dispatch.Admits target root analysis)
    (hpass : registerPass options dispatch = .ok d₁) :
    ∃ vw alignments info, vectorWidth (vlenBits target options) analysis.elemSizeBytes = .ok vw
      ∧ registerAlignments target options analysis vw = .ok alignments
      ∧ d₁ = { dispatch with compilationInfo := some info }
      ∧ info.loweringConfig = registerConfig target analysis vw alignments := by
  unfold registerPass at hpass
  rw [runOnRoot_of_admits h] at hpass
  obtain ⟨info, hinfo, hd⟩ := bind_eq_ok.mp hpass
  obtain ⟨vw, alignments, hvw, hal, hconfig⟩ := selectRegisterTiles_ok hinfo
  exact ⟨vw, alignments, info, hvw, hal, (Except.ok.inj hd).symm, hconfig⟩

/-- With a vector width and alignments, the register pass succeeds. -/
theorem registerPass_of_alignments (h : dispatch.Admits target root analysis) {vw : Int}
    (hvw : vectorWidth (vlenBits target options) analysis.elemSizeBytes = .ok vw)
    {alignments : Alignments} (hal : registerAlignments target options analysis vw = .ok alignments) :
    ∃ info, registerPass options dispatch = .ok { dispatch with compilationInfo := some info }
      ∧ info.loweringConfig = registerConfig target analysis vw alignments := by
  refine ⟨⟨registerConfig target analysis vw alignments,
    if isReverseOp analysis.rootTilingOp then .cpuDefault else .cpuDoubleTilingExpert⟩, ?_, rfl⟩
  unfold registerPass
  rw [runOnRoot_of_admits h, selectRegisterTiles, hvw, ok_bind, hal]
  rfl

theorem Dispatch.Admits.with_info (h : dispatch.Admits target root analysis)
    (info : Option CompilationInfo) :
    ({ dispatch with compilationInfo := info } : Dispatch).Admits target root analysis :=
  ⟨h.1, h.2, h.3, h.4, h.5⟩

/-- **A run of the DTCM pass** that succeeds ends in a state that is within the budget, and that has
    what every step of the shrink loop keeps. -/
theorem dtcmPass_run {normalize : Int → Int} {getBound : BoundFn} {limit : Int}
    (h : dispatch.Admits target root analysis) {info₁ info : CompilationInfo} {s₀ : ShrinkState}
    (hinit : initialShrinkState target analysis info₁.loweringConfig = .ok s₀)
    (hs₀ : IsStart target analysis info₁.loweringConfig s₀)
    (hpass : dtcmPassWithLimit normalize getBound limit
      { dispatch with compilationInfo := some info₁ } = .ok d₂)
    (hinfo : d₂.compilationInfo = some info) (J : ShrinkState → Prop) (hJ₀ : J s₀)
    (hJ : ∀ s s', ShrinkPhase analysis.classification analysis.staticLoopRanges s₀ s → J s →
      isOverBudget normalize getBound root limit s.dtcmTileSizes = .ok true →
      shrinkOnce analysis.classification analysis.staticLoopRanges s = .ok s' → J s') :
    ∃ s, ShrinkPhase analysis.classification analysis.staticLoopRanges s₀ s ∧ J s
      ∧ isOverBudget normalize getBound root limit s.dtcmTileSizes = .ok false
      ∧ info.loweringConfig = dtcmConfig analysis info₁.loweringConfig s := by
  have hwf := tilingAnalysis_wellFormed h.analysis_eq h.one_le_range
  obtain ⟨hroot, -, -, -⟩ := tilingAnalysis_ok h.analysis_eq
  have hcases := selectCacheTiles_cases hwf normalize getBound limit info₁ target hs₀ hinit J hJ₀
    (by rw [hroot]; exact hJ)
  rw [hroot] at hcases
  obtain ⟨s, hs, hJs, hcases⟩ := hcases
  unfold dtcmPassWithLimit at hpass
  rw [runOnRoot_of_admits (h.with_info _)] at hpass
  obtain ⟨info', hselect, hd⟩ := bind_eq_ok.mp hpass
  rcases hcases with ⟨hover, hok⟩ | ⟨e, -, herror⟩ | ⟨-, -, herror⟩
  · rw [hok] at hselect
    obtain rfl := Except.ok.inj hselect
    obtain rfl := Except.ok.inj hd
    obtain rfl := Option.some.inj hinfo
    exact ⟨s, hs, hJs, hover, rfl⟩
  · rw [herror] at hselect
    cases hselect
  · rw [herror] at hselect
    cases hselect

/-- The condition, in terms of the state the shrink loop starts in. -/
theorem capHarmless_start (h : dispatch.Admits target root analysis) {s₀ : ShrinkState}
    (hs₀ : IsStart target analysis (registerConfig target analysis vw alignments) s₀)
    (isOver : List Int → Except Failure Bool) :
    CapHarmless isOver (maxParallelTileSize target root) analysis.classification
        analysis.staticLoopRanges (tileOf target analysis vw alignments)
        (reductionTile analysis.staticLoopRanges alignments) ↔
      ∀ p ∈ s₀.slots analysis.classification,
        BadCap (maxParallelTileSize target analysis.rootTilingOp) analysis.classification
          analysis.staticLoopRanges (tileOf target analysis vw alignments) p →
        ∀ k t, halvings (s₀.slots analysis.classification) s₀.dtcmTileSizes k = some t →
          t.getD p.1 0 = s₀.dtcmTileSizes.getD p.1 0 → isOver t = .ok true := by
  have hwf := tilingAnalysis_wellFormed h.analysis_eq h.one_le_range
  rw [slots_eq hwf hs₀, tiles_eq hwf hs₀, (tilingAnalysis_ok h.analysis_eq).1]
  rfl

/-- A harmful cap that could stay does stay. -/
theorem overBudget_of_cacheTilesWhole {normalize : Int → Int} {getBound : BoundFn} {limit : Int}
    (h : dispatch.Admits target root analysis) (hoptions : options.NonNegative) (hvw : 1 ≤ vw)
    (hal : registerAlignments target options analysis vw = .ok alignments)
    {info₁ info : CompilationInfo}
    (hconfig : info₁.loweringConfig = registerConfig target analysis vw alignments)
    {s₀ : ShrinkState} (hinit : initialShrinkState target analysis info₁.loweringConfig = .ok s₀)
    (hs₀ : IsStart target analysis info₁.loweringConfig s₀)
    (hpass : dtcmPassWithLimit normalize getBound limit
      { dispatch with compilationInfo := some info₁ } = .ok d₂)
    (hinfo : d₂.compilationInfo = some info)
    (hwhole : CacheTilesWhole analysis.staticLoopRanges.length info.loweringConfig) {p : Slot}
    (hp : p ∈ s₀.slots analysis.classification)
    (hbad : BadCap (maxParallelTileSize target analysis.rootTilingOp) analysis.classification
      analysis.staticLoopRanges (tileOf target analysis vw alignments) p) {k : Nat} {t : List Int}
    (hk : halvings (s₀.slots analysis.classification) s₀.dtcmTileSizes k = some t)
    (hkept : t.getD p.1 0 = s₀.dtcmTileSizes.getD p.1 0) :
    isOverBudget normalize getBound root limit t = .ok true := by
  have hwf := tilingAnalysis_wellFormed h.analysis_eq h.one_le_range
  obtain ⟨hcapped, hbig, hndvd⟩ := hbad
  by_contra hfits
  obtain ⟨s, -, ⟨hfalse, j, hjk, hj⟩, -, hconfig₂⟩ := dtcmPass_run h hinit hs₀ hpass hinfo
    (Before analysis.classification s₀ k) ⟨hs₀.fallback, 0, Nat.zero_le k, rfl⟩
    fun s s' hs hb hover hstep => before_step hs₀ hk hfits hs hb hover hstep
  have hi := slots_lt hwf.partitions s₀ p hp
  have hpar : p.1 ∈ analysis.classification.parallelLoops :=
    mem_parallelLoops.mpr (hcapped.elim .inl fun hu => .inr (.inl hu))
  have htile := cap_kept hwf hs₀ hp hcapped hbig hjk hj hk hkept
  have hr := (register_of_not_fallback target vw alignments hwf hfalse hi).1
  rw [if_pos hpar] at hr
  rw [hconfig₂, hconfig] at hwhole
  have hdvd := (hwhole.1 p.1 hi (by rw [hr]; exact tileOf_pos hwf hoptions hvw hal hi hcapped)).2
  rw [hr, dtcmConfig_get_cacheParallelTiles, getD_cacheParallelSizes _ _ hi, if_pos hpar, htile] at hdvd
  exact hndvd hdvd

/-- **Whole cache tiles.** The cache tiles that the two passes agree on are whole numbers of
    register tiles exactly when no harmful cap survives the shrink loop. -/
theorem cacheTilesWhole_iff {normalize : Int → Int} {getBound : BoundFn}
    (h : dispatch.Admits target root analysis) (hoptions : options.NonNegative) (limit : Int)
    (h₁ : registerPass options dispatch = .ok d₁)
    (h₂ : dtcmPassWithLimit normalize getBound limit d₁ = .ok d₂) {info : CompilationInfo}
    (hinfo : d₂.compilationInfo = some info) :
    CacheTilesWhole root.getStaticLoopRanges.length info.loweringConfig ↔
      ∀ vw alignments, vectorWidth (vlenBits target options) analysis.elemSizeBytes = .ok vw →
        registerAlignments target options analysis vw = .ok alignments →
        CapHarmless (isOverBudget normalize getBound root limit) (maxParallelTileSize target root)
          analysis.classification analysis.staticLoopRanges
          (tileOf target analysis vw alignments)
          (reductionTile analysis.staticLoopRanges alignments) := by
  have hwf := tilingAnalysis_wellFormed h.analysis_eq h.one_le_range
  obtain ⟨-, -, hranges, -⟩ := tilingAnalysis_ok h.analysis_eq
  obtain ⟨vw, alignments, info₁, hvw, hal, rfl, hconfig⟩ := registerPass_ok h h₁
  obtain ⟨s₀, hinit, hs₀⟩ := initialShrinkState_ok hwf.partitions target info₁.loweringConfig
  have hstart := hs₀
  rw [hconfig] at hstart
  have hharmless := capHarmless_start h hstart (isOverBudget normalize getBound root limit)
  rw [show root.getStaticLoopRanges.length = analysis.staticLoopRanges.length by rw [hranges]]
  constructor
  · intro hwhole vw' alignments' hvw' hal'
    obtain rfl := Except.ok.inj (hvw.symm.trans hvw')
    obtain rfl := Except.ok.inj (hal.symm.trans hal')
    exact hharmless.mpr fun p hp hbad k t hk hkept => overBudget_of_cacheTilesWhole h hoptions
      (vectorWidth_pos hvw) hal hconfig hinit hs₀ h₂ hinfo hwhole hp hbad hk hkept
  · -- without a harmful cap every tile is whole
    intro hall
    obtain ⟨s, hs, hin, hover, hconfig₂⟩ := dtcmPass_run h hinit hs₀ h₂ hinfo
      (InSequence analysis.classification s₀) (fun _ => ⟨0, rfl⟩)
      fun s s' hs hin _ hstep => inSequence_step hs₀ hs hin hstep
    rw [hconfig₂]
    by_cases htrue : s.fallback = true
    · exact cacheTilesWhole_of_fallback hwf hs₀ hs htrue _
    · have hfalse : s.fallback = false := Bool.eq_false_iff.mpr htrue
      obtain ⟨k, hk⟩ := hin hfalse
      have hh := halved_of_halvings (slots_nodup hwf.partitions s₀)
        (ShrinkState.one_le_of_mem_slots hs₀.aligned)
        (fun q hq => by rw [hs₀.length_eq]; exact slots_lt hwf.partitions s₀ q hq) hk
      rw [hconfig]
      refine cacheTilesWhole_of_halved hwf hstart hs hfalse hh fun p hp hbad hkept => ?_
      have hfits := hharmless.mp (hall vw alignments hvw hal) p hp hbad k _ hk hkept
      rw [hover] at hfits
      cases hfits

end Pass

instance (n : Nat) (register cache : List Int) : Decidable (WholeTiles n register cache) :=
  inferInstanceAs (Decidable (∀ i < n, 0 < register.getD i 0 →
    0 < cache.getD i 0 ∧ register.getD i 0 ∣ cache.getD i 0))

instance (n : Nat) (config : LoweringConfig) : Decidable (CacheTilesWhole n config) :=
  inferInstanceAs (Decidable (_ ∧ _))

/-- The cache tiles of `smallMatmul` in 8 KiB. -/
def smallMatmulCacheInfo : CompilationInfo :=
  { loweringConfig :=
      [(.vectorCommonParallelTiles, [4, 24, 0]), (.vectorReductionTiles, [0, 0, 1]),
        (.cacheParallelTiles, [4, 16, 0]), (.cacheReductionTiles, [0, 0, 32])]
    translationInfo := .cpuDoubleTilingExpert }

/-- The matmul of the register tile 4 x 24 x 1: its cache tile is capped at 16, below and no
    multiple of 24. -/
theorem cacheTiles_not_whole :
    registerPass {} (dispatchOf none smallMatmul)
        = .ok { dispatchOf none smallMatmul with compilationInfo := some smallMatmulInfo }
      ∧ dtcmPass toInt64 dimBound 8
          { dispatchOf none smallMatmul with compilationInfo := some smallMatmulInfo }
        = .ok { dispatchOf none smallMatmul with compilationInfo := some smallMatmulCacheInfo }
      ∧ ¬ CacheTilesWhole 3 smallMatmulCacheInfo.loweringConfig := by
  refine ⟨?_, ?_, ?_⟩ <;> decide +kernel

/-- The criterion at that matmul. -/
theorem cacheTilesWhole_iff_smallMatmul :
    CacheTilesWhole 3 smallMatmulCacheInfo.loweringConfig ↔
      ∀ vw alignments, vectorWidth 128 4 = .ok vw →
        registerAlignments plainTarget {} smallMatmulAnalysis vw = .ok alignments →
        CapHarmless (isOverBudget toInt64 dimBound smallMatmul 8192) 16
          (classifyLoops smallMatmul) [4, 24, 32]
          (tileOf plainTarget smallMatmulAnalysis vw alignments)
          (reductionTile [4, 24, 32] alignments) :=
  @cacheTilesWhole_iff plainTarget {} smallMatmulAnalysis (dispatchOf none smallMatmul)
    { dispatchOf none smallMatmul with compilationInfo := some smallMatmulInfo }
    { dispatchOf none smallMatmul with compilationInfo := some smallMatmulCacheInfo }
    smallMatmul toInt64 dimBound ⟨rfl, rfl, rfl, by decide, by decide⟩
    ⟨by decide, by decide, by decide, by decide⟩ 8192 (by decide +kernel) (by decide +kernel)
    smallMatmulCacheInfo rfl

/-! ### One tile for each loop -/

/-- **A single test.** With unbounded arithmetic and exact bounds, a cap is harmless when the
    smallest tile that keeps it is over budget: the loops visited before are at their floor,
    and so are all others if the capped loop is too short to be halved. -/
theorem capHarmless_iff {getBound : BoundFn} {root : RootOp} (hexact : ExactBounds getBound root)
    (hstatic : root.HasStaticShapes) (limit : Int) {cap : Int} (hcap : 1 ≤ cap)
    {analysis : TilingAnalysis} (h : analysis.WellFormed)
    (hranges : analysis.staticLoopRanges = root.getStaticLoopRanges) (tile redTile : Nat → Int) :
    let slots := registerSlots analysis.classification tile redTile
    let first := firstTile cap analysis.classification analysis.staticLoopRanges slots
    CapHarmless (isOverBudget id getBound root limit) cap analysis.classification
        analysis.staticLoopRanges tile redTile ↔
      ∀ p ∈ slots, BadCap cap analysis.classification analysis.staticLoopRanges tile p →
        isOverBudget id getBound root limit (lowestKeeping slots first p) = .ok true := by
  intro slots first
  have hfst : slots.map (·.1) = analysis.classification.allLoops := by
    simp [slots, registerSlots, LoopClassification.allLoops, Function.comp_def]
  have hnodup : (slots.map (·.1)).Nodup := hfst ▸ h.nodup
  have hpos : ∀ p ∈ slots, 1 ≤ p.2 := by
    intro p hp
    simp only [slots, registerSlots, List.mem_append, List.mem_map] at hp
    rcases hp with ((⟨_, _, rfl⟩ | ⟨_, _, rfl⟩) | ⟨_, _, rfl⟩) | ⟨_, _, rfl⟩ <;>
      exact (largestTile_spec _ _).1
  have hlen : first.length = analysis.staticLoopRanges.length := by simp [first, firstTile]
  have hslot : ∀ p ∈ slots, p.1 < first.length := by
    intro p hp
    rw [hlen, ← h.mem_allLoops, ← hfst]
    exact List.mem_map_of_mem hp
  have hfirst : ∀ k < first.length, 1 ≤ first.getD k 0 := by
    intro k hk
    rw [List.getD_eq_getElem _ _ hk]
    simp only [first, firstTile, List.getElem_map, List.getElem_range]
    refine (startTile_spec hcap _ ?_ (h.one_le_range k (hlen ▸ hk))).1
    have hmem : k ∈ slots.map (·.1) := by rw [hfst, h.mem_allLoops]; exact hlen ▸ hk
    obtain ⟨p, hp, rfl⟩ := List.mem_map.mp hmem
    rw [alignmentAt_eq hnodup hp]
    exact hpos p hp
  constructor
  · -- the smallest tile that keeps the cap is in the sequence
    intro hharmless p hp hbad
    obtain ⟨j, hj⟩ := halvings_lowestKeeping hnodup hpos hslot hp (k := 0) rfl rfl
    exact hharmless p hp hbad j _ hj (getD_lowestKeeping_self hnodup hp (hslot p hp))
  · -- every tile of the sequence that keeps the cap is above it
    intro hlowest p hp hbad k t hk hkept
    have hh := halved_of_halvings hnodup hpos hslot hk
    have hlowlen : (lowestKeeping slots first p).length = first.length :=
      length_lowestKeeping _ _ _
    refine isOverBudget_mono hexact hstatic ⟨by rw [hlowlen, hh.length_eq], ?_, ?_⟩
      (by rw [hlowlen, hlen, hranges]) limit (hlowest p hp hbad)
    · intro i hi
      exact one_le_lowestKeeping hpos hfirst p i (hlowlen ▸ hi)
    · intro i _
      exact hh.lowestKeeping_le hnodup hpos hslot hp hkept i

end CoralNPU.Tiling
