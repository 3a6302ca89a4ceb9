import CoralNPU.Sim.Placement

namespace CoralNPU.Sim

open Lib

/-!
# The device memory when the simulator starts

* `heapRange`, `LoadedOutside` — the heap, and the bytes of loaded segments that belong neither to
  the heap nor to the request.
* `Intact` — every region of a dispatch holds what was written for it, and the regions are apart.
* `intact_iff` — when it does: of all pairs of regions, only the request with the heap, and the
  loaded segments with the bindings, can meet.
-/

variable {wz : Nat}

/-- The heap of the executable. -/
def heapRange (layout : ElfLayout) : Region :=
  ⟨layout.heapStartAddr.toNat, layout.heapEndAddr.toNat - layout.heapStartAddr.toNat⟩

/-- A byte of a loaded segment that belongs neither to the request nor to the heap. -/
def LoadedOutside (file : List UInt8) (layout : ElfLayout) (p : Nat) : Prop :=
  (∃ phdr ∈ loadHeaders file, phdr.Covers p) ∧ ¬ (requestRegion layout).Has p ∧
    ¬ (heapRange layout).Has p

/-- All regions that the host writes. -/
def Placement.regions (place : Placement) (layout : ElfLayout) : List Region :=
  requestRegion layout :: (place.heap ++ place.blocks)

/-- The request of a dispatch. -/
def requestOf (layout : ElfLayout) (state : InlineDispatchState wz)
    (ordinal localMemoryLength : UInt64) (host : Memory) : Request :=
  makeRequest (state.contents host) ordinal.toUInt32
    (UInt32.ofNat (state.plan layout localMemoryLength).constants.first)
    (UInt32.ofNat (state.plan layout localMemoryLength).ptrs.first)
    (UInt32.ofNat (state.plan layout localMemoryLength).lengths.first)
    (UInt32.ofNat (state.plan layout localMemoryLength).localMemory.first)

/-- **The device memory is intact**: every region holds what was written for it, the loaded
    segments are in place, and the regions written for different purposes are apart. -/
structure Intact (file : List UInt8) (device : Memory) (layout : ElfLayout)
    (state : InlineDispatchState wz) (ordinal localMemoryLength : UInt64) (host m : Memory) :
    Prop where
  request : loadRequest m layout.dispatchRequestAddr.toNat
    = requestOf layout state ordinal localMemoryLength host
  constants : loadArray 4 m (state.plan layout localMemoryLength).constants.first
      (constantsOf (state.contents host)).length
    = (constantsOf (state.contents host)).map UInt32.toNat
  localMemory : ∀ p, (state.plan layout localMemoryLength).localMemory.Has p → m p = 0
  bindings : ∀ i range block, state.ranges[i]? = some range →
    (state.plan layout localMemoryLength).blocks[i]? = some block →
    BindingAt m (state.plan layout localMemoryLength).ptrs.first
      (state.plan layout localMemoryLength).lengths.first i block.first (range.binding host)
  loaded : ∀ p, LoadedOutside file layout p → m p = loadedMemory file device p
  apart : ((state.plan layout localMemoryLength).regions layout).Pairwise Region.Apart
  loadedApart : ∀ p, LoadedOutside file layout p →
    ∀ r ∈ (state.plan layout localMemoryLength).regions layout, ¬ r.Has p

/-- A region in the heap keeps to the heap. -/
theorem Within.has_heapRange {layout : ElfLayout} {r : Region}
    (h : Within layout.heapStartAddr.toNat r layout.heapEndAddr.toNat) {p : Nat} (hp : r.Has p) :
    (heapRange layout).Has p := by
  obtain ⟨hlo, hhi⟩ := hp
  obtain ⟨hfirst, hlast⟩ := h (by omega)
  constructor
  · show layout.heapStartAddr.toNat ≤ p
    omega
  · show p < layout.heapStartAddr.toNat
      + (layout.heapEndAddr.toNat - layout.heapStartAddr.toNat)
    omega

/-- The number of rows of the binding tables. -/
theorem length_ranges_le (state : InlineDispatchState wz) :
    state.ranges.length ≤ state.bindingCount.toNat :=
  List.length_take_le _ _

theorem plan_ptrs_length (state : InlineDispatchState wz) (layout : ElfLayout)
    (localMemoryLength : UInt64) :
    (state.plan layout localMemoryLength).ptrs.length = 4 * state.bindingCount.toNat :=
  heapRegion_length _ _ _

theorem plan_lengths_length (state : InlineDispatchState wz) (layout : ElfLayout)
    (localMemoryLength : UInt64) :
    (state.plan layout localMemoryLength).lengths.length = 4 * state.bindingCount.toNat :=
  heapRegion_length _ _ _

theorem plan_constants_length (state : InlineDispatchState wz) (layout : ElfLayout)
    (localMemoryLength : UInt64) :
    (state.plan layout localMemoryLength).constants.length = 4 * state.constantCount.toNat :=
  heapRegion_length _ _ _

/-- Data that is placed stays intact when the request is written apart from it. -/
theorem intact_of_placed {file : List UInt8} {device : Memory} {state : InlineDispatchState wz}
    {ordinal localMemoryLength : UInt64} {host : Memory} {layout : ElfLayout} {m₃ m : Memory}
    (hlayout : checkLayout layout = .ok ())
    (hsize : layout.dispatchRequestSize.toNat = requestSize)
    (hplaced : Placed layout (state.contents host) (state.plan layout localMemoryLength)
      (loadedMemory file device) m₃)
    (hrequest : loadRequest m layout.dispatchRequestAddr.toNat
      = requestOf layout state ordinal localMemoryLength host)
    (hframe : ∀ p, ¬ (requestRegion layout).Has p → m p = m₃ p)
    (hheap : ∀ r ∈ (state.plan layout localMemoryLength).heap, (requestRegion layout).Apart r)
    (hloaded : ∀ p, LoadedOutside file layout p →
      ∀ r ∈ (state.plan layout localMemoryLength).blocks, ¬ r.Has p) :
    Intact file device layout state ordinal localMemoryLength host m := by
  have hblocks : ∀ r ∈ (state.plan layout localMemoryLength).blocks,
      (requestRegion layout).Apart r := fun r hr =>
    requestRegion_apart_blocks hlayout hsize (hplaced.blocks r hr).1
  obtain ⟨-, -, -, hend⟩ := checkLayout_eq_ok hlayout
  have hdtcm : dtcmStart.toNat + dtcmSize.toNat ≤ ddrFirst := by decide
  -- a region apart from the request is as it was
  have hkeep : ∀ r : Region, (requestRegion layout).Apart r → ∀ p, r.Has p → m p = m₃ p :=
    fun r hr p hp => hframe p fun hreq => hr p hreq hp
  have hheap' := hheap
  simp only [Placement.heap, List.forall_mem_cons] at hheap'
  obtain ⟨hc, hp, hl, hm, -⟩ := hheap'
  refine ⟨hrequest, ?_, fun p hp => ?_, fun i range block hi hb => ?_, fun p hp => ?_, ?_,
    fun p hp r hr => ?_⟩
  · have hlength : (constantsOf (state.contents host)).length ≤ state.constantCount.toNat :=
      List.length_take_le _ _
    have hpart := Region.agreeOn_part (hkeep _ hc)
      (k := 4 * (constantsOf (state.contents host)).length) (Nat.le_refl _)
      (by rw [plan_constants_length]; omega)
    rw [hpart.loadArray, hplaced.constants]
  · rw [hkeep _ hm p hp, hplaced.localMemory p hp]
  · have hlt : i < state.bindingCount.toNat :=
      Nat.lt_of_lt_of_le (List.getElem?_eq_some_iff.mp hi).1 (length_ranges_le state)
    have hbinding : (hostBindings (state.contents host))[i]? = some (range.binding host) := by
      rw [hostBindings_contents, List.getElem?_map, hi]
      rfl
    have hlength : range.2.toNat = block.length := by
      have := length_of_getElem?_bump hb
      rw [List.map_map, List.getElem?_map, hi] at this
      exact Option.some.inj this
    apply (hplaced.bindings i _ block hbinding hb).congr
    · exact Region.agreeOn_part (hkeep _ hp) (by omega) (by rw [plan_ptrs_length]; omega)
    · exact Region.agreeOn_part (hkeep _ hl) (by omega) (by rw [plan_lengths_length]; omega)
    · show AgreeOn m m₃ block.first range.2.toNat
      rw [hlength]
      exact Region.agreeOn (hkeep _ (hblocks block (List.mem_of_getElem? hb)))
  · rw [hframe p hp.2.1]
    apply hplaced.frame
    intro r hr
    rcases List.mem_append.mp hr with hr | hr
    · exact fun hhas => hp.2.2 ((hplaced.heap r hr).has_heapRange hhas)
    · exact hloaded p hp r hr
  · refine List.pairwise_cons.mpr ⟨fun r hr => ?_, List.pairwise_append.mpr
      ⟨hplaced.heapApart, hplaced.blocksApart, fun r hr r' hr' => ?_⟩⟩
    · exact (List.mem_append.mp hr).elim (hheap r) (hblocks r)
    · -- the heap ends below the bindings
      have hblock : Within layout.heapEndAddr.toNat r' (r'.first + r'.length) := by
        intro _
        have := hplaced.blocks r' hr'
        omega
      exact (hplaced.heap r hr).apart hblock
  · rcases List.mem_cons.mp hr with rfl | hr
    · exact hp.2.1
    · rcases List.mem_append.mp hr with hr | hr
      · exact fun hhas => hp.2.2 ((hplaced.heap r hr).has_heapRange hhas)
      · exact hloaded p hp r hr

/-- **When the device memory is intact.** The request meets none of the regions that the dispatch
    has in the heap, and no byte of a loaded segment outside of request and heap lies in the block
    of a binding. -/
theorem intact_iff {file : List UInt8} {device : Memory} {state : InlineDispatchState wz}
    {ordinal localMemoryLength : UInt64} {host : Memory} {layout : ElfLayout} {m : Memory}
    (h : prepareInline file device state ordinal localMemoryLength host = .ok (layout, m)) :
    Intact file device layout state ordinal localMemoryLength host m ↔
      (∀ r ∈ (state.plan layout localMemoryLength).heap, (requestRegion layout).Apart r) ∧
      ∀ p, LoadedOutside file layout p →
        ∀ r ∈ (state.plan layout localMemoryLength).blocks, ¬ r.Has p := by
  obtain ⟨-, hlayout, hsize, m₃, hplaced, rfl⟩ := prepareInline_placed h
  constructor
  · intro hintact
    have hrequest := (List.pairwise_cons.mp hintact.apart).1
    refine ⟨fun r hr => hrequest r (List.mem_append_left _ hr), fun p hp r hr => ?_⟩
    exact hintact.loadedApart p hp r (List.mem_cons_of_mem _ (List.mem_append_right _ hr))
  · rintro ⟨hheap, hloaded⟩
    apply intact_of_placed hlayout hsize hplaced _ _ hheap hloaded
    · exact loadRequest_storeRequest _ _ _
    · exact fun p hp => storeRequest_of_not_has hp

/-! ### Two dispatches -/

/-- A dispatch of one workgroup with one constant and a binding of four bytes. -/
def oneBinding : InlineDispatchState 16 where
  workgroupSizeX := 1
  workgroupSizeY := 1
  workgroupSizeZ := 1
  constantCount := 1
  workgroupCountX := 1
  workgroupCountY := 1
  workgroupCountZ := 1
  maxConcurrency := 1
  bindingCount := 1
  constants := some [7]
  bindingPtrs := some [some 4096]
  bindingLengths := some [4]

/-- With the executable in the ITCM the dispatch is intact. -/
theorem intact_iff_smallElf :
    ∃ layout m, prepareInline smallElf (fun _ => 0) oneBinding 0 0 (fun _ => 5) = .ok (layout, m) ∧
      Intact smallElf (fun _ => 0) layout oneBinding 0 0 (fun _ => 5) m := by
  have hok : (prepareInline smallElf (fun _ => 0) oneBinding 0 0 (fun _ => 5)).isOk = true := by
    decide +kernel
  cases h : prepareInline smallElf (fun _ => 0) oneBinding 0 0 (fun _ => 5) with
  | error failure =>
    rw [h] at hok
    cases hok
  | ok prepared =>
    obtain ⟨layout, m⟩ := prepared
    have hsmall : (loadElf smallElf).result = .ok smallLayout := by decide +kernel
    obtain rfl : smallLayout = layout :=
      Except.ok.inj (hsmall.symm.trans (prepareInline_placed h).1)
    refine ⟨smallLayout, m, rfl, (intact_iff h).mpr ⟨fun r hr => ?_, fun p hp r hr => ?_⟩⟩
    · have hfirst : ∀ r ∈ (oneBinding.plan smallLayout 0).heap,
          (requestRegion smallLayout).first + (requestRegion smallLayout).length ≤ r.first ∨
            r.length = 0 := by decide +kernel
      exact (hfirst r hr).elim Region.apart_of_le Region.apart_of_length_eq_zero
    · -- the segment ends below the bindings
      obtain ⟨⟨phdr, hmem, -, hhi⟩, -⟩ := hp
      have hends : ∀ phdr ∈ loadHeaders smallElf,
          phdr.paddr.toNat + phdr.memsz.toNat ≤ 0x80000000 := by decide +kernel
      have hblocks : ∀ r ∈ (oneBinding.plan smallLayout 0).blocks, 0x80000000 ≤ r.first := by
        decide +kernel
      rintro ⟨hlo, -⟩
      have := hends phdr hmem
      have := hblocks r hr
      omega

/-- The executable with its segment at the start of the DDR memory. -/
def ddrElf : List UInt8 := elfAt 0x80000000

/-- The first binding is written over a segment in the DDR memory. -/
theorem ddrElf_not_intact :
    ∃ layout m, prepareInline ddrElf (fun _ => 0) oneBinding 0 0 (fun _ => 5) = .ok (layout, m) ∧
      ¬ Intact ddrElf (fun _ => 0) layout oneBinding 0 0 (fun _ => 5) m := by
  -- the first byte of the segment, and what is there when the simulator starts
  have hbyte : loadedMemory ddrElf (fun _ => 0) 0x80000000 = 0x7F := by decide +kernel
  have hstart : (prepareInline ddrElf (fun _ => 0) oneBinding 0 0 (fun _ => 5)).toOption.map
      (fun r => r.2 0x80000000) = some 5 := by decide +kernel
  cases h : prepareInline ddrElf (fun _ => 0) oneBinding 0 0 (fun _ => 5) with
  | error failure =>
    rw [h] at hstart
    cases hstart
  | ok prepared =>
    obtain ⟨layout, m⟩ := prepared
    rw [h] at hstart
    refine ⟨layout, m, rfl, fun hintact => ?_⟩
    obtain ⟨-, hlayout, hsize, -⟩ := prepareInline_placed h
    have hcovers : ∃ phdr ∈ loadHeaders ddrElf, phdr.paddr.toNat ≤ 0x80000000 ∧
        0x80000000 < phdr.paddr.toNat + phdr.memsz.toNat := by decide +kernel
    obtain ⟨⟨-, hrequest⟩, -, hheap, hend⟩ := checkLayout_eq_ok hlayout
    have hdtcm : dtcmStart.toNat + dtcmSize.toNat < 0x80000000 := by decide
    have houtside : LoadedOutside ddrElf layout 0x80000000 := by
      refine ⟨hcovers, fun hhas => ?_, fun hhas => ?_⟩
      · have : 0x80000000 < layout.dispatchRequestAddr.toNat + requestSize := hhas.2
        omega
      · have : 0x80000000 < layout.heapStartAddr.toNat
            + (layout.heapEndAddr.toNat - layout.heapStartAddr.toNat) := hhas.2
        omega
    have hfive : m 0x80000000 = 5 := Option.some.inj hstart
    rw [hintact.loaded _ houtside, hbyte] at hfive
    exact absurd hfive (by decide)

end CoralNPU.Sim
