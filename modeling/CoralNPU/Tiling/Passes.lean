import CoralNPU.Lib.While
import CoralNPU.Lib.Scatter
import CoralNPU.Tiling.Config
import CoralNPU.Tiling.Footprint

namespace CoralNPU.Tiling

open Lib

/-!
# Tiling — the three tile-size-selection passes

* `tilingAnalysis` — what all three passes read of the root operation;
* `registerPass` — register tiles, from the alignments of `resolveAlignments`;
* `dtcmPass` — cache tiles: the loop ranges, aligned down, capped, and then halved one
  loop at a time (`shrinkBody`) until the footprint estimate fits the DTCM budget;
* `workgroupPass` — the distribution level, a copy of the parallel cache tiles.

A pass returns the dispatch function it leaves behind, or the `Failure` it ends with.
-/

/-! ### Tiling analysis -/

/-- `CoralNPUTilingAnalysis` of a function with compute operations. -/
structure TilingAnalysis where
  rootTilingOp : RootOp
  classification : LoopClassification
  staticLoopRanges : List Int
  elemSizeBytes : Int
  deriving DecidableEq, Repr

/-- The element size the analysis computes: the size of the first result's elements, with
    `i1` counted as a byte; 0 for an operation without a shaped result. -/
def elemSizeBytes (root : RootOp) : Except Failure Int :=
  match root.resultTypes with
  | .tensor t :: _ =>
    if !t.elementType.isIntOrFloat then
      throw (.passFailure "only integer and float types are supported")
    else do
      let elemBitWidth ← t.elementType.getIntOrFloatBitWidth
      if elemBitWidth < 8 then
        if t.elementType.isInteger 1 then return 1
        else throw (.passFailure "sub-byte types (e.g. i4) are not supported")
      else return elemBitWidth.tdiv 8
  | _ => return 0

/-- `CoralNPUTilingAnalysis`. -/
def tilingAnalysis (root : RootOp) : Except Failure TilingAnalysis := do
  let elemSizeBytes ← elemSizeBytes root
  if root.getStaticLoopRanges.contains kDynamic then
    throw (.passFailure "dynamic shapes are not supported")
  return {
    rootTilingOp := root
    classification := classifyLoops root
    staticLoopRanges := root.getStaticLoopRanges
    elemSizeBytes := elemSizeBytes }

/-! ### Register tiles -/

/-- The options of the register pass, with their defaults. -/
structure RegisterOptions where
  numVectorRegisters : Int := 32
  vectorRegisterWidthBits : Int := 0
  vectorAlignment : Int := 0
  unrollAlignment : Int := 0
  reductionAlignment : Int := 1
  parallelAlignment : Int := 0
  deriving DecidableEq, Repr

structure Alignments where
  vectorAlign : Int
  unrollAlign : Int
  reductionAlign : Int
  deriving DecidableEq, Repr

/-- C++ integer division. -/
def divide (expression : String) (x y : Int) : Except Failure Int :=
  if y = 0 then throw (.divisionByZero expression) else return x.tdiv y

/-- `llvm::divideCeil` of non-negative operands. -/
def divideCeil (x y : Int) : Except Failure Int :=
  if y = 0 then throw (.divisionByZero "divideCeil") else return (x + y - 1).tdiv y

/-- `maxFullUnroll`: the largest number of vectors an unroll loop fills. -/
def maxFullUnroll (vectorWidth : Int) (staticLoopRanges : List Int) (unrollLoops : List Nat) :
    Except Failure Int :=
  unrollLoops.foldlM (fun maxFullUnroll unrollLoopIdx => do
    let unrollLoopSize := staticLoopRanges.getD unrollLoopIdx 0
    if ¬ unrollLoopSize > 0 then throw (.assertion "unrollLoopSize > 0")
    let fullUnroll ← divideCeil unrollLoopSize vectorWidth
    return max maxFullUnroll fullUnroll) 0

/-- `resolveAlignments`. -/
def resolveAlignments (vectorWidth numRegisters : Int) (loops : LoopClassification)
    (staticLoopRanges : List Int) (parallelAlignmentOpt : Int) (alignments : Alignments) :
    Except Failure Alignments :=
  if loops.unrollLoops.isEmpty then
    let alignments := { alignments with unrollAlign := 0 }
    if parallelAlignmentOpt ≠ 0 then
      return { alignments with vectorAlign := parallelAlignmentOpt }
    else if alignments.vectorAlign ≠ 0 then return alignments
    else return { alignments with vectorAlign := vectorWidth }
  else
    let alignments :=
      if alignments.vectorAlign = 0 then { alignments with vectorAlign := min vectorWidth 8 }
      else alignments
    if alignments.unrollAlign ≠ 0 then return alignments
    else do
      let uLimit ← divide "(numRegisters - 1) / (1 + vectorAlign)"
        (numRegisters - 1) (1 + alignments.vectorAlign)
      let uLimit := max 1 uLimit
      let maxFullUnroll ← maxFullUnroll vectorWidth staticLoopRanges loops.unrollLoops
      if ¬ maxFullUnroll > 0 then throw (.assertion "maxFullUnroll > 0")
      let uOpt := min uLimit maxFullUnroll
      return { alignments with unrollAlign := vectorWidth * uOpt }

/-- `vlenBits`: the option, or the width named by the target features, or 128. -/
def vlenBits (target : Target) (options : RegisterOptions) : Int :=
  if options.vectorRegisterWidthBits = 0 then (getVlenFromTargetFeatures target).getD 128
  else options.vectorRegisterWidthBits

/-- `vectorWidth`, in elements, with the pass's assertion that it is positive. -/
def vectorWidth (vlenBits elemSizeBytes : Int) : Except Failure Int := do
  let vectorWidth ← divide "(vlenBits / 8) / elemSizeBytes" (vlenBits.tdiv 8) elemSizeBytes
  if ¬ vectorWidth > 0 then throw (.assertion "vectorWidth > 0")
  return vectorWidth

/-- `hasMatrix`: the matrix extension is there and the root operation can use it. -/
def hasMatrix (target : Target) (root : RootOp) : Bool :=
  hasFeature target "+zvtbase".toList && isSupportedMatrixContraction root

/-- The alignments of the register pass. -/
def registerAlignments (target : Target) (options : RegisterOptions)
    (analysis : TilingAnalysis) (vectorWidth : Int) : Except Failure Alignments :=
  let alignments : Alignments :=
    { vectorAlign := options.vectorAlignment
      unrollAlign := options.unrollAlignment
      reductionAlign := options.reductionAlignment }
  if hasMatrix target analysis.rootTilingOp then
    return { vectorAlign := 4, unrollAlign := 4, reductionAlign := 1 }
  else
    resolveAlignments vectorWidth options.numVectorRegisters analysis.classification
      analysis.staticLoopRanges options.parallelAlignment alignments

/-- The register tile of an unroll loop; a tile of 2 is replaced by 1. -/
def unrollTile (range unrollAlign : Int) : Int :=
  if min range unrollAlign = 2 then 1 else min range unrollAlign

/-- `vectorParallelSizes` of the register pass. -/
def registerParallelSizes (loops : LoopClassification) (ranges : List Int)
    (vectorWidth : Int) (alignments : Alignments) (hasMatrix : Bool) : List Int :=
  let range := fun i => ranges.getD i 0
  let sizes := List.replicate ranges.length 0
  if loops.unrollLoops.isEmpty then
    let sizes := scatter loops.vectorLoops (fun i =>
      if some i = loops.vectorLoops.getLast? then min (range i) vectorWidth else 1) sizes
    scatter loops.batchLoops (fun _ => 1) sizes
  else
    let sizes := scatter loops.vectorLoops (fun i => min (range i) alignments.vectorAlign) sizes
    let sizes := scatter loops.unrollLoops
      (fun i => unrollTile (range i) alignments.unrollAlign) sizes
    let batchAlign := if hasMatrix then 1 else alignments.vectorAlign
    scatter loops.batchLoops (fun i => min (range i) batchAlign) sizes

/-- `vectorReductionSizes` of the register pass. -/
def registerReductionSizes (loops : LoopClassification) (ranges : List Int)
    (alignments : Alignments) : List Int :=
  scatter loops.reductionLoops (fun i => min (ranges.getD i 0) alignments.reductionAlign)
    (List.replicate ranges.length 0)

/-- Run a pass on the root operation of a function the backend owns; a function of another
    backend, or one without compute operations, is left alone. -/
def runOnRoot (dispatch : Dispatch)
    (pass : Target → TilingAnalysis → Except Failure CompilationInfo) : Except Failure Dispatch :=
  match dispatch.target with
  | none => return dispatch
  | some target =>
    if target.backend ≠ "coralnpu" then return dispatch
    else
      match dispatch.rootOp with
      | none => return dispatch
      | some root => do
        let analysis ← tilingAnalysis root
        let info ← pass target analysis
        return { dispatch with compilationInfo := some info }

/-- `CoralNPUTileSizeSelectionRegisterPass` on the root operation. -/
def selectRegisterTiles (options : RegisterOptions) (target : Target)
    (analysis : TilingAnalysis) : Except Failure CompilationInfo := do
  let vectorWidth ← vectorWidth (vlenBits target options) analysis.elemSizeBytes
  let alignments ← registerAlignments target options analysis vectorWidth
  let vectorParallelSizes := registerParallelSizes analysis.classification
    analysis.staticLoopRanges vectorWidth alignments (hasMatrix target analysis.rootTilingOp)
  let vectorReductionSizes := registerReductionSizes analysis.classification
    analysis.staticLoopRanges alignments
  return {
    loweringConfig :=
      [(.vectorCommonParallelTiles, vectorParallelSizes),
        (.vectorReductionTiles, vectorReductionSizes)]
    translationInfo :=
      if isReverseOp analysis.rootTilingOp then .cpuDefault else .cpuDoubleTilingExpert }

/-- `CoralNPUTileSizeSelectionRegisterPass::runOnOperation`. -/
def registerPass (options : RegisterOptions) (dispatch : Dispatch) : Except Failure Dispatch :=
  runOnRoot dispatch (selectRegisterTiles options)

/-! ### Cache tiles -/

/-- `llvm::alignDown`, which asserts that the alignment is not 0. -/
def alignDown (value align : Int) : Except Failure Int :=
  if align = 0 then throw (.assertion "Align != 0") else return value / align * align

/-- `shrinkLoops`: halve, aligned down, the first loop that is at least two alignments
    long.  `none` if there is no such loop.  Two alignments fit an `int64_t` if
    the alignment is below 2^62. -/
def shrinkLoops (loopIndices : List Nat) (alignment : Int) (dtcmTileSizes : List Int) :
    Except Failure (Option (List Int)) :=
  match loopIndices with
  | [] => return none
  | loopIdx :: rest =>
    if dtcmTileSizes.getD loopIdx 0 < 2 * alignment then shrinkLoops rest alignment dtcmTileSizes
    else do
      let size ← alignDown ((dtcmTileSizes.getD loopIdx 0).tdiv 2) alignment
      return some (dtcmTileSizes.set loopIdx size)

/-- `alignTileSizes`. -/
def alignTileSizes (loopIndices : List Nat) (alignment : Int) (dtcmTileSizes : List Int) :
    Except Failure (List Int) :=
  loopIndices.foldlM (fun sizes loopIdx =>
    if sizes.getD loopIdx 0 ≤ alignment then return sizes
    else do
      let size ← alignDown (sizes.getD loopIdx 0) alignment
      return sizes.set loopIdx size) dtcmTileSizes

/-- The alignment the DTCM pass derives for a list of loops: the largest positive register
    tile among them, at least 1. -/
def alignmentOf (sizes : List Int) (loops : List Nat) : Int :=
  loops.foldl (fun align idx =>
    if idx < sizes.length ∧ sizes.getD idx 0 > 0 then max align (sizes.getD idx 0) else align) 1

/-- Limit the tiles of some loops to `maxParallelTileSize`. -/
def capTileSizes (loops : List Nat) (maxParallelTileSize : Int) (dtcmTileSizes : List Int) :
    List Int :=
  loops.foldl (fun sizes idx =>
    if sizes.getD idx 0 > 0 then sizes.set idx (min (sizes.getD idx 0) maxParallelTileSize)
    else sizes) dtcmTileSizes

/-- `maxParallelTileSize`. -/
def maxParallelTileSize (target : Target) (root : RootOp) : Int :=
  if hasMatrix target root then 64 else 16

/-- The variables of the shrink loop. -/
structure ShrinkState where
  alignments : Alignments
  batchAlign : Int
  fallback : Bool
  dtcmTileSizes : List Int
  deriving DecidableEq, Repr

/-- The state in which the shrink loop starts. -/
def initialShrinkState (target : Target) (analysis : TilingAnalysis) (config : LoweringConfig) :
    Except Failure ShrinkState := do
  let loops := analysis.classification
  let parallelSizes := config.getStaticTilingLevelSizes .vectorCommonParallelTiles
  let reductionSizes := config.getStaticTilingLevelSizes .vectorReductionTiles
  let vectorAlign := alignmentOf parallelSizes loops.vectorLoops
  let unrollAlign := alignmentOf parallelSizes loops.unrollLoops
  let batchAlign := alignmentOf parallelSizes loops.batchLoops
  let reductionAlign := alignmentOf reductionSizes loops.reductionLoops
  let sizes ← alignTileSizes loops.vectorLoops vectorAlign analysis.staticLoopRanges
  let sizes ← alignTileSizes loops.unrollLoops unrollAlign sizes
  let sizes ← alignTileSizes loops.batchLoops batchAlign sizes
  let sizes ← alignTileSizes loops.reductionLoops reductionAlign sizes
  let maxParallelTileSize := maxParallelTileSize target analysis.rootTilingOp
  let sizes := capTileSizes loops.vectorLoops maxParallelTileSize sizes
  let sizes := capTileSizes loops.unrollLoops maxParallelTileSize sizes
  return {
    alignments := {
      vectorAlign := vectorAlign, unrollAlign := unrollAlign, reductionAlign := reductionAlign }
    batchAlign := batchAlign
    fallback := false
    dtcmTileSizes := sizes }

/-- One attempt to make the tile smaller: shrink a loop, or else fall back to alignment 1
    and the full ranges, or else give up. -/
def shrinkOnce (loops : LoopClassification) (staticLoopRanges : List Int) (s : ShrinkState) :
    Except Failure ShrinkState := do
  if let some sizes ← shrinkLoops loops.vectorLoops s.alignments.vectorAlign s.dtcmTileSizes then
    return { s with dtcmTileSizes := sizes }
  if let some sizes ← shrinkLoops loops.unrollLoops s.alignments.unrollAlign s.dtcmTileSizes then
    return { s with dtcmTileSizes := sizes }
  if let some sizes ← shrinkLoops loops.batchLoops s.batchAlign s.dtcmTileSizes then
    return { s with dtcmTileSizes := sizes }
  if let some sizes ←
      shrinkLoops loops.reductionLoops s.alignments.reductionAlign s.dtcmTileSizes then
    return { s with dtcmTileSizes := sizes }
  if s.alignments.vectorAlign > 1 ∨ s.alignments.unrollAlign > 1
      ∨ s.alignments.reductionAlign > 1 ∨ s.batchAlign > 1 then
    return {
      alignments := { vectorAlign := 1, unrollAlign := 1, reductionAlign := 1 }
      batchAlign := 1
      fallback := true
      dtcmTileSizes := staticLoopRanges }
  throw (.passFailure "workload cannot fit in DTCM even with 1x1x... tile size")

/-- One iteration of the `while` loop of the DTCM pass.  `isOverBudget` is its condition. -/
def shrinkBody (isOverBudget : List Int → Except Failure Bool) (loops : LoopClassification)
    (staticLoopRanges : List Int) (s : ShrinkState) :
    ShrinkState ⊕ Except Failure ShrinkState :=
  match isOverBudget s.dtcmTileSizes with
  | .error e => .inr (.error e)
  | .ok false => .inr (.ok s)
  | .ok true =>
    match shrinkOnce loops staticLoopRanges s with
    | .error e => .inr (.error e)
    | .ok s' => .inl s'

/-- The sum of the tile sizes, which bounds how often a tile can be made smaller. -/
def totalTileSize (sizes : List Int) : Nat := (sizes.map Int.toNat).sum

/-- Enough iterations for the shrink loop (`shrinkLoop_exit`): one for each unit of the
    first tile, one for the fallback, one for each unit of the full ranges, and the last. -/
def shrinkFuel (staticLoopRanges : List Int) (s : ShrinkState) : Nat :=
  totalTileSize s.dtcmTileSizes + totalTileSize staticLoopRanges + 2

/-- `safetyMultiplier`, 1.2 as the fraction 6/5: is the footprint over the limit? -/
def exceedsLimit (footprint dtcmLimitBytes : Int) : Bool := 6 * footprint > 5 * dtcmLimitBytes

theorem exceedsLimit_iff (footprint dtcmLimitBytes : Int) :
    exceedsLimit footprint dtcmLimitBytes = true ↔ ¬ 6 * footprint ≤ 5 * dtcmLimitBytes := by
  rw [exceedsLimit, decide_eq_true_eq, Int.not_le]

/-- The condition of the shrink loop. -/
def isOverBudget (normalize : Int → Int) (getBound : BoundFn) (root : RootOp)
    (dtcmLimitBytes : Int) (dtcmTileSizes : List Int) : Except Failure Bool := do
  let footprint ← estimateFootprint normalize getBound root dtcmTileSizes
  return exceedsLimit footprint dtcmLimitBytes

/-- `dtcmLimitBytes`: the product is computed in 32-bit `int`. -/
def dtcmLimitBytes (dtcmSizeKb : Int) : Int := Int.bmod (dtcmSizeKb * 1024) 4294967296

/-- `distParallelSizes`: the tiles of the parallel loops, 0 for the others. -/
def cacheParallelSizes (loops : LoopClassification) (dtcmTileSizes : List Int) (numLoops : Nat) :
    List Int :=
  let size := fun i => dtcmTileSizes.getD i 0
  scatter loops.batchLoops size (scatter loops.unrollLoops size
    (scatter loops.vectorLoops size (List.replicate numLoops 0)))

/-- `cacheReductionSizes`: the tiles of the reduction loops, 0 for the others. -/
def cacheReductionSizes (loops : LoopClassification) (dtcmTileSizes : List Int)
    (numLoops : Nat) : List Int :=
  scatter loops.reductionLoops (fun i => dtcmTileSizes.getD i 0) (List.replicate numLoops 0)

/-- `vectorParallelSizes` of the fallback. -/
def fallbackParallelSizes (loops : LoopClassification) (dtcmTileSizes : List Int)
    (numLoops : Nat) : List Int :=
  let size := fun i => min (dtcmTileSizes.getD i 0) 1
  scatter loops.unrollLoops size (scatter loops.vectorLoops size (List.replicate numLoops 0))

/-- `vectorReductionSizes` of the fallback. -/
def fallbackReductionSizes (loops : LoopClassification) (dtcmTileSizes : List Int)
    (numLoops : Nat) : List Int :=
  scatter loops.reductionLoops (fun i => min (dtcmTileSizes.getD i 0) 1)
    (List.replicate numLoops 0)

/-- The configuration the DTCM pass builds from the state the shrink loop ends in. -/
def dtcmConfig (analysis : TilingAnalysis) (config : LoweringConfig) (s : ShrinkState) :
    LoweringConfig :=
  let loops := analysis.classification
  let numLoops := analysis.staticLoopRanges.length
  let config := config.updateConfigItem .cacheParallelTiles
    (cacheParallelSizes loops s.dtcmTileSizes numLoops)
  let config := config.updateConfigItem .cacheReductionTiles
    (cacheReductionSizes loops s.dtcmTileSizes numLoops)
  if s.fallback then
    let config := config.updateConfigItem .vectorCommonParallelTiles
      (fallbackParallelSizes loops s.dtcmTileSizes numLoops)
    config.updateConfigItem .vectorReductionTiles
      (fallbackReductionSizes loops s.dtcmTileSizes numLoops)
  else config

/-- `CoralNPUTileSizeSelectionDTCMPass` on the root operation.  `none` of the shrink loop
    (out of iterations) does not happen: `shrinkLoop_exit`. -/
def selectCacheTiles (normalize : Int → Int) (getBound : BoundFn) (dtcmLimitBytes : Int)
    (info : Option CompilationInfo) (target : Target) (analysis : TilingAnalysis) :
    Except Failure CompilationInfo :=
  match info with
  | none => throw (.passFailure "missing compilation info from register tiling pass")
  | some info => do
    let s ← initialShrinkState target analysis info.loweringConfig
    let isOver := isOverBudget normalize getBound analysis.rootTilingOp dtcmLimitBytes
    match iterate (shrinkBody isOver analysis.classification analysis.staticLoopRanges)
        (shrinkFuel analysis.staticLoopRanges s) s with
    | none => throw (.assertion "the shrink loop terminates")
    | some result =>
      let s ← result
      return { info with loweringConfig := dtcmConfig analysis info.loweringConfig s }

/-- `CoralNPUTileSizeSelectionDTCMPass::runOnOperation`. -/
def dtcmPass (normalize : Int → Int) (getBound : BoundFn) (dtcmSizeKb : Int)
    (dispatch : Dispatch) : Except Failure Dispatch :=
  runOnRoot dispatch
    (selectCacheTiles normalize getBound (dtcmLimitBytes dtcmSizeKb) dispatch.compilationInfo)

/-! ### Workgroup tiles -/

/-- `CoralNPUTileSizeSelectionWorkgroupPass` on the root operation. -/
def selectWorkgroupTiles (info : Option CompilationInfo) : Except Failure CompilationInfo :=
  match info with
  | none => throw (.passFailure "missing compilation info")
  | some info =>
    if !info.loweringConfig.hasTilingLevel .cacheParallelTiles then
      throw (.passFailure "missing CacheParallelTiles config")
    else
      let sizes := info.loweringConfig.getStaticTilingLevelSizes .cacheParallelTiles
      return { info with
        loweringConfig := info.loweringConfig.updateConfigItem .distributionTiles sizes }

/-- `CoralNPUTileSizeSelectionWorkgroupPass::runOnOperation`. -/
def workgroupPass (dispatch : Dispatch) : Except Failure Dispatch :=
  runOnRoot dispatch fun _ _ => selectWorkgroupTiles dispatch.compilationInfo

end CoralNPU.Tiling
