import CoralNPU.Tiling.Op
import Mathlib.Data.List.Nodup

namespace CoralNPU.Tiling

/-!
# Tiling — targets and lowering configurations

* `LoweringConfig` — the dictionary from tiling levels to tile sizes the three passes fill
  in step by step, with `updateConfigItem` as its only update.
* `Target` — the executable target of a dispatch function: its backend and its
  `cpu_features` string, with `hasFeature` and `getVlenFromTargetFeatures` reading it.
* `Dispatch` — the function a pass runs on: its target, its root operation and the
  compilation info attached to it.
-/

/-- `IREE::CPU::TilingLevel`. -/
inductive TilingLevel
  | distributionTiles | cacheParallelTiles | cacheReductionTiles
  | vectorCommonParallelTiles | vectorReductionTiles | vectorInnerParallelTiles
  deriving DecidableEq, Repr

/-- `IREE::CPU::LoweringConfigAttr`: a dictionary of tile sizes by tiling level. -/
abbrev LoweringConfig := List (TilingLevel × List Int)

namespace LoweringConfig

/-- The tiling levels the configuration holds. -/
def levels (config : LoweringConfig) : List TilingLevel := config.map (·.1)

/-- `hasTilingLevel`. -/
def hasTilingLevel (config : LoweringConfig) (level : TilingLevel) : Bool :=
  config.levels.contains level

/-- `getStaticTilingLevelSizes`; a level the configuration does not hold has no sizes. -/
def getStaticTilingLevelSizes (config : LoweringConfig) (level : TilingLevel) : List Int :=
  ((config.find? (·.1 = level)).map (·.2)).getD []

/-- `updateConfigItem`: overwrite the item of a level, or append it. -/
def updateConfigItem (config : LoweringConfig) (level : TilingLevel) (sizes : List Int) :
    LoweringConfig :=
  match config with
  | [] => [(level, sizes)]
  | item :: rest =>
    if item.1 = level then (level, sizes) :: rest
    else item :: updateConfigItem rest level sizes

/-- The updated level has the new sizes. -/
@[simp] theorem getStaticTilingLevelSizes_update_self (config : LoweringConfig)
    (level : TilingLevel) (sizes : List Int) :
    (config.updateConfigItem level sizes).getStaticTilingLevelSizes level = sizes := by
  induction config with
  | nil => simp [updateConfigItem, getStaticTilingLevelSizes]
  | cons item rest ih =>
    unfold updateConfigItem
    by_cases h : item.1 = level
    · simp [h, getStaticTilingLevelSizes]
    · simp only [h, if_false, getStaticTilingLevelSizes, List.find?_cons, decide_false]
      exact ih

/-- Every other level keeps its sizes. -/
theorem getStaticTilingLevelSizes_update_ne (config : LoweringConfig)
    {level other : TilingLevel} (hne : other ≠ level) (sizes : List Int) :
    (config.updateConfigItem level sizes).getStaticTilingLevelSizes other
      = config.getStaticTilingLevelSizes other := by
  induction config with
  | nil => simp [updateConfigItem, getStaticTilingLevelSizes, Ne.symm hne]
  | cons item rest ih =>
    unfold updateConfigItem
    by_cases h : item.1 = level
    · simp [h, getStaticTilingLevelSizes, Ne.symm hne]
    · rw [if_neg h]
      by_cases ho : item.1 = other
      · simp [ho, getStaticTilingLevelSizes]
      · simp only [getStaticTilingLevelSizes, List.find?_cons, ho, decide_false]
        exact ih

/-- An update adds at most the updated level. -/
theorem mem_levels_update (config : LoweringConfig) (level : TilingLevel) (sizes : List Int)
    (other : TilingLevel) :
    other ∈ (config.updateConfigItem level sizes).levels ↔ other = level ∨ other ∈ config.levels := by
  induction config with
  | nil => simp [updateConfigItem, levels]
  | cons item rest ih =>
    unfold updateConfigItem
    by_cases h : item.1 = level
    · simp [h, levels]
    · simp only [levels] at ih
      simp only [h, if_false, levels, List.map_cons, List.mem_cons, ih]
      tauto

/-- An update of a level the configuration does not hold appends it. -/
theorem levels_update_of_notMem {config : LoweringConfig} {level : TilingLevel}
    (h : level ∉ config.levels) (sizes : List Int) :
    (config.updateConfigItem level sizes).levels = config.levels ++ [level] := by
  induction config with
  | nil => rfl
  | cons item rest ih =>
    have hcons : level ≠ item.1 ∧ level ∉ levels rest := by simpa [levels] using h
    unfold updateConfigItem
    rw [if_neg fun heq => hcons.1 heq.symm]
    show item.1 :: levels (updateConfigItem rest level sizes) = _
    rw [ih hcons.2]
    rfl

end LoweringConfig

/-- The lowering pass pipelines the register pass chooses between. -/
inductive DispatchLoweringPassPipeline
  | cpuDoubleTilingExpert | cpuDefault
  deriving DecidableEq, Repr

/-- `IREE::Codegen::CompilationInfoAttr`. -/
structure CompilationInfo where
  loweringConfig : LoweringConfig
  translationInfo : DispatchLoweringPassPipeline
  deriving DecidableEq, Repr

/-! ### Targets -/

/-- `IREE::HAL::ExecutableTargetAttr`: the backend and the `cpu_features` of the
    configuration (`none` where there is no such string). -/
structure Target where
  backend : String
  cpuFeatures : Option (List Char)
  deriving DecidableEq, Repr

/-- `hasFeature`: some comma-separated token of `cpu_features` is the feature. -/
def hasFeature (target : Target) (feature : List Char) : Bool :=
  match target.cpuFeatures with
  | none => false
  | some features => (features.splitOn ',').contains feature

/-- The part of `text` after the first occurrence of `pattern`. -/
def afterFirst (pattern : List Char) : List Char → Option (List Char)
  | [] => if pattern.isEmpty then some [] else none
  | c :: text =>
    if pattern.isPrefixOf (c :: text) then some ((c :: text).drop pattern.length)
    else afterFirst pattern text

/-- The digits of a decimal numeral, as `StringRef::getAsInteger(10, …)` reads them. -/
def parseDigits (digits : List Char) : Option Int :=
  if digits.isEmpty then none
  else digits.foldlM (fun n c =>
    if c.isDigit then some (10 * n + (c.toNat - '0'.toNat : Nat)) else none) 0

/-- `StringRef::getAsInteger(10, int64_t&)`: the whole text is an optional `-` and digits,
    and the value fits. -/
def getAsInteger (text : List Char) : Option Int := do
  let value ← match text with
    | '-' :: digits => (parseDigits digits).map (-·)
    | digits => parseDigits digits
  if -9223372036854775808 ≤ value ∧ value ≤ 9223372036854775807 then some value else none

/-- `getVlenFromTargetFeatures`: the number between the first `+zvl` and the next `b`. -/
def getVlenFromTargetFeatures (target : Target) : Option Int := do
  let cpuFeatures ← target.cpuFeatures
  let suffix ← afterFirst ['+', 'z', 'v', 'l'] cpuFeatures
  if 'b' ∈ suffix then getAsInteger (suffix.takeWhile (· ≠ 'b')) else none

/-! ### Dispatch functions -/

/-- The function a tile-size-selection pass runs on.  `rootOp` is `none` when the function
    has no compute operations; `compilationInfo` is the attribute on the root operation. -/
structure Dispatch where
  target : Option Target
  rootOp : Option RootOp
  compilationInfo : Option CompilationInfo
  deriving DecidableEq, Repr

end CoralNPU.Tiling
