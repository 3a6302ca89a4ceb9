import CoralNPU.Lib.Assoc
import CoralNPU.Lib.Json

namespace CoralNPU.Affinity

open Lib

/-!
# Affinity — the execution profile

What the profile pass collects before it prints its report: a name for every affinity of an
operation in an execution region, and the statistics of every affinity.

* `resolveDeviceNameImpl` — the name of an affinity in the module.
* `UsageInfo`, `analyze` — the names of the affinities that occur.
* `StatsMap`, `analyzeStatistics` — the statistics.
* `getDeviceName_analyze` — every affinity with statistics is printed under its name in the module.

Names and printed attributes are byte strings. An attribute that the pass only prints is given by
its printed form.
-/

/-! ### Attributes -/

/-- A symbol, with the names of nested symbols. -/
structure SymbolRefAttr where
  rootReference : Bytes
  nestedReferences : List Bytes
  deriving DecidableEq, Repr

/-- A device of a device select: `DeviceTargetAttr` with its ID, or another attribute. -/
inductive DeviceAttr
  | target (deviceID : Bytes)
  | other (printed : Bytes)
  deriving DecidableEq, Repr

/-- The initial value of a global: `DeviceTargetAttr`, `DeviceSelectAttr` or another attribute. -/
inductive InitialValueAttr
  | target (deviceID : Bytes)
  | select (devices : List DeviceAttr)
  | other
  deriving DecidableEq, Repr

/-- `IREE::Util::GlobalOp` -/
structure GlobalOp where
  initialValue : Option InitialValueAttr
  deriving DecidableEq, Repr

/-- An affinity: `DeviceAffinityAttr` with its symbol and the queues, or another attribute. -/
inductive AffinityAttr
  | device (device : SymbolRefAttr) (queueMask : Int)
  | other (printed : Bytes)
  deriving DecidableEq, Repr

/-! ### Operations -/

/-- What is known of the function of a dispatch. -/
structure ExecutableFuncInfo where
  opCount : Int64
  elementCount : Int64
  logicalDataSize : Int64
  isDynamic : Bool
  deriving DecidableEq, Repr

/-- The kinds of operations that are counted. A dispatch has a function for every entry point. -/
inductive OpKind
  | cmdFill
  | cmdCopy
  | cmdDispatch (entryPoints : List ExecutableFuncInfo)
  | other
  deriving DecidableEq, Repr

/-- An operation with the affinity that is looked up for it. -/
structure Operation where
  affinity : Option AffinityAttr
  kind : OpKind
  deriving DecidableEq, Repr

/-- A module: the globals that its symbols refer to, and the operations of every execution region in
    the order of the walk. -/
structure ModuleOp where
  lookupNearestSymbolFrom : SymbolRefAttr → Option GlobalOp
  executeOps : List (List Operation)

/-! ### Names -/

/-- `resolveDeviceNameImpl`. -/
def resolveDeviceNameImpl (affinity : Option AffinityAttr) (moduleOp : ModuleOp) : Bytes :=
  match affinity with
  | none => literal "Default"
  | some (.other printed) => printed
  | some (.device deviceSymbol _) =>
    let deviceName := deviceSymbol.rootReference
    match moduleOp.lookupNearestSymbolFrom deviceSymbol with
    | none => deviceName
    | some globalOp =>
      match globalOp.initialValue with
      | none => deviceName
      | some (.target deviceID) => deviceID
      | some (.select devices) =>
        -- the loop with the flag `first`
        (devices.foldl (fun (selectStr, first) devAttr =>
          ((if !first then selectStr ++ literal "/" else selectStr) ++
            (match devAttr with
              | .target deviceID => deviceID
              | .other printed => printed), false)) ([], true)).1
      | some .other => deviceName

/-- The names that are known, by affinity. -/
structure UsageInfo where
  deviceNames : List (AffinityAttr × Bytes)
  deriving DecidableEq, Repr

/-- `UsageInfo::getDeviceName`. -/
def UsageInfo.getDeviceName (usageInfo : UsageInfo) : Option AffinityAttr → Bytes
  | none => literal "Default"
  | some affinity => (usageInfo.deviceNames.lookup affinity).getD (literal "Unknown")

/-- `UsageInfo::resolveDeviceName`. -/
def UsageInfo.resolveDeviceName (moduleOp : ModuleOp) (usageInfo : UsageInfo) :
    Option AffinityAttr → UsageInfo
  | none => usageInfo
  | some affinity =>
    if (usageInfo.deviceNames.lookup affinity).isSome then usageInfo
    else ⟨usageInfo.deviceNames ++ [(affinity, resolveDeviceNameImpl (some affinity) moduleOp)]⟩

/-- The names that `UsageInfo::analyze` collects. -/
def analyze (moduleOp : ModuleOp) : UsageInfo :=
  moduleOp.executeOps.foldl (fun usageInfo ops =>
    ops.foldl (fun usageInfo op => usageInfo.resolveDeviceName moduleOp op.affinity) usageInfo) ⟨[]⟩

/-! ### Statistics -/

structure AffinityStats where
  fillCount : UInt64 := 0
  copyCount : UInt64 := 0
  dispatchCount : UInt64 := 0
  staticDispatchCount : UInt64 := 0
  hasDynamicDispatch : Bool := false
  staticDispatchDataSize : Int64 := 0
  staticDispatchElements : Int64 := 0
  staticWorkBytes : Int64 := 0
  staticWorkElements : Int64 := 0
  deriving DecidableEq, Repr

/-- `llvm::MapVector`: different affinities with their statistics, in the order of insertion. The
    default affinity is `none`. -/
structure StatsMap where
  entries : List (Option AffinityAttr × AffinityStats)
  nodup : (entries.map Prod.fst).Nodup

/-- `f` applied to `affinityStats[affinity]`, which is inserted first if it is not there. -/
def StatsMap.modify (stats : StatsMap) (affinity : Option AffinityAttr)
    (f : AffinityStats → AffinityStats) : StatsMap :=
  if h : affinity ∈ stats.entries.map Prod.fst then
    { entries := stats.entries.map fun e => (e.1, if e.1 = affinity then f e.2 else e.2)
      nodup := by
        rw [List.map_map]
        exact stats.nodup }
  else
    { entries := stats.entries ++ [(affinity, f {})]
      nodup := by
        rw [List.map_append, List.map_singleton, List.nodup_append_comm, List.singleton_append]
        exact List.nodup_cons.mpr ⟨h, stats.nodup⟩ }

/-- `analyzeDispatch`. -/
def analyzeDispatch (affStats : AffinityStats) (funcInfo : ExecutableFuncInfo) : AffinityStats :=
  if funcInfo.isDynamic then { affStats with hasDynamicDispatch := true }
  else
    { affStats with
      staticDispatchDataSize := affStats.staticDispatchDataSize + funcInfo.logicalDataSize
      staticDispatchElements := affStats.staticDispatchElements + funcInfo.elementCount
      staticWorkBytes := affStats.staticWorkBytes + funcInfo.logicalDataSize * funcInfo.opCount
      staticWorkElements := affStats.staticWorkElements + funcInfo.elementCount * funcInfo.opCount
      staticDispatchCount := affStats.staticDispatchCount + 1 }

/-- What one operation changes. `dispatchFuncInfos` has the function of the last entry point. -/
def countOp (op : Operation) (affStats : AffinityStats) : AffinityStats :=
  match op.kind with
  | .cmdFill => { affStats with fillCount := affStats.fillCount + 1 }
  | .cmdCopy => { affStats with copyCount := affStats.copyCount + 1 }
  | .cmdDispatch entryPoints =>
    let affStats := { affStats with dispatchCount := affStats.dispatchCount + 1 }
    match entryPoints.getLast? with
    | some funcInfo => analyzeDispatch affStats funcInfo
    | none => affStats
  | .other => affStats

/-- `analyzeStatistics`. -/
def analyzeStatistics (moduleOp : ModuleOp) : StatsMap :=
  moduleOp.executeOps.foldl (fun stats ops =>
    ops.foldl (fun stats op => stats.modify op.affinity (countOp op)) stats) ⟨[], List.nodup_nil⟩

/-! ### Every affinity has a name -/

/-- The operations in the order in which they are visited. -/
def ModuleOp.ops (moduleOp : ModuleOp) : List Operation := moduleOp.executeOps.flatten

theorem analyze_eq (moduleOp : ModuleOp) : analyze moduleOp = moduleOp.ops.foldl (fun usageInfo op =>
    usageInfo.resolveDeviceName moduleOp op.affinity) ⟨[]⟩ := List.foldl_flatten.symm

theorem analyzeStatistics_eq (moduleOp : ModuleOp) : analyzeStatistics moduleOp =
    moduleOp.ops.foldl (fun stats op => stats.modify op.affinity (countOp op)) ⟨[], List.nodup_nil⟩ :=
  List.foldl_flatten.symm

/-- The affinities with statistics, after a step. -/
theorem StatsMap.mem_modify {stats : StatsMap} {affinity a : Option AffinityAttr}
    {f : AffinityStats → AffinityStats} :
    a ∈ (stats.modify affinity f).entries.map Prod.fst ↔
      a ∈ stats.entries.map Prod.fst ∨ a = affinity := by
  unfold StatsMap.modify
  split
  next h =>
    rw [List.map_map]
    refine ⟨Or.inl, fun ha => ha.elim id ?_⟩
    rintro rfl
    exact h
  next h =>
    rw [List.map_append, List.map_singleton, List.mem_append, List.mem_singleton]

/-- The affinities with statistics are those of the operations. -/
theorem mem_analyzeStatistics {moduleOp : ModuleOp} {a : Option AffinityAttr} :
    a ∈ (analyzeStatistics moduleOp).entries.map Prod.fst ↔ ∃ op ∈ moduleOp.ops, op.affinity = a := by
  have hfold : ∀ (ops : List Operation) (stats : StatsMap),
      a ∈ (ops.foldl (fun stats op => stats.modify op.affinity (countOp op)) stats).entries.map Prod.fst
        ↔ a ∈ stats.entries.map Prod.fst ∨ ∃ op ∈ ops, op.affinity = a := by
    intro ops
    induction ops with
    | nil => simp
    | cons op ops ih =>
      intro stats
      rw [List.foldl_cons, ih, StatsMap.mem_modify, or_assoc, List.exists_mem_cons_iff,
        eq_comm (a := a)]
  rw [analyzeStatistics_eq, hfold]
  exact or_iff_right List.not_mem_nil

/-- What is known after a step: no name changes, and the affinity has its name. -/
theorem UsageInfo.lookup_resolveDeviceName (moduleOp : ModuleOp) (usageInfo : UsageInfo)
    (affinity : Option AffinityAttr) (a : AffinityAttr) :
    (usageInfo.resolveDeviceName moduleOp affinity).deviceNames.lookup a =
      (usageInfo.deviceNames.lookup a).or
        (if affinity = some a then some (resolveDeviceNameImpl (some a) moduleOp) else none) := by
  cases affinity with
  | none => rw [if_neg (by simp), Option.or_none]; rfl
  | some b =>
    rw [UsageInfo.resolveDeviceName]
    split
    next hsome =>
      -- a known name is kept
      obtain ⟨name, hname⟩ := Option.isSome_iff_exists.mp hsome
      split
      next hb =>
        obtain rfl := Option.some.inj hb
        rw [hname, Option.some_or]
      next => rw [Option.or_none]
    next =>
      rw [List.lookup_append, List.lookup_cons, List.lookup_nil]
      congr 1
      by_cases hb : b = a
      · rw [if_pos (congrArg some hb), hb, beq_self_eq_true]
      · rw [if_neg fun h => hb (Option.some.inj h), beq_eq_false_iff_ne.mpr (Ne.symm hb)]

/-- **Every affinity with statistics is printed under its name** in the module. -/
theorem getDeviceName_analyze {moduleOp : ModuleOp} {a : Option AffinityAttr}
    (ha : a ∈ (analyzeStatistics moduleOp).entries.map Prod.fst) :
    (analyze moduleOp).getDeviceName a = resolveDeviceNameImpl a moduleOp := by
  cases a with
  | none => rfl
  | some a =>
    obtain ⟨op, hop, haff⟩ := mem_analyzeStatistics.mp ha
    -- the name is known already, or the operation is still to come
    have hfold : ∀ (ops : List Operation) (usageInfo : UsageInfo),
        (usageInfo.deviceNames.lookup a = some (resolveDeviceNameImpl (some a) moduleOp) ∨
          (usageInfo.deviceNames.lookup a = none ∧ op ∈ ops)) →
        (ops.foldl (fun usageInfo op => usageInfo.resolveDeviceName moduleOp op.affinity)
          usageInfo).deviceNames.lookup a = some (resolveDeviceNameImpl (some a) moduleOp) := by
      intro ops
      induction ops with
      | nil =>
        rintro usageInfo (h | ⟨-, hmem⟩)
        · exact h
        · cases hmem
      | cons op' ops ih =>
        intro usageInfo h
        rw [List.foldl_cons]
        refine ih _ ?_
        rw [UsageInfo.lookup_resolveDeviceName]
        rcases h with h | ⟨h, hmem⟩
        · exact Or.inl (by rw [h, Option.some_or])
        · rw [h, Option.none_or]
          by_cases hop' : op'.affinity = some a
          · exact Or.inl (if_pos hop')
          · rcases List.mem_cons.mp hmem with rfl | hmem
            · exact absurd haff hop'
            · exact Or.inr ⟨if_neg hop', hmem⟩
    rw [UsageInfo.getDeviceName, analyze_eq, hfold _ ⟨[]⟩ (Or.inr ⟨rfl, hop⟩), Option.getD_some]

end CoralNPU.Affinity
