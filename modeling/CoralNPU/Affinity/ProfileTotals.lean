import CoralNPU.Affinity.ExecutionProfile
import CoralNPU.Lib.GroupBy

namespace CoralNPU.Affinity

open Lib

/-!
# Affinity — what the statistics count

`analyzeStatistics` changes one row of the table for every operation, and `printReportPretty` adds the
rows up first.

* `profileOf` — the statistics of a list of operations, each counter by itself.
* `totals` — the sums over the rows, in `printReportPretty`.
* `analyzeStatistics_profile` — the rows are those of the affinities that occur, in the order in which
  they occur first.  Each has the statistics of the operations with its affinity, and the totals are those
  of all operations.
-/

/-! ### The counters -/

def Operation.isFill (op : Operation) : Bool :=
  match op.kind with
  | .cmdFill => true
  | _ => false

def Operation.isCopy (op : Operation) : Bool :=
  match op.kind with
  | .cmdCopy => true
  | _ => false

def Operation.isDispatch (op : Operation) : Bool :=
  match op.kind with
  | .cmdDispatch _ => true
  | _ => false

/-- The function that a dispatch is analyzed by. -/
def Operation.funcInfo (op : Operation) : Option ExecutableFuncInfo :=
  match op.kind with
  | .cmdDispatch entryPoints => entryPoints.getLast?
  | _ => none

/-- A dispatch with a condition on its function. -/
def Operation.dispatches (op : Operation) (p : ExecutableFuncInfo → Bool) : Bool := op.funcInfo.any p

/-- What a dispatch with static shapes adds to a sum; other operations add nothing. -/
def Operation.staticWeight (f : ExecutableFuncInfo → Int) (op : Operation) : Int :=
  match op.funcInfo with
  | some funcInfo => if funcInfo.isDynamic then 0 else f funcInfo
  | none => 0

/-- `funcInfo.logicalDataSize * funcInfo.opCount` -/
def ExecutableFuncInfo.workBytes (funcInfo : ExecutableFuncInfo) : Int :=
  funcInfo.logicalDataSize.toInt * funcInfo.opCount.toInt

/-- `funcInfo.elementCount * funcInfo.opCount` -/
def ExecutableFuncInfo.workElements (funcInfo : ExecutableFuncInfo) : Int :=
  funcInfo.elementCount.toInt * funcInfo.opCount.toInt

/-- The statistics of some operations. -/
def profileOf (ops : List Operation) : AffinityStats where
  fillCount := UInt64.ofNat (ops.countP Operation.isFill)
  copyCount := UInt64.ofNat (ops.countP Operation.isCopy)
  dispatchCount := UInt64.ofNat (ops.countP Operation.isDispatch)
  staticDispatchCount := UInt64.ofNat (ops.countP (·.dispatches fun funcInfo => !funcInfo.isDynamic))
  hasDynamicDispatch := ops.any (·.dispatches ExecutableFuncInfo.isDynamic)
  staticDispatchDataSize :=
    Int64.ofInt (sumOf (Operation.staticWeight fun funcInfo => funcInfo.logicalDataSize.toInt) ops)
  staticDispatchElements :=
    Int64.ofInt (sumOf (Operation.staticWeight fun funcInfo => funcInfo.elementCount.toInt) ops)
  staticWorkBytes := Int64.ofInt (sumOf (Operation.staticWeight ExecutableFuncInfo.workBytes) ops)
  staticWorkElements := Int64.ofInt (sumOf (Operation.staticWeight ExecutableFuncInfo.workElements) ops)

/-- **One operation** changes each counter by what it adds. -/
theorem countOp_profileOf (op : Operation) (ops : List Operation) :
    countOp op (profileOf ops) = profileOf (ops ++ [op]) := by
  have hsum : ∀ f, sumOf (Operation.staticWeight f) (ops ++ [op])
      = sumOf (Operation.staticWeight f) ops + op.staticWeight f := by
    intro f
    rw [sumOf_append, sumOf, sumOf, Int.add_zero]
  obtain ⟨affinity, kind⟩ := op
  simp only [profileOf, List.countP_append, List.countP_singleton, List.any_append, List.any_cons,
    List.any_nil, hsum, Bool.or_false]
  cases kind with
  | cmdFill | cmdCopy | other =>
    simp [countOp, Operation.isFill, Operation.isCopy, Operation.isDispatch, Operation.funcInfo,
      Operation.dispatches, Operation.staticWeight]
  | cmdDispatch entryPoints =>
    cases hlast : entryPoints.getLast? with
    | none =>
      simp [countOp, Operation.isFill, Operation.isCopy, Operation.isDispatch, Operation.funcInfo,
        Operation.dispatches, Operation.staticWeight, hlast]
    | some funcInfo =>
      by_cases hdynamic : funcInfo.isDynamic = true
      · simp [countOp, analyzeDispatch, Operation.isFill, Operation.isCopy, Operation.isDispatch,
          Operation.funcInfo, Operation.dispatches, Operation.staticWeight, hlast, hdynamic]
      · simp [countOp, analyzeDispatch, Operation.isFill, Operation.isCopy, Operation.isDispatch,
          Operation.funcInfo, Operation.dispatches, Operation.staticWeight, hlast, hdynamic,
          ExecutableFuncInfo.workBytes, ExecutableFuncInfo.workElements, Int64.ofInt_add,
          Int64.ofInt_mul]

/-- The operations of an affinity, one after the other. -/
theorem foldl_countOp (ops : List Operation) :
    ops.foldl (fun affStats op => countOp op affStats) {} = profileOf ops := by
  induction ops using List.reverseRecOn with
  | nil => rfl
  | append_singleton ops op ih => rw [List.foldl_append, ih, List.foldl_cons, List.foldl_nil,
      countOp_profileOf]

/-! ### The rows -/

theorem entries_modify (stats : StatsMap) (affinity : Option AffinityAttr)
    (f : AffinityStats → AffinityStats) :
    (stats.modify affinity f).entries = upsert affinity {} f stats.entries := by
  rw [StatsMap.modify, upsert]
  split <;> rfl

/-- **The rows** are the affinities that occur, with the statistics of their operations. -/
theorem entries_analyzeStatistics (moduleOp : ModuleOp) :
    (analyzeStatistics moduleOp).entries = (keysOf Operation.affinity moduleOp.ops).map fun affinity =>
      (affinity, profileOf (moduleOp.ops.filter (·.affinity = affinity))) := by
  have hentries : ∀ (ops : List Operation) (stats : StatsMap),
      (ops.foldl (fun stats op => stats.modify op.affinity (countOp op)) stats).entries
        = ops.foldl (fun rows op => upsert op.affinity {} (countOp op) rows) stats.entries := by
    intro ops
    induction ops with
    | nil => exact fun _ => rfl
    | cons op ops ih =>
      intro stats
      rw [List.foldl_cons, ih, entries_modify, List.foldl_cons]
  rw [analyzeStatistics_eq, hentries]
  refine (foldl_upsert Operation.affinity {} (fun affStats op => countOp op affStats) _).trans ?_
  rw [groupFold]
  exact List.map_congr_left fun affinity _ => congrArg (affinity, ·)
    (foldl_countOp (moduleOp.ops.filter (·.affinity = affinity)))

/-! ### The totals -/

/-- The sums that `printReportPretty` makes first. -/
structure Totals where
  totalDispatchCount : Int64
  totalStaticWorkBytes : Int64
  totalStaticWorkElements : Int64
  deriving DecidableEq, Repr

/-- The loop in `printReportPretty` that makes them. -/
def totals (stats : StatsMap) : Totals :=
  stats.entries.foldl (fun sums (_, affStats) =>
    { totalDispatchCount := sums.totalDispatchCount + affStats.dispatchCount.toInt64
      totalStaticWorkBytes := sums.totalStaticWorkBytes + affStats.staticWorkBytes
      totalStaticWorkElements := sums.totalStaticWorkElements + affStats.staticWorkElements }) ⟨0, 0, 0⟩

/-- A sum of ones is a count. -/
theorem sumOf_ite (p : Operation → Bool) (ops : List Operation) :
    sumOf (fun op => if p op then 1 else 0) ops = ops.countP p := by
  induction ops with
  | nil => rfl
  | cons op ops ih =>
    rw [sumOf, ih, List.countP_cons]
    split <;> omega

/-- The totals of all operations. -/
def totalsOf (ops : List Operation) : Totals where
  totalDispatchCount := Int64.ofNat (ops.countP Operation.isDispatch)
  totalStaticWorkBytes := Int64.ofInt (sumOf (Operation.staticWeight ExecutableFuncInfo.workBytes) ops)
  totalStaticWorkElements :=
    Int64.ofInt (sumOf (Operation.staticWeight ExecutableFuncInfo.workElements) ops)

/-- **The totals over the rows** are those over all operations. -/
theorem totals_analyzeStatistics (moduleOp : ModuleOp) :
    totals (analyzeStatistics moduleOp) = totalsOf moduleOp.ops := by
  have hfold : ∀ (affinities : List (Option AffinityAttr)) (g : Option AffinityAttr → List Operation)
      (a b c : Int),
      (affinities.map fun affinity => (affinity, profileOf (g affinity))).foldl (fun sums row =>
        { totalDispatchCount := sums.totalDispatchCount + row.2.dispatchCount.toInt64
          totalStaticWorkBytes := sums.totalStaticWorkBytes + row.2.staticWorkBytes
          totalStaticWorkElements := sums.totalStaticWorkElements + row.2.staticWorkElements })
        (⟨Int64.ofInt a, Int64.ofInt b, Int64.ofInt c⟩ : Totals)
      = ⟨Int64.ofInt (a + sumOf (fun affinity =>
            sumOf (fun op => if op.isDispatch then 1 else 0) (g affinity)) affinities),
          Int64.ofInt (b + sumOf (fun affinity =>
            sumOf (Operation.staticWeight ExecutableFuncInfo.workBytes) (g affinity)) affinities),
          Int64.ofInt (c + sumOf (fun affinity =>
            sumOf (Operation.staticWeight ExecutableFuncInfo.workElements) (g affinity)) affinities)⟩ := by
    intro affinities g
    induction affinities with
    | nil =>
      intro a b c
      simp [sumOf]
    | cons affinity affinities ih =>
      intro a b c
      rw [List.map_cons, List.foldl_cons]
      simp only [sumOf, ← Int.add_assoc]
      rw [← ih]
      simp only [profileOf, UInt64.toInt64_ofNat', ← Int64.ofInt_eq_ofNat, Int64.ofInt_add, sumOf_ite]
  have hall := hfold (keysOf Operation.affinity moduleOp.ops)
    (fun affinity => moduleOp.ops.filter (·.affinity = affinity)) 0 0 0
  rw [totals, entries_analyzeStatistics]
  refine hall.trans ?_
  have hgroups := fun w => sumOf_groups Operation.affinity w moduleOp.ops
  simp only [hgroups, Int.zero_add]
  rw [sumOf_ite, Int64.ofInt_eq_ofNat, totalsOf]

/-- **The statistics count every operation once**, in the row of its affinity. -/
theorem analyzeStatistics_profile (moduleOp : ModuleOp) :
    (analyzeStatistics moduleOp).entries = (keysOf Operation.affinity moduleOp.ops).map (fun affinity =>
        (affinity, profileOf (moduleOp.ops.filter (·.affinity = affinity)))) ∧
      totals (analyzeStatistics moduleOp) = totalsOf moduleOp.ops :=
  ⟨entries_analyzeStatistics moduleOp, totals_analyzeStatistics moduleOp⟩

end CoralNPU.Affinity
