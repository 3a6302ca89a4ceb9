import CoralNPU.Affinity.ExecutionProfile
import CoralNPU.Lib.JsonWeight

namespace CoralNPU.Affinity

open Lib

/-!
# Affinity — the profile as JSON

* `printReportJSON` — the report.  Names are printed between quotes as they are.
* `ReportLossless` — the report is JSON, and its affinities are those of the map with their counts.
* `weight_report` — the report has as many backslashes and letters `u` as its entries need.
* `reportLossless_iff` — when it is: the names need no escapes and are different.
-/

/-- The format `{0}` of a number. -/
def formatNumber (v : Int) : Bytes := utf8 (decimal v)

/-- A line of the statistics without its end: `      "<name>": {0}`. -/
def formatField (name : String) (value : Bytes) : Bytes :=
  literal "      \"" ++ literal name ++ literal "\": " ++ value

/-- The lines of one affinity. -/
def printAffinityJSON (deviceName : Bytes) (affStats : AffinityStats) : Bytes :=
  literal "    \"" ++ deviceName ++ literal "\": \x7b\n" ++
  formatField "dispatch-count" (formatNumber affStats.dispatchCount.toNat) ++ literal ",\n" ++
  formatField "static-dispatch-count" (formatNumber affStats.staticDispatchCount.toNat) ++
    literal ",\n" ++
  formatField "dynamic-dispatch-count"
    (formatNumber (affStats.dispatchCount - affStats.staticDispatchCount).toNat) ++ literal ",\n" ++
  formatField "static-data-size-bytes" (formatNumber affStats.staticDispatchDataSize.toInt) ++
    literal ",\n" ++
  formatField "has-dynamic-data-size"
    (literal (if affStats.hasDynamicDispatch then "true" else "false")) ++ literal ",\n" ++
  formatField "static-elements-count" (formatNumber affStats.staticDispatchElements.toInt) ++
    literal ",\n" ++
  formatField "has-dynamic-elements"
    (literal (if affStats.hasDynamicDispatch then "true" else "false")) ++ literal ",\n" ++
  formatField "static-work-bytes" (formatNumber affStats.staticWorkBytes.toInt) ++ literal ",\n" ++
  formatField "static-work-elements" (formatNumber affStats.staticWorkElements.toInt) ++
    literal ",\n" ++
  formatField "fill-count" (formatNumber affStats.fillCount.toNat) ++ literal ",\n" ++
  formatField "copy-count" (formatNumber affStats.copyCount.toNat) ++ literal "\n" ++
  literal "    \x7d"

/-- `printReportJSON`. -/
def printReportJSON (usageInfo : UsageInfo) (stats : StatsMap) : Bytes :=
  let os := literal "\x7b\n" ++ literal "  \"affinities\": \x7b\n"
  let (os, _) := stats.entries.foldl (fun (os, firstAffinity) (affinity, affStats) =>
    ((if !firstAffinity then os ++ literal ",\n" else os) ++
      printAffinityJSON (usageInfo.getDeviceName affinity) affStats, false)) (os, true)
  os ++ literal "\n  \x7d\n" ++ literal "\x7d\n"

/-! ### What the report says -/

/-- The counts of an affinity. -/
def statsJson (affStats : AffinityStats) : Json := .obj
  [(literal "dispatch-count", .num affStats.dispatchCount.toNat 0),
    (literal "static-dispatch-count", .num affStats.staticDispatchCount.toNat 0),
    (literal "dynamic-dispatch-count",
      .num (affStats.dispatchCount - affStats.staticDispatchCount).toNat 0),
    (literal "static-data-size-bytes", .num affStats.staticDispatchDataSize.toInt 0),
    (literal "has-dynamic-data-size", .bool affStats.hasDynamicDispatch),
    (literal "static-elements-count", .num affStats.staticDispatchElements.toInt 0),
    (literal "has-dynamic-elements", .bool affStats.hasDynamicDispatch),
    (literal "static-work-bytes", .num affStats.staticWorkBytes.toInt 0),
    (literal "static-work-elements", .num affStats.staticWorkElements.toInt 0),
    (literal "fill-count", .num affStats.fillCount.toNat 0),
    (literal "copy-count", .num affStats.copyCount.toNat 0)]

/-- The entry of an affinity: the counts under its name. -/
def reportEntry (usageInfo : UsageInfo) (e : Option AffinityAttr × AffinityStats) : Bytes × Json :=
  (usageInfo.getDeviceName e.1, statsJson e.2)

/-- The report is JSON. Its affinities have different names, and are the entries of the map in some
    order. -/
def ReportLossless (usageInfo : UsageInfo) (stats : StatsMap) : Prop :=
  ∃ affinities, Json.parse (printReportJSON usageInfo stats)
      = some (.obj [(literal "affinities", .obj affinities)]) ∧
    (affinities.map Prod.fst).Nodup ∧
    affinities.Perm (stats.entries.map (reportEntry usageInfo))

/-! ### The report as an object -/

/-- A field with a number. -/
def numField (name : String) (v : Int) : Json.Member where
  name := literal name
  text := formatNumber v
  value := .num v 0
  reads := Json.reads_decimal v

/-- A field with a condition. -/
def boolField (name : String) (b : Bool) : Json.Member where
  name := literal name
  text := literal (if b then "true" else "false")
  value := .bool b
  reads := Json.reads_bool b

/-- The fields of an affinity. -/
def statsFields (affStats : AffinityStats) : List Json.Member :=
  [numField "dispatch-count" affStats.dispatchCount.toNat,
    numField "static-dispatch-count" affStats.staticDispatchCount.toNat,
    numField "dynamic-dispatch-count" (affStats.dispatchCount - affStats.staticDispatchCount).toNat,
    numField "static-data-size-bytes" affStats.staticDispatchDataSize.toInt,
    boolField "has-dynamic-data-size" affStats.hasDynamicDispatch,
    numField "static-elements-count" affStats.staticDispatchElements.toInt,
    boolField "has-dynamic-elements" affStats.hasDynamicDispatch,
    numField "static-work-bytes" affStats.staticWorkBytes.toInt,
    numField "static-work-elements" affStats.staticWorkElements.toInt,
    numField "fill-count" affStats.fillCount.toNat,
    numField "copy-count" affStats.copyCount.toNat]

/-- The names of the fields. -/
def fieldNames : List String :=
  ["dispatch-count", "static-dispatch-count", "dynamic-dispatch-count", "static-data-size-bytes",
    "has-dynamic-data-size", "static-elements-count", "has-dynamic-elements", "static-work-bytes",
    "static-work-elements", "fill-count", "copy-count"]

/-- The names of the fields need no escapes. -/
theorem plain_statsFields (affStats : AffinityStats) :
    ∀ m ∈ statsFields affStats, Json.Plain m.name := by
  intro m hm
  have hnames : (statsFields affStats).map Json.Member.name = fieldNames.map literal := rfl
  have hplain : fieldNames.all (fun name => (literal name).all fun c => Json.PlainByte c) := by
    decide
  have hname : m.name ∈ fieldNames.map literal := hnames ▸ List.mem_map_of_mem hm
  obtain ⟨name, hmem, hname⟩ := List.mem_map.mp hname
  rw [← hname]
  exact ⟨⟨_, rfl⟩, List.all_iff_forall_prop.mp (List.all_eq_true.mp hplain name hmem)⟩

/-- The object of one affinity. -/
def affinityMember (usageInfo : UsageInfo) (e : Option AffinityAttr × AffinityStats) :
    Json.Member where
  name := usageInfo.getDeviceName e.1
  text := Json.objectText (literal "      ") (literal "    ") (statsFields e.2)
  value := statsJson e.2
  reads := Json.reads_objectText (List.all_eq_true.mp rfl) (List.all_eq_true.mp rfl)
    (plain_statsFields e.2)

theorem formatField_eq (name : String) (value : Bytes) :
    formatField name value = literal "      " ++ Json.memberText (literal name) value := by
  have hopen : literal "      \"" = literal "      " ++ [0x22] := rfl
  have hclose : literal "\": " = [0x22, 0x3A, 0x20] := rfl
  rw [formatField, hopen, hclose, Json.memberText]
  simp only [List.append_assoc, List.cons_append, List.nil_append]

theorem printAffinityJSON_eq (usageInfo : UsageInfo) (e : Option AffinityAttr × AffinityStats) :
    printAffinityJSON (usageInfo.getDeviceName e.1) e.2 = literal "    " ++
      Json.memberText (affinityMember usageInfo e).name (affinityMember usageInfo e).text := by
  have hopen : literal "    \"" = literal "    " ++ [0x22] := rfl
  have hbrace : literal "\": \x7b\n" = [0x22, 0x3A, 0x20, 0x7B, 0x0A] := rfl
  have hsep : literal ",\n" = [0x2C, 0x0A] := rfl
  have hend : literal "\n" ++ literal "    \x7d" = 0x0A :: (literal "    " ++ [0x7D]) := rfl
  show _ = literal "    " ++ Json.memberText (usageInfo.getDeviceName e.1)
    (Json.objectText (literal "      ") (literal "    ") (statsFields e.2))
  have hobject : ∀ name lines : Bytes, Json.memberText name (0x7B :: 0x0A :: lines)
      = [0x22] ++ (name ++ ([0x22, 0x3A, 0x20, 0x7B, 0x0A] ++ lines)) := fun _ _ => rfl
  unfold printAffinityJSON
  simp only [formatField_eq, hopen, hbrace, hsep]
  rw [Json.objectText, hobject]
  simp only [statsFields, numField, boolField, List.map_cons, List.map_nil,
    List.intercalate_cons_cons, List.intercalate_singleton, List.append_assoc, hend]

/-- The object of all affinities. -/
def affinitiesText (usageInfo : UsageInfo) (stats : StatsMap) : Bytes :=
  Json.objectText (literal "    ") (literal "  ") (stats.entries.map (affinityMember usageInfo))

/-- **The report is an object** with one member, the object of all affinities. -/
theorem printReportJSON_eq (usageInfo : UsageInfo) (stats : StatsMap) :
    printReportJSON usageInfo stats = 0x7B :: ((0x0A :: literal "  ") ++
      Json.memberText (literal "affinities")
        (affinitiesText usageInfo stats ++ 0x0A :: 0x7D :: [0x0A])) := by
  have hopen : literal "\x7b\n" ++ literal "  \"affinities\": \x7b\n"
      = 0x7B :: (0x0A :: literal "  ") ++
        0x22 :: (literal "affinities" ++ [0x22, 0x3A, 0x20, 0x7B, 0x0A]) := rfl
  have hend : literal "\n  \x7d\n" ++ literal "\x7d\n"
      = 0x0A :: (literal "  " ++ [0x7D]) ++ 0x0A :: 0x7D :: [0x0A] := rfl
  have hsep : literal ",\n" = [0x2C, 0x0A] := rfl
  -- every round of the loop prints one member
  have hlines : (stats.entries.map (affinityMember usageInfo)).map
      (fun m => literal "    " ++ Json.memberText m.name m.text)
        = stats.entries.map fun e => printAffinityJSON (usageInfo.getDeviceName e.1) e.2 := by
    rw [List.map_map]
    exact List.map_congr_left fun e _ => (printAffinityJSON_eq usageInfo e).symm
  have hloop := foldl_join_first (literal ",\n") (fun e : Option AffinityAttr × AffinityStats =>
    printAffinityJSON (usageInfo.getDeviceName e.1) e.2) stats.entries
    (literal "\x7b\n" ++ literal "  \"affinities\": \x7b\n")
  unfold printReportJSON affinitiesText
  dsimp only
  rw [hloop, Json.objectText, hlines, List.append_assoc, hend, hopen]
  simp only [hsep, Json.memberText, List.append_assoc, List.cons_append, List.nil_append]

/-! ### Reading the report -/

theorem affinities_entries (usageInfo : UsageInfo) (stats : StatsMap) :
    (stats.entries.map (affinityMember usageInfo)).map Json.Member.entry
      = stats.entries.map (reportEntry usageInfo) := List.map_map

theorem plain_affinities : Json.Plain (literal "affinities") :=
  ⟨⟨_, rfl⟩, List.all_iff_forall_prop.mp (by decide)⟩

/-- The only member of the report. -/
def affinitiesMember (usageInfo : UsageInfo) (stats : StatsMap)
    (hplain : ∀ e ∈ stats.entries, Json.Plain (usageInfo.getDeviceName e.1)) : Json.Member where
  name := literal "affinities"
  text := affinitiesText usageInfo stats
  value := .obj (stats.entries.map (reportEntry usageInfo))
  reads := by
    rw [← affinities_entries]
    exact Json.reads_objectText (List.all_eq_true.mp rfl) (List.all_eq_true.mp rfl)
      (List.forall_mem_map.mpr hplain)

/-- **The report is JSON** if the names need no escapes. -/
theorem parse_report {usageInfo : UsageInfo} {stats : StatsMap}
    (hplain : ∀ e ∈ stats.entries, Json.Plain (usageInfo.getDeviceName e.1)) :
    Json.parse (printReportJSON usageInfo stats)
      = some (.obj [(literal "affinities", .obj (stats.entries.map (reportEntry usageInfo)))]) := by
  -- the report is an object with one member, and the end of a line
  have htext : printReportJSON usageInfo stats
      = Json.objectText (literal "  ") [] [affinitiesMember usageInfo stats hplain] ++ [0x0A] := by
    rw [printReportJSON_eq, Json.objectText_cons]
    simp only [affinitiesMember, Json.followers, List.flatMap_nil, List.nil_append,
      List.cons_append, List.append_assoc, Json.memberText_append]
  have hread := @Json.reads_objectText (literal "  ") [] [affinitiesMember usageInfo stats hplain]
    (List.all_eq_true.mp rfl) (List.all_eq_true.mp rfl)
    (List.forall_mem_singleton.mpr plain_affinities)
  have hends : Json.Ends [0x0A] := by
    intro c hc
    obtain rfl := Option.some.inj hc
    exact Or.inl rfl
  rw [Json.parse, htext, hread _ [0x0A] (by rw [List.length_append]; omega) hends]
  rfl

/-! ### The weight of the report -/

theorem exact_statsFields (affStats : AffinityStats) :
    ∀ m ∈ statsFields affStats, m.Exact := by
  have hnum : ∀ (name : String) (v : Int), (numField name v).Exact := fun _ v =>
    Json.weight_decimal v
  have hbool : ∀ (name : String) (b : Bool), (boolField name b).Exact := by
    intro name b
    cases b with
    | true => rfl
    | false => rfl
  simp only [statsFields, List.forall_mem_cons]
  exact ⟨hnum _ _, hnum _ _, hnum _ _, hnum _ _, hbool _ _, hnum _ _, hbool _ _, hnum _ _, hnum _ _,
    hnum _ _, hnum _ _, fun m hm => absurd hm List.not_mem_nil⟩

theorem exact_affinityMember (usageInfo : UsageInfo) (e : Option AffinityAttr × AffinityStats) :
    (affinityMember usageInfo e).Exact :=
  Json.weight_objectText (List.all_eq_true.mp rfl) (List.all_eq_true.mp rfl)
    (exact_statsFields e.2)

/-- **The report weighs as much as the entries of the map**, whatever their names are. -/
theorem weight_report (usageInfo : UsageInfo) (stats : StatsMap) :
    Json.weight (printReportJSON usageInfo stats)
      = Json.costMembers (stats.entries.map (reportEntry usageInfo)) := by
  have hexact : ∀ m ∈ stats.entries.map (affinityMember usageInfo), m.Exact := by
    intro m hm
    obtain ⟨e, -, rfl⟩ := List.mem_map.mp hm
    exact exact_affinityMember usageInfo e
  have hname : Json.weight (literal "affinities") = 0 := rfl
  have hspace : Json.weight (0x0A :: literal "  ") = 0 := rfl
  have hend : Json.weight (0x0A :: 0x7D :: [0x0A]) = 0 := rfl
  rw [printReportJSON_eq, Json.weight_cons_of_neg rfl, Json.weight_append, hspace,
    Json.weight_memberText, hname, Json.weight_append, hend, affinitiesText,
    Json.weight_objectText (List.all_eq_true.mp rfl) (List.all_eq_true.mp rfl) hexact,
    affinities_entries, Nat.add_zero, Nat.zero_add, Nat.zero_add]

/-- **Only then**: the names in a report that loses nothing need no escapes, and are different. -/
theorem names_of_lossless {usageInfo : UsageInfo} {stats : StatsMap}
    (h : ReportLossless usageInfo stats) :
    (∀ e ∈ stats.entries, Json.Plain (usageInfo.getDeviceName e.1)) ∧
      (stats.entries.map fun e => usageInfo.getDeviceName e.1).Nodup := by
  obtain ⟨affinities, hparse, hnodup, hperm⟩ := h
  -- the affinities that were read weigh as much as the report
  have hweight : Json.weight (printReportJSON usageInfo stats)
      ≤ Json.cost (.obj [(literal "affinities", .obj affinities)]) := by
    rw [weight_report, ← Json.costMembers_perm hperm, Json.cost, Json.costMembers, Json.cost]
    omega
  have hplain := Json.plain_of_parse hparse hweight
  rw [Json.AllPlain, Json.AllPlainMembers, Json.AllPlain] at hplain
  constructor
  · intro e he
    exact hplain.1.2.names _ (hperm.mem_iff.mpr (List.mem_map_of_mem he))
  · have hnames := (hperm.map Prod.fst).nodup_iff.mp hnodup
    rw [List.map_map] at hnames
    exact hnames

theorem lossless_of_names {usageInfo : UsageInfo} {stats : StatsMap}
    (hplain : ∀ e ∈ stats.entries, Json.Plain (usageInfo.getDeviceName e.1))
    (hnodup : (stats.entries.map fun e => usageInfo.getDeviceName e.1).Nodup) :
    ReportLossless usageInfo stats := by
  refine ⟨_, parse_report hplain, ?_, List.Perm.refl _⟩
  rw [List.map_map]
  exact hnodup

/-- **The report loses nothing** exactly if the names need no escapes and are different. -/
theorem reportLossless_iff (usageInfo : UsageInfo) (stats : StatsMap) :
    ReportLossless usageInfo stats ↔
      (∀ e ∈ stats.entries, Json.Plain (usageInfo.getDeviceName e.1)) ∧
      (stats.entries.map fun e => usageInfo.getDeviceName e.1).Nodup :=
  ⟨names_of_lossless, fun h => lossless_of_names h.1 h.2⟩

/-- Two globals for the local device. -/
def twoLocals : ModuleOp where
  lookupNearestSymbolFrom _ := some ⟨some (.target (literal "local"))⟩
  executeOps := [[⟨some (.device ⟨literal "device_a", []⟩ (-1)), .cmdFill⟩,
    ⟨some (.device ⟨literal "device_b", []⟩ (-1)), .cmdFill⟩]]

/-- A global that selects between two devices, one of them by an alias. -/
def selectAlias : ModuleOp where
  lookupNearestSymbolFrom _ := some ⟨some (.select
    [.target (literal "coralnpu"), .other (literal "#hal.device.alias<\"local\">")])⟩
  executeOps := [[⟨some (.device ⟨literal "device", []⟩ (-1)), .cmdFill⟩]]

/-- The two affinities have one name, and the name of the select has quotes. -/
theorem twoLocals_not_lossless :
    ¬ ReportLossless (analyze twoLocals) (analyzeStatistics twoLocals) ∧
      ¬ ReportLossless (analyze selectAlias) (analyzeStatistics selectAlias) := by
  constructor
  · intro h
    exact absurd (names_of_lossless h).2 (by decide)
  · intro h
    exact absurd (names_of_lossless h).1 (by decide)

/-- **The report of a module** loses nothing exactly if its affinities have names that need no
    escapes, and different affinities have different names. -/
theorem analyze_lossless_iff (moduleOp : ModuleOp) :
    ReportLossless (analyze moduleOp) (analyzeStatistics moduleOp) ↔
      (∀ op ∈ moduleOp.ops, Json.Plain (resolveDeviceNameImpl op.affinity moduleOp)) ∧
      ∀ op ∈ moduleOp.ops, ∀ op' ∈ moduleOp.ops,
        resolveDeviceNameImpl op.affinity moduleOp = resolveDeviceNameImpl op'.affinity moduleOp →
          op.affinity = op'.affinity := by
  have hkeys : ∀ P : Option AffinityAttr → Prop,
      (∀ a ∈ (analyzeStatistics moduleOp).entries.map Prod.fst, P a) ↔
        ∀ op ∈ moduleOp.ops, P op.affinity := by
    intro P
    constructor
    · exact fun h op hop => h _ (mem_analyzeStatistics.mpr ⟨op, hop, rfl⟩)
    · intro h a ha
      obtain ⟨op, hop, rfl⟩ := mem_analyzeStatistics.mp ha
      exact h op hop
  have hplain : (∀ e ∈ (analyzeStatistics moduleOp).entries,
      Json.Plain ((analyze moduleOp).getDeviceName e.1)) ↔
        ∀ op ∈ moduleOp.ops, Json.Plain (resolveDeviceNameImpl op.affinity moduleOp) := by
    rw [← hkeys fun a => Json.Plain (resolveDeviceNameImpl a moduleOp), List.forall_mem_map]
    refine forall₂_congr fun e he => ?_
    rw [getDeviceName_analyze (List.mem_map_of_mem he)]
  have hdistinct : ((analyzeStatistics moduleOp).entries.map fun e =>
      (analyze moduleOp).getDeviceName e.1).Nodup ↔ ∀ op ∈ moduleOp.ops, ∀ op' ∈ moduleOp.ops,
        resolveDeviceNameImpl op.affinity moduleOp = resolveDeviceNameImpl op'.affinity moduleOp →
          op.affinity = op'.affinity := by
    have hnames : ((analyzeStatistics moduleOp).entries.map fun e =>
        (analyze moduleOp).getDeviceName e.1)
          = ((analyzeStatistics moduleOp).entries.map Prod.fst).map fun a =>
            resolveDeviceNameImpl a moduleOp := by
      rw [List.map_map]
      exact List.map_congr_left fun e he => getDeviceName_analyze (List.mem_map_of_mem he)
    rw [hnames, List.nodup_map_iff_inj_on (analyzeStatistics moduleOp).nodup, hkeys]
    refine forall₂_congr fun op _ => ?_
    rw [hkeys]
  rw [← hplain, ← hdistinct]
  exact ⟨names_of_lossless, fun h => lossless_of_names h.1 h.2⟩

end CoralNPU.Affinity
