import CoralNPU.Affinity.ReportJson
import CoralNPU.Lib.Csv

namespace CoralNPU.Affinity

open Lib

/-!
# Affinity — the profile as comma-separated values

* `printReportCSV` — the report.  Names are printed between quotes as they are.
* `CsvLossless` — the report is a table of the columns and the statistics.
* `csvLossless_iff` — when it is: no name has a quote.
-/

/-- The columns behind the name of the affinity. -/
def csvColumns : List String :=
  ["Dispatches", "Static", "Dynamic", "Estimated Static Data Size (Bytes)", "Estimated Static Elements",
    "Estimated Static Work (Op-Bytes)", "Estimated Static Work (Op-Elems)", "Fills", "Copies"]

/-- The numbers of a line, in the order of the columns. -/
def csvNumbers (affStats : AffinityStats) : List Int :=
  [affStats.dispatchCount.toNat, affStats.staticDispatchCount.toNat,
    (affStats.dispatchCount - affStats.staticDispatchCount).toNat,
    affStats.staticDispatchDataSize.toInt, affStats.staticDispatchElements.toInt,
    affStats.staticWorkBytes.toInt, affStats.staticWorkElements.toInt,
    affStats.fillCount.toNat, affStats.copyCount.toNat]

/-- The line of an affinity, without its end. -/
def formatCsvLine (affinityStr : Bytes) (affStats : AffinityStats) : Bytes :=
  literal "\"" ++ affinityStr ++ literal "\"," ++
  formatNumber affStats.dispatchCount.toNat ++ literal "," ++
  formatNumber affStats.staticDispatchCount.toNat ++ literal "," ++
  formatNumber (affStats.dispatchCount - affStats.staticDispatchCount).toNat ++ literal "," ++
  formatNumber affStats.staticDispatchDataSize.toInt ++ literal "," ++
  formatNumber affStats.staticDispatchElements.toInt ++ literal "," ++
  formatNumber affStats.staticWorkBytes.toInt ++ literal "," ++
  formatNumber affStats.staticWorkElements.toInt ++ literal "," ++
  formatNumber affStats.fillCount.toNat ++ literal "," ++
  formatNumber affStats.copyCount.toNat

/-- The line of the columns, without its end. -/
def csvTitle : String :=
  "\"Affinity\",\"Dispatches\",\"Static\",\"Dynamic\",\"Estimated Static " ++
  "Data Size (Bytes)\",\"Estimated Static Elements\",\"Estimated Static " ++
  "Work (Op-Bytes)\",\"Estimated Static Work " ++
  "(Op-Elems)\",\"Fills\",\"Copies\""

/-- `printReportCSV`. -/
def printReportCSV (usageInfo : UsageInfo) (stats : StatsMap) : Bytes :=
  let os := literal csvTitle
  let os := os ++ literal "\n"
  stats.entries.foldl (fun os (affinity, affStats) =>
    os ++ formatCsvLine (usageInfo.getDeviceName affinity) affStats ++ literal "\n") os

/-! ### What the report says -/

/-- The record of the columns. -/
def csvHeader : List Bytes := literal "Affinity" :: csvColumns.map literal

/-- The record of an affinity. -/
def csvRecord (usageInfo : UsageInfo) (e : Option AffinityAttr × AffinityStats) : List Bytes :=
  usageInfo.getDeviceName e.1 :: (csvNumbers e.2).map formatNumber

/-- The report is a table: the columns, and a record for each entry of the map. -/
def CsvLossless (usageInfo : UsageInfo) (stats : StatsMap) : Prop :=
  Csv.parse (printReportCSV usageInfo stats)
    = some (csvHeader :: stats.entries.map (csvRecord usageInfo))

/-! ### The report as lines -/

theorem field_number (v : Int) : Csv.Field (formatNumber v) (formatNumber v) := by
  refine Csv.field_text fun c hc => ?_
  rcases Json.bytes_decimal v c hc with rfl | hdigit
  · decide
  · simp only [Csv.isText, Bool.and_eq_true, bne_iff_ne]
    refine ⟨⟨⟨?_, ?_⟩, ?_⟩, ?_⟩ <;>
    · rintro rfl
      exact absurd hdigit (by decide)

/-- The line of an affinity. -/
def csvRow (usageInfo : UsageInfo) (e : Option AffinityAttr × AffinityStats) : Csv.Row where
  name := usageInfo.getDeviceName e.1
  fields := (csvNumbers e.2).map fun v => (formatNumber v, formatNumber v)
  fields_ne := by simp [csvNumbers]
  reads := by
    intro field hfield
    obtain ⟨v, -, rfl⟩ := List.mem_map.mp hfield
    exact field_number v

/-- The line of the columns. -/
def csvHeaderRow : Csv.Row where
  name := literal "Affinity"
  fields := csvColumns.map fun column => (0x22 :: (literal column ++ [0x22]), literal column)
  fields_ne := by simp [csvColumns]
  reads := by
    intro field hfield
    obtain ⟨column, hcolumn, rfl⟩ := List.mem_map.mp hfield
    have hall : csvColumns.all (fun column => (literal column).all (· ≠ 0x22)) := by decide
    refine Csv.field_quoted fun hmem => ?_
    have hne := List.all_eq_true.mp (List.all_eq_true.mp hall column hcolumn) _ hmem
    simp at hne

theorem csvRow_text (usageInfo : UsageInfo) (e : Option AffinityAttr × AffinityStats) :
    (csvRow usageInfo e).text = formatCsvLine (usageInfo.getDeviceName e.1) e.2 ++ literal "\n" := by
  have hopen : literal "\"" = [0x22] := rfl
  have hclose : literal "\"," = [0x22, 0x2C] := rfl
  have hcomma : literal "," = [0x2C] := rfl
  have hend : literal "\n" = [0x0A] := rfl
  have hrow : (csvRow usageInfo e).text = 0x22 :: (usageInfo.getDeviceName e.1 ++ 0x22 :: 0x2C ::
    ([0x2C].intercalate ((csvNumbers e.2).map formatNumber) ++ [0x0A])) := by
    rw [Csv.Row.text, csvRow, List.map_map]
    rfl
  rw [hrow]
  unfold formatCsvLine csvNumbers
  simp only [hopen, hclose, hcomma, hend]
  simp only [List.map_cons, List.map_nil, List.intercalate_cons_cons, List.intercalate_singleton]
  simp only [List.append_assoc, List.cons_append, List.nil_append]

theorem csvHeaderRow_text : csvHeaderRow.text = literal csvTitle ++ literal "\n" := by
  decide +kernel

/-- **The report is its lines.** -/
theorem printReportCSV_eq (usageInfo : UsageInfo) (stats : StatsMap) :
    printReportCSV usageInfo stats
      = (csvHeaderRow :: stats.entries.map (csvRow usageInfo)).flatMap Csv.Row.text := by
  have hfold : ∀ (entries : List (Option AffinityAttr × AffinityStats)) (os : Bytes),
      entries.foldl (fun os e =>
          os ++ formatCsvLine (usageInfo.getDeviceName e.1) e.2 ++ literal "\n") os
        = os ++ (entries.map (csvRow usageInfo)).flatMap Csv.Row.text := by
    intro entries
    induction entries with
    | nil => exact fun os => (List.append_nil os).symm
    | cons e entries ih =>
      intro os
      rw [List.foldl_cons, ih, List.map_cons, List.flatMap_cons, csvRow_text, List.append_assoc,
        List.append_assoc, List.append_assoc]
  rw [List.flatMap_cons, csvHeaderRow_text]
  exact hfold stats.entries _

/-- **The report as comma-separated values**: it is a table of the statistics exactly when no name of an
    affinity has a quote. -/
theorem csvLossless_iff (usageInfo : UsageInfo) (stats : StatsMap) :
    CsvLossless usageInfo stats ↔
      ∀ e ∈ stats.entries, (0x22 : UInt8) ∉ usageInfo.getDeviceName e.1 := by
  have hvalues : ∀ e, (csvRow usageInfo e).values = csvRecord usageInfo e := by
    intro e
    rw [Csv.Row.values, csvRow, csvRecord, List.map_map]
    rfl
  have hheader : csvHeaderRow.values = csvHeader := by
    rw [Csv.Row.values, csvHeaderRow, csvHeader, List.map_map]
    rfl
  have hname : (0x22 : UInt8) ∉ csvHeaderRow.name := by decide
  have htable := Csv.parse_rows_iff (csvHeaderRow :: stats.entries.map (csvRow usageInfo))
  have hrecords : (stats.entries.map (csvRow usageInfo)).map Csv.Row.values
      = stats.entries.map (csvRecord usageInfo) := by
    rw [List.map_map]
    exact List.map_congr_left fun e _ => hvalues e
  rw [← printReportCSV_eq, List.map_cons, hrecords, hheader, List.forall_mem_cons,
    List.forall_mem_map] at htable
  exact htable.trans (and_iff_right hname)

end CoralNPU.Affinity
