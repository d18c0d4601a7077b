import LayerGate.Report.Basic
import LayerGate.Value.Json.Printer

/-!
# The report as a document

The structured report is a JSON text.  Its integers have to fit into 64 bits, with or without a sign.
-/

namespace LayerGate.Report

def optionalText : Option String → Value
  | none => .null
  | some s => .text s

def Record.value (r : Record) : Value :=
  .table
    [("severity", .text r.severity.word),
      ("reasonCode", .text r.reason.code),
      ("sourcePath", .text r.sourcePath),
      ("targetPath", optionalText r.targetPath),
      ("specifier", optionalText r.specifier),
      ("sourceLayer", optionalText r.sourceLayer),
      ("targetLayer", optionalText r.targetLayer),
      ("message", .text r.message),
      ("cycle", .list (r.cycle.map .text))]

def Summary.value (s : Summary) : Value :=
  .table
    [("totalFiles", .int s.totalFiles),
      ("totalEdges", .int s.totalEdges),
      ("violationCount", .int s.violationCount),
      ("cycleCount", .int s.cycleCount),
      ("brokenImportCount", .int s.brokenImportCount),
      ("ignoredImportCount", .int s.ignoredImportCount),
      ("verdict", .text s.verdict.word)]

def value (r : Report) : Value :=
  .table
    [("schemaVersion", .int r.schemaVersion),
      ("records", .list (r.records.map Record.value)),
      ("summary", r.summary.value)]

def integers (r : Report) : List Int :=
  let s := r.summary
  [r.schemaVersion, s.totalFiles, s.totalEdges, s.violationCount, s.cycleCount, s.brokenImportCount,
    s.ignoredImportCount]

/-- The integers that a structured report can hold. -/
def fits (n : Int) : Bool := -(Int.pow 2 63) ≤ n && n < Int.pow 2 64

def integerRule : String := "Integer exceeds 64-bit range"

/-- The text of the structured report; `none` if an integer does not fit. -/
def structured? (r : Report) : Option String :=
  if r.integers.all fits then some (Value.Json.document r.value) else none

end LayerGate.Report
