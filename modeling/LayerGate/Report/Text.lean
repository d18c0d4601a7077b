import LayerGate.Report.Basic
import LayerGate.Text.Quoted

/-!
# The report as text

Two lines for each record and one for the summary.
-/

namespace LayerGate.Report

/-- The word in capitals, filled up to seven columns. -/
def Severity.label : Severity → String
  | .error => "ERROR  "
  | .warning => "WARNING"

/-- Where the finding is: the whole cycle, or source and target, or the source alone. -/
def Record.place (r : Record) : String :=
  match r.cycle with
  | first :: rest => " -> ".intercalate (first :: rest ++ [first])
  | [] =>
    match r.targetPath with
    | some target => r.sourcePath ++ " -> " ++ target
    | none => r.sourcePath

/-- Layers that both have a name, and the specifier. -/
def Record.details (r : Record) : List String :=
  let source := r.sourceLayer.getD ""
  let target := r.targetLayer.getD ""
  (if source ≠ "" ∧ target ≠ "" then [source ++ " -> " ++ target] else []) ++
    (r.specifier.map fun s => "import " ++ Text.quoted s).toList

def Record.text (r : Record) : String :=
  let details := match r.details with
    | [] => ""
    | ds => " [" ++ "; ".intercalate ds ++ "]"
  Severity.label r.severity ++ " " ++ r.reason.code ++ ": " ++ r.place ++ details ++ "\n        " ++
    r.message

def Verdict.label : Verdict → String
  | .pass => "PASS"
  | .fail => "FAIL"

def Summary.text (s : Summary) : String :=
  Verdict.label s.verdict ++ ": " ++ toString s.totalFiles ++ " files, " ++ toString s.totalEdges ++
    " edges, " ++ toString s.violationCount ++ " violations, " ++ toString s.cycleCount ++
    " cycles (" ++ toString s.brokenImportCount ++ " broken imports, " ++
    toString s.ignoredImportCount ++ " external imports ignored)"

def text (r : Report) : String :=
  String.join ((r.records.map Record.text ++ [r.summary.text]).map (· ++ "\n"))

end LayerGate.Report
