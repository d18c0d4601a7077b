import LayerGate.Config.Reason

/-!
# Reports

What one run found, in the order of severity, with totals and a verdict.
-/

namespace LayerGate

inductive Severity where
  | error
  | warning
  deriving DecidableEq, Repr

inductive Verdict where
  | pass
  | fail
  deriving DecidableEq, Repr

def Severity.word : Severity → String
  | .error => "error"
  | .warning => "warning"

def Verdict.word : Verdict → String
  | .pass => "pass"
  | .fail => "fail"

namespace Report

/-- One finding. -/
structure Record where
  severity : Severity
  reason : Reason
  sourcePath : String
  targetPath : Option String
  specifier : Option String
  sourceLayer : Option String
  targetLayer : Option String
  message : String
  cycle : List String
  deriving DecidableEq, Repr

structure Summary where
  totalFiles : Int
  totalEdges : Int
  violationCount : Int
  cycleCount : Int
  brokenImportCount : Int
  ignoredImportCount : Int
  verdict : Verdict
  deriving DecidableEq, Repr

end Report

structure Report where
  schemaVersion : Int
  records : List Report.Record
  summary : Report.Summary
  deriving DecidableEq, Repr

namespace Report

/-- The version of the layout of structured reports. -/
def currentVersion : Int := 1

def passed (r : Report) : Bool := r.summary.verdict = .pass

end Report

end LayerGate
