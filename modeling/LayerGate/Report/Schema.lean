import LayerGate.Config.Schema
import LayerGate.Report.Basic

/-!
# The schema of a report

How a report is read back from the value of a document.
-/

namespace LayerGate

open Schema Reader

def Severity.words : Words Severity := [Severity.error, .warning].map fun s => (s.word, s)

def Verdict.words : Words Verdict := [Verdict.pass, .fail].map fun v => (v.word, v)

namespace Report

def recordSchema : Value → Checked Record :=
  Schema.record "ReportRecord"
    (Record.mk <$> required ["severity"] (oneOf Severity.words)
      <*> required ["reasonCode", "reason_code"] (code Reason.words)
      <*> required ["sourcePath", "source_path"] Schema.text
      <*> optional ["targetPath", "target_path"] (nullable Schema.text) none
      <*> optional ["specifier"] (nullable Schema.text) none
      <*> optional ["sourceLayer", "source_layer"] (nullable Schema.text) none
      <*> optional ["targetLayer", "target_layer"] (nullable Schema.text) none
      <*> required ["message"] Schema.text
      <*> optional ["cycle"] (list Schema.text) [])

def summarySchema : Value → Checked Summary :=
  Schema.record "ReportSummary"
    (Summary.mk <$> required ["totalFiles", "total_files"] integer
      <*> required ["totalEdges", "total_edges"] integer
      <*> required ["violationCount", "violation_count"] integer
      <*> required ["cycleCount", "cycle_count"] integer
      <*> required ["brokenImportCount", "broken_import_count"] integer
      <*> required ["ignoredImportCount", "ignored_import_count"] integer
      <*> required ["verdict"] (oneOf Verdict.words))

def schema : Value → Checked Report :=
  Schema.record "Report"
    (Report.mk <$> optional ["schemaVersion", "schema_version"] integer currentVersion
      <*> optional ["records"] (list recordSchema) []
      <*> required ["summary"] summarySchema)

end Report

end LayerGate
