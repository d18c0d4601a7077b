import LayerGate.Config.Gate
import LayerGate.Policy
import LayerGate.Report.Basic
import LayerGate.Text.Quoted

/-!
# From findings to a report

Broken imports, violations and cycles become records.  Findings of one kind between the same two
files are one record, that of the smallest specifier.
-/

namespace LayerGate.Report

/-! ## Messages -/

/-- An absent name in a message. -/
def nameOrNone (name : Option String) : String := name.getD "None"

def brokenMessage (b : BrokenImport) : String :=
  "Import " ++ Text.quoted b.specifier ++ " (line " ++ toString b.line ++
    ") does not resolve to a project file. Fix the path or remove the import."

def violationMessage (v : Violation) : String :=
  if v.reason = .layerBoundary then
    v.sourceLayer ++ " must not depend on " ++ nameOrNone v.targetLayer ++
      ". Depend on a port owned by an allowed layer, or invert the dependency."
  else if v.targetPath.isNone then
    "File matches no layer rule. Add a layer glob that covers it, or exclude it from the scan."
  else
    "Dependency " ++ v.sourceLayer ++ " -> " ++ nameOrNone v.targetLayer ++
      " involves a file that matches no layer rule and is not permitted by the policy."

def cycleMessage (c : ImportCycle) : String :=
  "Import cycle of " ++ toString c.paths.length ++ " file(s): " ++ c.chain ++
    ". Extract the shared code into a module both sides can depend on."

/-! ## Merging -/

/-- Which findings are one: those of one reason and source that agree in the last part. -/
structure Key where
  reason : Reason
  source : String
  last : Option String
  deriving DecidableEq, Repr

abbrev Entry := Key × Record

def specifierText (r : Record) : String := r.specifier.getD ""

/-- A record goes to the end, or to the place of the one with its key if its specifier is smaller. -/
def add (entry : Entry) : List Entry → List Entry
  | [] => [entry]
  | other :: rest =>
    if other.1 = entry.1 then
      (if specifierText entry.2 < specifierText other.2 then entry else other) :: rest
    else other :: add entry rest

def merge (entries : List Entry) : List Record :=
  (entries.foldl (fun done e => add e done) []).map (·.2)

/-! ## The records -/

def severityOf (g : Gate) (r : Reason) : Severity := if g.blocks r then .error else .warning

/-- The last part of a key: `extra`, or the target if there is none. -/
def lastPart (extra : String) (target : Option String) : Option String :=
  if extra = "" then target else some extra

def brokenEntry (g : Gate) (n : Node) (b : BrokenImport) : Entry :=
  (⟨.brokenImport, n.path, lastPart (nameOrNone b.candidate ++ "\x00" ++ b.specifier) b.candidate⟩,
    ⟨severityOf g .brokenImport, .brokenImport, n.path, b.candidate, some b.specifier, n.layer, none,
      brokenMessage b, []⟩)

def violationEntry (g : Gate) (v : Violation) : Entry :=
  (⟨v.reason, v.sourcePath, v.targetPath⟩,
    ⟨severityOf g v.reason, v.reason, v.sourcePath, v.targetPath, v.specifier, some v.sourceLayer,
      v.targetLayer, violationMessage v, []⟩)

def cycleEntry (g : Gate) (c : ImportCycle) : Entry :=
  (⟨.cycle, c.first, lastPart ("\x00".intercalate c.paths) (some c.second)⟩,
    ⟨severityOf g .cycle, .cycle, c.first, some c.second, none, none, none, cycleMessage c, c.paths⟩)

def entries (g : Gate) (nodes : List Node) (violations : List Violation)
    (cycles : List ImportCycle) : List Entry :=
  nodes.flatMap (fun n => n.broken.map (brokenEntry g n)) ++ violations.map (violationEntry g) ++
    cycles.map (cycleEntry g)

/-- By severity of the reason, then by source, target, specifier and cycle; what is absent counts as
empty. -/
def order (g : Gate) (a b : Record) : Ordering :=
  (compare (g.rank a.reason) (g.rank b.reason)).then <|
    (compare a.sourcePath b.sourcePath).then <|
      (compare (a.targetPath.getD "") (b.targetPath.getD "")).then <|
        (compare (specifierText a) (specifierText b)).then (compare a.cycle b.cycle)

def verdictOf (g : Gate) (records : List Record) : Verdict :=
  if records.any fun r => g.blocks r.reason then .fail else .pass

/-- The report on a graph with its violations and cycles. -/
def ofFindings (graph : ModuleGraph) (violations : List Violation) (cycles : List ImportCycle)
    (g : Gate) : Report :=
  let nodes := graph.nodes.toList
  let records := (merge (entries g nodes violations cycles)).mergeSort fun a b => (order g a b).isLE
  let cycleCount := records.countP (·.reason = .cycle)
  { schemaVersion := currentVersion
    records
    summary :=
      { totalFiles := nodes.length
        totalEdges := graph.edges.length
        violationCount := (records.length : Int) - cycleCount
        cycleCount
        brokenImportCount := records.countP (·.reason = .brokenImport)
        ignoredImportCount := (nodes.flatMap (·.ignored)).length
        verdict := verdictOf g records } }

end LayerGate.Report
