import LayerGate.Config.Basic
import LayerGate.Disk.Lookup
import LayerGate.Fault
import LayerGate.Policy
import LayerGate.Report.Findings
import LayerGate.Resolution.Graph
import LayerGate.Scan.SourceFiles

/-!
# Analysis

One run over a project: its files are found, their imports resolved, and the graph is classified,
judged and reported on.  The run keeps within a time budget; how many seconds have passed at each
stage is a parameter, and so is the machine that it runs on.
-/

namespace LayerGate

/-- The points at which the budget is looked at. -/
inductive Stage where
  | discover
  | parse
  | policy
  | cycles
  deriving DecidableEq, Repr

def Stage.word : Stage → String
  | .discover => "discover"
  | .parse => "parse"
  | .policy => "policy"
  | .cycles => "cycles"

/-- When a run gets where, in seconds since its start. -/
structure Clock where
  elapsed : Stage → Float
  /-- When it begins to wait for files that are still being read, if any are. -/
  waiting : Option Float

namespace Analysis

abbrev Run := Journal Fault

/-- A path below a root as one absolute text. -/
def below (root path : String) : String := Disk.absolute (Path.names root ++ Path.names path)

/-- Whether there is a file at a path below the root, at the end of links if need be. -/
def isFile (d : Disk) (root path : String) : Except Disk.Fault Bool := do
  return ((← d.find? [] (below root path)).map Entry.isFile).getD false

/-- The folder at the root of a project. -/
def rootFolder (d : Disk) (root : String) : Except Fault Entry :=
  match d.find? [] root with
  | .error f => .error (.disk f)
  | .ok none => .error (.root root .missing)
  | .ok (some e) => if e.isFolder then .ok e else .error (.root root .notFolder)

def checkpoint (clock : Clock) (budget : Budget) (stage : Stage) : Run Unit :=
  .ofExcept .spent (budget.check (clock.elapsed stage) stage.word)

/-- Waits for the files that are still being read; a wait that cannot be timed is refused. -/
def await (clock : Clock) (budget : Budget) : Run Unit :=
  if clock.waiting.any budget.isUntimed then throw .hugeWait else pure ()

def selection (c : Config) : Scan.Selection := ⟨c.extensions, ⟨c.included, c.excluded⟩, c.nestedIgnore⟩

/-- The content of a scanned file. -/
def contentOf (folder : Entry) (path : String) : ByteArray :=
  match folder.at? (Path.names path) with
  | some (.file content) => content
  | _ => .empty

/-- The module graph of the project at `root`. -/
def moduleGraph (clock : Clock) (m : Machine) (d : Disk) (root : String) (c : Config) :
    Run ModuleGraph := do
  let folder ← .ofExcept id (rootFolder d root)
  let budget : Budget := ⟨c.timeout⟩
  let files ← .ofExcept .ignoreFile (Scan.sourceFiles (selection c) folder)
  Journal.note .debug ("Discovered " ++ toString files.length ++ " source files under " ++ root)
  checkpoint clock budget .discover
  let project := Project.ofFiles files c.sourceRoots c.extensions c.aliases (isFile d root)
  await clock budget
  let results ← (Journal.all (files.map fun path =>
    (path, ·) <$> FileImports.ofContent m project path (contentOf folder path))).mapError
      Fault.ofFileImports
  checkpoint clock budget .parse
  let graph := ModuleGraph.ofFinished files results
  Journal.note .info ("Resolved " ++ toString graph.nodes.size ++ " files, " ++
    toString graph.edges.length ++ " internal edges")
  return graph

/-- What one run finds. -/
structure Result where
  graph : ModuleGraph
  violations : List Violation
  cycles : List ImportCycle
  report : Report

/-- The run over the project at `root`. -/
def run (clock : Clock) (m : Machine) (d : Disk) (root : String) (c : Config) : Run Result := do
  let budget : Budget := ⟨c.timeout⟩
  let graph := (← moduleGraph clock m d root c).classified c.layers
  let violations ← match Policy.violations? c.layers graph with
    | some violations => pure violations
    | none => throw (.graph .noSuchVertex)
  checkpoint clock budget .policy
  let cycles ← .ofExcept .graph graph.importCycles
  checkpoint clock budget .cycles
  let report := Report.ofFindings graph violations cycles c.gate
  Journal.note .info ("Verdict " ++ report.summary.verdict.word ++ ": " ++
    toString report.summary.violationCount ++ " violations, " ++
    toString report.summary.cycleCount ++ " cycles")
  return ⟨graph, violations, cycles, report⟩

end Analysis

end LayerGate
