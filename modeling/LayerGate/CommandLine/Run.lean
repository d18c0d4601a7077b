import LayerGate.CommandLine.Answer
import LayerGate.Config.File
import LayerGate.Graph.Chain
import LayerGate.Report.Structured
import LayerGate.Report.Text
import LayerGate.Verification

/-!
# Running a command

`check` reports on a project, `verify` compares a stored report with a fresh one, and `path` shows a
chain of imports.  Only `check` writes to the disk, and only the report that it was told to write.
-/

namespace LayerGate.CommandLine

abbrev Run := Journal Fault

/-- The configuration for a command. -/
def configuration (s : Surroundings) (d : Disk) (root : String) (scope : Scope) :
    Except Fault Config := do
  let _ ← Analysis.rootFolder d root
  let asked ← scope.config.mapM (s.resolve d)
  let c ← Config.load s.machine d root asked
  match scope.timeout with
  | none => return c
  | some x => if x ≤ 0 then throw (.config .timeoutNotPositive) else return { c with timeout := some x }

def structuredText (r : Report) : Except Fault String :=
  match r.structured? with
  | some text => .ok text
  | none => .error .hugeCount

def reportText : Format → Report → Except Fault String
  | .text, r => .ok r.text
  | .structured, r => structuredText r

/-- Writes a report into a file. -/
def store (s : Surroundings) (d : Disk) (path payload : String) : Except Fault (String × Disk) := do
  let path := Path.plain (← s.withHome path)
  if path.contains '\x00' then throw .nulInPath
  return (path, ← (d.write s.folder path payload.toUTF8).mapError .disk)

def check (s : Surroundings) (d : Disk) (scope : Scope) (format : Format)
    (blocking : Option (List Reason)) (output : Option String) : Run Answer := do
  let root ← .ofExcept id (s.resolve d scope.root)
  let c ← .ofExcept id (configuration s d root scope)
  let c := match blocking with
    | some reasons => { c with gate := { c.gate with blocking := reasons } }
    | none => c
  let report := (← Analysis.run s.clock s.machine d root c).report
  let payload ← .ofExcept id (reportText format report)
  let exit := if report.passed then ExitCode.pass else .findings
  match output with
  | none => return ⟨exit, payload, "", d⟩
  | some path =>
    let (path, disk) ← .ofExcept id (store s d path payload)
    Journal.note .info ("Report written to " ++ path)
    return ⟨exit, "", "", disk⟩

def badReport (d : Disk) (path problem : String) : Answer :=
  ⟨.error, "", lines ["report: " ++ path, "error: " ++ problem ++ ": " ++ path], d⟩

def verify (s : Surroundings) (d : Disk) (scope : Scope) (report : String) : Run Answer := do
  let root ← .ofExcept id (s.resolve d scope.root)
  let c ← .ofExcept id (configuration s d root scope)
  let path ← .ofExcept id (s.resolve d report)
  match ← .ofExcept .disk (d.find? [] path) with
  | some (.file stored) =>
    let fresh ← .ofExcept id (structuredText (← Analysis.run s.clock s.machine d root c).report)
    match Verification.ofStored path stored fresh with
    | .reproduced => return ⟨.pass, "", "", d⟩
    | .differs found => return ⟨.findings, "", lines found, d⟩
  | some _ => return badReport d path "Report path is a directory"
  | none => return badReport d path "Report file does not exist"

def path (s : Surroundings) (d : Disk) (scope : Scope) (source target : Option String) :
    Run Answer := do
  let root ← .ofExcept id (s.resolve d scope.root)
  let c ← .ofExcept id (configuration s d root scope)
  let graph ← Analysis.moduleGraph s.clock s.machine d root c
  match source, target with
  | some source, some target =>
    match graph.position? source, graph.position? target with
    | some i, some j =>
      match ← .ofExcept .graph (graph.chain? i j) with
      | some chain => return ⟨.pass, lines [" -> ".intercalate chain], "", d⟩
      | none => return ⟨.findings, lines ["no import path from " ++ source ++ " to " ++ target], "", d⟩
    | _, _ =>
      let unknown := [source, target].filter fun file => (graph.position? file).isNone
      return ⟨.error, "",
        lines (unknown.map fun file => "error: " ++ file ++ " is not an analyzed project file"), d⟩
  | _, _ => throw .noFileName

/-- The least level at which notes are shown. -/
def Verbosity.least : Verbosity → Level
  | debug => .debug
  | normal => .warning
  | quiet => .error

def Verbosity.shows (v : Verbosity) (note : Note) : Bool := v.least.rank ≤ note.level.rank

/-- What a request leads to, with the notes that its verbosity shows. -/
def Request.run (s : Surroundings) (d : Disk) (r : Request) : Run Answer :=
  let answer := settle d <| match r with
    | .check scope format blocking output => CommandLine.check s d scope format blocking output
    | .verify scope report => CommandLine.verify s d scope report
    | .path scope source target => CommandLine.path s d scope source target
  { answer with notes := answer.notes.filter r.scope.verbosity.shows }

/-- What a command line leads to. -/
def run (s : Surroundings) (d : Disk) (words : List String) : Except Stop (Run Answer) :=
  return (← Request.ofWords words).run s d

end LayerGate.CommandLine
