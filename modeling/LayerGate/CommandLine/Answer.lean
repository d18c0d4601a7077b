import LayerGate.Analysis
import LayerGate.CommandLine.Request
import LayerGate.Disk.Change

/-!
# Answers

What a command leaves behind: an exit code, the text on both outputs and a disk.
-/

namespace LayerGate.CommandLine

inductive ExitCode where
  | pass
  | findings
  | error
  | timeout
  deriving DecidableEq, Repr

def ExitCode.number : ExitCode → Nat
  | pass => 0
  | findings => 1
  | error => 2
  | timeout => 3

structure Answer where
  exit : ExitCode
  output : String
  errors : String
  disk : Disk

/-- Where a command runs. -/
structure Surroundings where
  /-- The position of the current folder. -/
  folder : List String
  /-- The home of a user; the empty name is the current one. -/
  home : String → Option String
  clock : Clock
  machine : Machine

/-- The text as lines of their own. -/
def lines (texts : List String) : String := String.join (texts.map (· ++ "\n"))

/-- How a fault ends the command when it is told as an error. -/
def exitFor? : Fault → Option ExitCode
  | .root _ _ | .config _ | .disk _ => some .error
  | .spent _ => some .timeout
  | _ => none

/-- A fault that is told as an error is an answer, and leaves the disk as it was. -/
def settle (d : Disk) (j : Journal Fault Answer) : Journal Fault Answer :=
  match j.result with
  | .ok _ => j
  | .error fault =>
    match exitFor? fault with
    | some code => ⟨j.notes, .ok ⟨code, "", lines ["error: " ++ fault.message], d⟩⟩
    | none => j

namespace Surroundings

/-- The path with the home of its user for a first name that starts with `~`. -/
def withHome (s : Surroundings) (path : String) : Except Fault String :=
  match Path.names path with
  | first :: rest =>
    if path.startsWith "/" ∨ ¬ first.startsWith "~" then .ok path
    else match s.home (String.ofList (first.toList.drop 1)) with
      | some home => .ok (Path.ofNames (home :: rest))
      | none => .error .noHome
  | [] => .ok path

/-- Where a path leads, as an absolute path without links. -/
def resolve (s : Surroundings) (d : Disk) (path : String) : Except Fault String := do
  let path ← s.withHome path
  if path.contains '\x00' then throw .nulInPath
  match d.destination s.folder path with
  | .position names => return Disk.absolute names
  | .loop names => throw (.linkLoop (Disk.absolute names))

end Surroundings

end LayerGate.CommandLine
