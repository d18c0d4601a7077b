import LayerGate.Disk.Lookup
import LayerGate.Scan.Ignored
import LayerGate.Scan.PathFilter

/-!
# Source files

The files of a project that are analysed.  Links are not followed, and folders that are skipped or
ignored are not entered.  The scan is told without the limit that an interpreter sets it: where calls
may not be nested deeper than that, a tree of about a thousand folders in one another ends the run.
-/

namespace LayerGate.Scan

/-- What is asked of a file or folder. -/
structure Selection where
  extensions : List String
  filter : PathFilter
  nestedIgnore : Bool
  deriving DecidableEq, Repr

/-- Whether a file is selected; only files with a wanted suffix are held against the ignore rules. -/
def selects (s : Selection) (ignored : List String → Except Ignore.Fault Bool) (path : List String) :
    Except Ignore.Fault Bool := do
  if !s.extensions.contains (Path.suffix (path.getLast?.getD "")) then return false
  if ← ignored path then return false
  return s.filter.accepts ("/".intercalate path)

/-- Whether a folder is entered. -/
def enters (ignored : List String → Except Ignore.Fault Bool) (path : List String) :
    Except Ignore.Fault Bool := do
  if skippedFolders.contains (path.getLast?.getD "") then return false
  return !(← ignored path)

mutual

/-- The selected files at or below a position. -/
def collect (s : Selection) (ignored : List String → Except Ignore.Fault Bool)
    (here : List String) : Entry → Except Ignore.Fault (List (List String))
  | .link _ => .ok []
  | .file _ => do return if ← selects s ignored here then [here] else []
  | .folder es => do if ← enters ignored here then collectIn s ignored here es else return []

def collectIn (s : Selection) (ignored : List String → Except Ignore.Fault Bool)
    (here : List String) : List (String × Entry) → Except Ignore.Fault (List (List String))
  | [] => .ok []
  | (name, e) :: es => do
    return (← collect s ignored (here ++ [name]) e) ++ (← collectIn s ignored here es)

end

/-- The paths of the selected files below the project's folder, in increasing order.  Trees may be as
deep as they like here. -/
def sourceFiles (s : Selection) (project : Entry) : Except Ignore.Fault (List String) := do
  let found ← collectIn s (ignored (← sources s.nestedIgnore project)) [] project.entries
  return sortedDistinct (found.map Path.ofNames)

/-- The selected files below what a path names, counted from the folder `base`; only a folder has any. -/
def sourceFilesAt (s : Selection) (d : Disk) (base : List String) (path : String) :
    Except Ignore.Fault (List String) :=
  match d.look base path with
  | .ok (.folder es) => sourceFiles s (.folder es)
  | _ => .ok []

end LayerGate.Scan
