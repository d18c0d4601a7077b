import LayerGate.Disk.Basic
import LayerGate.Ignore.Rules
import LayerGate.Order

/-!
# What a project ignores

The ignore files of a project, and the question whether they ignore a path.  Paths are lists of
names below the project's folder.
-/

namespace LayerGate.Scan

/-- Folders that are never entered. -/
def skippedFolders : List String := [".git", ".hg", ".venv", "venv", "__pycache__", "node_modules"]

def ignoreFileName : String := ".gitignore"

/-- The rules of one file, with the folder that they are counted from. -/
structure Source where
  folder : List String
  rules : Ignore.Rules

abbrev IgnoreFile := List String × ByteArray

/-- The ignore file among the entries of a folder; a link is none. -/
def ignoreFile (here : List String) (entries : List (String × Entry)) : List IgnoreFile :=
  match entries.lookup ignoreFileName with
  | some (.file content) => [(here, content)]
  | _ => []

mutual

/-- The ignore files of a folder and of the folders below it, but for skipped ones. -/
def ignoreFiles (here : List String) : Entry → List IgnoreFile
  | .folder es => ignoreFile here es ++ ignoreFilesIn here es
  | _ => []

def ignoreFilesIn (here : List String) : List (String × Entry) → List IgnoreFile
  | [] => []
  | (name, e) :: es =>
    (if skippedFolders.contains name then [] else ignoreFiles (here ++ [name]) e) ++
      ignoreFilesIn here es

end

/-- By depth, then by the text of the path. -/
def shallowerFirst (a b : IgnoreFile) : Bool :=
  ((compare a.1.length b.1.length).then
    (compare ("/".intercalate (a.1 ++ [ignoreFileName]))
      ("/".intercalate (b.1 ++ [ignoreFileName])))).isLE

/-- The ignore files that count, shallowest first: all of them, or that of the project's folder. -/
def countedFiles (nested : Bool) (project : Entry) : List IgnoreFile :=
  if nested then (ignoreFiles [] project).mergeSort shallowerFirst
  else ignoreFile [] project.entries

def sources (nested : Bool) (project : Entry) : Except Ignore.Fault (List Source) :=
  (countedFiles nested project).mapM fun (folder, content) => do
    return ⟨folder, ← Ignore.Rules.ofBytes content⟩

/-- The path as rules see it from their folder, which is `.` itself; `none` outside of the folder. -/
def seenFrom? (folder path : List String) : Option String :=
  if folder.isPrefixOf path then
    match path.drop folder.length with
    | [] => some "."
    | names => some ("/".intercalate names)
  else none

/-- Some source ignores the path. -/
def ignored : List Source → List String → Except Ignore.Fault Bool
  | [], _ => .ok false
  | s :: rest, path =>
    match seenFrom? s.folder path with
    | none => ignored rest path
    | some text => do if ← s.rules.ignores text then return true else ignored rest path

end LayerGate.Scan
