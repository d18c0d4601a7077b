import LayerGate.Disk.Fault
import LayerGate.Import.Ref
import LayerGate.Resolution.ModuleIndex

/-!
# Resolutions

What becomes of an import: it means a scanned file, or something outside of the analysis, or a
project file that is not there.
-/

namespace LayerGate

inductive Outcome where
  | internal (file : String)
  /-- A package, or a file that exists and was not scanned. -/
  | external (file : Option String)
  /-- Nothing is there; without a candidate, the specifier leads nowhere in the project. -/
  | broken (candidate : Option String)
  deriving DecidableEq, Repr

def Outcome.status : Outcome → String
  | .internal _ => "internal"
  | .external _ => "external"
  | .broken _ => "broken"

def Outcome.target : Outcome → Option String
  | .internal file => some file
  | .external file => file
  | .broken candidate => candidate

structure Resolution where
  specifier : String
  line : Int
  outcome : Outcome
  deriving DecidableEq, Repr

/-- What resolution knows about a project. -/
structure Project where
  files : List String
  modules : ModuleIndex
  /-- The suffixes that are tried for JavaScript and TypeScript, in their order. -/
  webExtensions : List String
  aliases : List (String × String)
  /-- Whether a path below the root is an existing file. -/
  isFile : String → Except Disk.Fault Bool

namespace Project

/-- The suffix of Python files. -/
def pySuffix : String := ".py"

def ofFiles (files sourceRoots extensions : List String) (aliases : List (String × String))
    (isFile : String → Except Disk.Fault Bool) : Project where
  files := files
  modules := .ofFiles (sortedDistinct files) sourceRoots
  webExtensions := extensions.filter (· ≠ pySuffix)
  aliases
  isFile

/-- The first candidate that is a scanned file or exists. -/
def find? (p : Project) : List String → Except Disk.Fault (Option Outcome)
  | [] => .ok none
  | candidate :: rest => do
    if p.files.contains candidate then return some (.internal candidate)
    else if ← p.isFile candidate then return some (.external (some candidate))
    else p.find? rest

end Project

end LayerGate
