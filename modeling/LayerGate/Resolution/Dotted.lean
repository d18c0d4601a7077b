import LayerGate.Resolution.Basic

/-!
# Resolving Python imports

Absolute names are looked up in the module index.  Relative ones are counted from the folder of the
importing file, and each imported name may be a module of its own.
-/

namespace LayerGate.Resolution

open Project

/-! ## Absolute imports -/

/-- A name that is no module itself stands for the module that it is imported from. -/
def absoluteName (p : Project) (r : Import.Ref) (name : String) : Option Resolution :=
  let specifier := r.module ++ "." ++ name
  (p.modules.file? specifier).map fun file => ⟨specifier, r.line, .internal file⟩

def absoluteModule (p : Project) (r : Import.Ref) : Resolution :=
  match p.modules.longest? r.module with
  | some file => ⟨r.module, r.line, .internal file⟩
  | none => ⟨r.module, r.line, .external none⟩

def absolute (p : Project) (r : Import.Ref) : List Resolution :=
  let found := r.names.map (absoluteName p r)
  found.filterMap id ++
    if r.names = [] ∨ found.any Option.isNone then [absoluteModule p r] else []

/-! ## Relative imports -/

def dots (r : Import.Ref) : String := "".pushn '.' r.level

/-- The folders of a file. -/
def foldersOf (file : String) : List String := (Text.split '/' file).dropLast

/-- The folder that the leading dots lead to: the first dot is the file's own, each further one the
folder above; `none` above the project. -/
def package? (file : String) (r : Import.Ref) : Option (List String) :=
  let folders := foldersOf file
  if r.level - 1 > folders.length then none
  else some (folders.take (folders.length - (r.level - 1)))

def moduleParts (r : Import.Ref) : List String :=
  if r.module = "" then [] else Text.split '.' r.module

/-- The files that a module may be: a file of its name, or the package of its name. -/
def moduleCandidates : List String → List String
  | [] => []
  | parts => ["/".intercalate parts ++ pySuffix, "/".intercalate parts ++ "/__init__" ++ pySuffix]

/-- The file that makes a folder a package. -/
def packageFile (folder : List String) : String := "/".intercalate (folder ++ ["__init__" ++ pySuffix])

/-- The specifier of one imported name. -/
def nameSpecifier (r : Import.Ref) (name : String) : String :=
  if r.module = "" then dots r ++ name else r.specifier ++ "." ++ name

/-- What a folder or module as such is resolved by. -/
def baseCandidates (r : Import.Ref) (target : List String) : List String :=
  if moduleParts r = [] then [packageFile target] else moduleCandidates target

/-- The candidate that is named when nothing is found; the project itself has none. -/
def nonEmpty? (path : String) : Option String := if path = "" then none else some path

/-- What the import as a whole resolves to, with the names that are no modules. -/
def base (p : Project) (r : Import.Ref) (target leftover : List String) :
    Except Disk.Fault (List Resolution) := do
  match ← p.find? (baseCandidates r target) with
  | some outcome => return [⟨r.specifier, r.line, outcome⟩]
  | none =>
    if moduleParts r ≠ [] ∨ leftover = [] then
      return [⟨r.specifier, r.line, .broken (nonEmpty? ("/".intercalate target))⟩]
    else
      return leftover.map fun name =>
        ⟨dots r ++ name, r.line, .broken (some ("/".intercalate (target ++ [name])))⟩

/-- Each name with the file that it means, if it is a module. -/
def relativeNames (p : Project) (target : List String) :
    List String → Except Disk.Fault (List (String × Option Outcome))
  | [] => .ok []
  | name :: rest => do
    let outcome ← p.find? (moduleCandidates (target ++ [name]))
    return (name, outcome) :: (← relativeNames p target rest)

def relative (p : Project) (file : String) (r : Import.Ref) : Except Disk.Fault (List Resolution) := do
  match package? file r with
  | none => return [⟨r.specifier, r.line, .broken none⟩]
  | some package =>
    let target := package ++ moduleParts r
    let names ← relativeNames p target r.names
    let modules := names.filterMap fun (name, outcome) =>
      outcome.map fun o => ⟨nameSpecifier r name, r.line, o⟩
    let leftover := (names.filter (·.2.isNone)).map (·.1)
    if r.names = [] ∨ leftover ≠ [] then return modules ++ (← base p r target leftover)
    else return modules

/-- One statement may yield several resolutions: one for each name that is a module, and one for the
rest. -/
def dotted (p : Project) (file : String) (r : Import.Ref) : Except Disk.Fault (List Resolution) :=
  if r.level = 0 then .ok (absolute p r) else relative p file r

end LayerGate.Resolution
