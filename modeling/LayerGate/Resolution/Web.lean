import LayerGate.Resolution.Basic

/-!
# Resolving JavaScript and TypeScript imports

A specifier with an alias or with leading dots is a path in the project; every other one is the name
of a package.
-/

namespace LayerGate.Resolution

def dropSlashes (s : String) : String := String.ofList (s.toList.dropWhile (· = '/'))

def trimSlashes (s : String) : String := String.ofList (Text.trim (· = '/') s.toList)

/-- The longest of the keys that the specifier begins with; of equal ones, the first. -/
def longestKey? (specifier : String) (aliases : List (String × String)) : Option (String × String) :=
  aliases.foldl
    (fun best entry =>
      if !specifier.startsWith entry.1 then best
      else match best with
        | none => some entry
        | some b => if entry.1.length > b.1.length then some entry else best)
    none

/-- The specifier with the directory of its alias in place of the key. -/
def aliased? (specifier : String) (aliases : List (String × String)) : Option String :=
  (longestKey? specifier aliases).map fun (key, directory) =>
    let front := trimSlashes directory
    let rest := dropSlashes (specifier.drop key.length).toString
    if front ≠ "" ∧ rest ≠ "" then front ++ "/" ++ rest else if front ≠ "" then front else rest

def isRelative (specifier : String) : Bool :=
  specifier = "." || specifier = ".." || specifier.startsWith "./" || specifier.startsWith "../"

/-- The path in the project that a specifier means; `none` for a package. -/
def pathOf? (p : Project) (file specifier : String) : Option String :=
  match aliased? specifier p.aliases with
  | some path => some (Path.shortest path)
  | none =>
    if isRelative specifier then some (Path.shortest (Path.join (Path.parent file) specifier))
    else none

/-- The path leads out of the project. -/
def escapes (path : String) : Bool :=
  path = ".." || path.startsWith "../" || path.startsWith "/"

/-- The path itself, then with each extension, then the index file of the folder with each. -/
def webCandidates (extensions : List String) (path : String) : List String :=
  if path = "" then extensions.map ("index" ++ ·)
  else path :: extensions.map (path ++ ·) ++ extensions.map (path ++ "/index" ++ ·)

def web (p : Project) (file : String) (r : Import.Ref) : Except Disk.Fault (List Resolution) := do
  match pathOf? p file r.module with
  | none => return [⟨r.module, r.line, .external none⟩]
  | some path =>
    if escapes path then return [⟨r.module, r.line, .broken none⟩]
    let inside := if path = "." then "" else path
    match ← p.find? (webCandidates p.webExtensions inside) with
    | some outcome => return [⟨r.module, r.line, outcome⟩]
    | none => return [⟨r.module, r.line, .broken (if inside = "" then none else some inside)⟩]

end LayerGate.Resolution
