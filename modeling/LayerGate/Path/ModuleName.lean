import LayerGate.Path.Basic
import LayerGate.Text.Identifier
import LayerGate.Text.Quoted

/-!
# Dotted module names

The name under which a Python file is imported, read off its path below a source root.
-/

namespace LayerGate.Path

inductive NameFault where
  | outsideRoot (path root : String)
  | noModule (path : String)
  deriving DecidableEq, Repr

def NameFault.message : NameFault → String
  | .outsideRoot path root => path ++ " is not under source root " ++ Text.quoted root
  | .noModule path => path ++ " does not map to a non-empty importable module name"

/-- What is left of `names` below `root`. -/
def below? : (root names : List String) → Option (List String)
  | [], names => some names
  | _ :: _, [] => none
  | r :: root, n :: names => if r = n then below? root names else none

theorem below?_eq_some_iff {root names rest : List String} :
    below? root names = some rest ↔ names = root ++ rest := by
  induction root generalizing names with
  | nil => simp [below?]
  | cons r root ih =>
    cases names with
    | nil => simp [below?]
    | cons n names =>
      by_cases h : r = n
      · simp [below?, h, ih]
      · simp [below?, h, Ne.symm h]

def dropPySuffix (name : String) : String :=
  if name.endsWith ".py" then (name.dropEnd 3).toString else name

/-- The names that make up the module: the file's name without `.py`, and none for `__init__`. -/
def moduleNames (names : List String) : List String :=
  match names.getLast? with
  | none => []
  | some last =>
    let stem := dropPySuffix last
    names.dropLast ++ (if stem = "__init__" then [] else [stem])

/-- The dotted name of a file below `root`; the empty root and `.` are the project itself. -/
def moduleName (path root : String) : Except NameFault String :=
  match below? (names (normalized root)) (Text.split '/' (normalized path)) with
  | none => .error (.outsideRoot path root)
  | some rest =>
    let parts := moduleNames rest
    if parts ≠ [] ∧ parts.all (fun p => Text.isIdentifier p.toList) then
      .ok (".".intercalate parts)
    else .error (.noModule path)

end LayerGate.Path
