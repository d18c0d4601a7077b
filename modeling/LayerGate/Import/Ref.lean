/-!
# Import references

What one import says before it is resolved.
-/

namespace LayerGate.Import

inductive Language where
  | python
  | javascript
  deriving DecidableEq, Repr

/-- One import found in a source file.  `level` counts the leading dots of a relative Python import;
`names` are the names that a Python `from` import asks for.  Both are empty for every other import. -/
structure Ref where
  line : Int
  module : String
  names : List String
  level : Nat
  language : Language
  deriving DecidableEq, Repr

/-- The specifier as it is written: the dots, then the module. -/
def Ref.specifier (r : Ref) : String := "".pushn '.' r.level ++ r.module

end LayerGate.Import
