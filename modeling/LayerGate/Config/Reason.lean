/-!
# Reason codes

The kinds of findings.
-/

namespace LayerGate

inductive Reason where
  | brokenImport
  | layerBoundary
  | unclassifiedModule
  | cycle
  deriving DecidableEq, Repr

namespace Reason

/-- The built-in order, most severe first. -/
def all : List Reason := [.brokenImport, .layerBoundary, .unclassifiedModule, .cycle]

theorem mem_all (r : Reason) : r ∈ all := by cases r <;> decide

def code : Reason → String
  | .brokenImport => "BrokenImportError"
  | .layerBoundary => "LayerBoundaryViolation"
  | .unclassifiedModule => "UnclassifiedModule"
  | .cycle => "CycleFinding"

theorem code_inj {r s : Reason} : r.code = s.code ↔ r = s := by
  cases r <;> cases s <;> decide

/-- The codes and what they stand for. -/
def words : List (String × Reason) := all.map fun r => (r.code, r)

def ofCode? (code : String) : Option Reason := words.lookup code

theorem ofCode?_code (r : Reason) : ofCode? r.code = some r := by cases r <;> decide

end Reason

end LayerGate
