/-!
# Diagnoses

What a user is told when a run cannot go on: a message and named details.
-/

namespace LayerGate

structure Diagnosis where
  message : String
  details : List (String × String)
  deriving DecidableEq, Repr

namespace Diagnosis

def detail (d : String × String) : String := d.1 ++ "=" ++ d.2

/-- The details stand in brackets after the message; without any, there are no brackets. -/
def text (d : Diagnosis) : String :=
  if d.details = [] then d.message
  else d.message ++ " (" ++ ", ".intercalate (d.details.map detail) ++ ")"

def invalidRoot (root reason : String) : Diagnosis :=
  ⟨"Invalid project root: " ++ root, [("reason", reason)]⟩

end Diagnosis

end LayerGate
