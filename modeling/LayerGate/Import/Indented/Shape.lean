/-!
# What an expression may be assigned to

Of a parsed expression only what decides whether it may be a target is kept.
-/

namespace LayerGate.Import.Indented

inductive Shape where
  /-- A name, an attribute or a subscript. -/
  | place (line : Nat)
  | starred (line : Nat) (inner : Shape)
  /-- A tuple or a list. -/
  | sequence (line : Nat) (items : List Shape)
  | other (line : Nat)
  deriving Repr

namespace Shape

def line : Shape → Nat
  | .place line | .starred line _ | .sequence line _ | .other line => line

mutual

/-- The line of the first part that cannot be a target. -/
def misfit? (allowStar : Bool) : Shape → Option Nat
  | .place _ => none
  | .starred line inner => if allowStar then misfit? allowStar inner else some line
  | .sequence _ items => misfitAmong? allowStar items
  | .other line => some line

def misfitAmong? (allowStar : Bool) : List Shape → Option Nat
  | [] => none
  | s :: ss => (misfit? allowStar s).orElse fun _ => misfitAmong? allowStar ss

end

def isPlace : Shape → Bool
  | .place _ => true
  | _ => false

end Shape

end LayerGate.Import.Indented
