import LayerGate.Decimal.Layout
import LayerGate.Diagnosis

/-!
# Time budgets

The seconds that one run may take, if they are limited at all.
-/

namespace LayerGate

structure Budget where
  limit : Option Float

namespace Budget

/-- The budget that was spent, and where. -/
structure Spent where
  limit : Float
  stage : String

/-- What is left after so many seconds, never below zero.  A limit that is no number leaves nothing. -/
def remaining (b : Budget) (elapsed : Float) : Option Float :=
  b.limit.map fun limit => if limit - elapsed > 0 then limit - elapsed else 0

def isSpent (b : Budget) (elapsed : Float) : Bool :=
  match b.remaining elapsed with
  | none => false
  | some left => left ≤ 0

/-- A wait is timed in nanoseconds, for which there are 63 bits; a longer one is refused. -/
def isUntimed (b : Budget) (elapsed : Float) : Bool :=
  match b.remaining elapsed with
  | none => false
  | some left => left * 1000000000 ≥ 9223372036854775808

def check (b : Budget) (elapsed : Float) (stage : String) : Except Spent Unit :=
  if b.isSpent elapsed then .error ⟨b.limit.getD 0, stage⟩ else .ok ()

/-- Zero has no sign in a message. -/
def Spent.diagnosis (s : Spent) : Diagnosis :=
  let limit := if s.limit == 0 then 0 else s.limit
  ⟨"Analysis exceeded " ++ Decimal.short limit ++ "s timeout; partial results unavailable",
    [("stage", s.stage)]⟩

end Budget

end LayerGate
