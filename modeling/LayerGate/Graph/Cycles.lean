import LayerGate.Graph.Components
import LayerGate.Graph.ShortestPath
import LayerGate.Order

/-!
# Minimal cycles

Each component that holds a cycle is covered by shortest cycles through its vertices.
-/

namespace LayerGate.Digraph

/-- The same cycle, starting at its smallest vertex. -/
def rotateToMin (cycle : List Nat) : List Nat :=
  match cycle.min? with
  | none => []
  | some least =>
    let i := cycle.idxOf least
    cycle.drop i ++ cycle.take i

/-- A component of one vertex holds a cycle only if the vertex is its own successor. -/
def hasCycle (g : Digraph) : List Nat → Bool
  | [v] => (g.next v).contains v
  | _ => true

/-- Shortest cycles inside `component` through each of the vertices that no earlier one covers. -/
def cover (g : Digraph) (component : List Nat) :
    List Nat → List Nat → Except Fault (List (List Nat))
  | [], _ => .ok []
  | v :: vs, covered =>
    if covered.contains v then cover g component vs covered
    else do
      match ← g.shortestPath v v component.contains with
      | none => throw (.noCycleThrough v)
      | some cycle => return rotateToMin cycle :: (← cover g component vs (cycle ++ covered))

/-- Minimal cycles that together cover every vertex on a cycle, in increasing order. -/
def findCycles (g : Digraph) : Except Fault (List (List Nat)) := do
  if !g.isClosed then throw .noSuchVertex
  let found ← (g.components.filter g.hasCycle).mapM fun component => g.cover component component []
  return sortedDistinct found.flatten

end LayerGate.Digraph
