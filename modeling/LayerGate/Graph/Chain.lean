import LayerGate.Graph.Modules
import LayerGate.Graph.ShortestPath

/-!
# Import chains

The shortest way from one file to another along the imports.
-/

namespace LayerGate.ModuleGraph

/-- The files on the shortest chain of imports from `source` to `target`; a chain from a file to itself
ends with it again. -/
def chain? (g : ModuleGraph) (source target : Nat) :
    Except Digraph.Fault (Option (List String)) := do
  match ← g.digraph.shortestPath source target fun _ => true with
  | none => return none
  | some route =>
    let route := if source = target then route ++ route.take 1 else route
    return some (route.filterMap fun i => g.nodes[i]?.map Node.path)

end LayerGate.ModuleGraph
