import LayerGate.Graph.Digraph

/-!
# Shortest paths

A breadth-first search that carries whole routes.  The routes of one round have equal length and
stand in increasing order wherever successor lists do, so the first route that reaches the goal is
the shortest, and among the shortest the smallest.
-/

namespace LayerGate.Digraph

/-- A route is kept backwards: the vertex reached last comes first. -/
abbrev Route := List Nat

inductive Round where
  | reached (route : Route)
  | going (seen : List Nat) (next : List Route)

/-- Extends `route` by each of the vertices in turn.  A vertex that was seen is not entered again,
and the route to the goal ends the search. -/
def extend (allowed : Nat → Bool) (goal : Nat) (route : Route) :
    List Nat → List Nat → List Route → Round
  | [], seen, next => .going seen next
  | w :: ws, seen, next =>
    if !allowed w then extend allowed goal route ws seen next
    else if w = goal then .reached (w :: route)
    else if seen.contains w then extend allowed goal route ws seen next
    else extend allowed goal route ws (w :: seen) ((w :: route) :: next)

/-- One round: every route of the level is extended; `next` collects the next level backwards. -/
def advance (g : Digraph) (allowed : Nat → Bool) (goal : Nat) :
    List Route → List Nat → List Route → Except Fault Round
  | [], seen, next => .ok (.going seen next)
  | [] :: level, seen, next => advance g allowed goal level seen next
  | (v :: route) :: level, seen, next =>
    match g.successors[v]? with
    | none => .error .noSuchVertex
    | some ws =>
      match extend allowed goal (v :: route) ws seen next with
      | .reached route => .ok (.reached route)
      | .going seen next => advance g allowed goal level seen next

def rounds (g : Digraph) (allowed : Nat → Bool) (goal : Nat) :
    Nat → List Route → List Nat → Except Fault (Option Route)
  | 0, _, _ => .ok none
  | fuel + 1, level, seen =>
    if level.isEmpty then .ok none
    else do
      match ← advance g allowed goal level seen [] with
      | .reached route => return some route
      | .going seen next => rounds g allowed goal fuel next.reverse seen

/-- The shortest walk of one edge or more from `start` to `goal` whose vertices after the first are
all allowed.  A walk back to its start is given without repeating the start.  Every round but the
first enters a new vertex, so `g.order + 2` rounds are enough. -/
def shortestPath (g : Digraph) (start goal : Nat) (allowed : Nat → Bool) :
    Except Fault (Option (List Nat)) := do
  match ← rounds g allowed goal (g.order + 2) [[start]] [start] with
  | none => return none
  | some route => return some (if start = goal then (route.drop 1).reverse else route.reverse)

end LayerGate.Digraph
