import LayerGate.Graph.Digraph

/-!
# Strongly connected components

One depth-first search from every vertex.  A vertex gets a rank when the search enters it and stays
on the path until its component is known; a search that cannot get back to a rank below the one it
started from has the whole component of its start on top of the path.
-/

namespace LayerGate.Digraph

inductive Mark where
  | fresh
  | active (rank : Nat)
  | settled
  deriving DecidableEq, Repr

structure Search where
  marks : Array Mark
  /-- How many vertices have been entered. -/
  entered : Nat
  /-- The entered vertices that are not settled, the latest first. -/
  path : List Nat
  /-- The settled components, the latest first. -/
  found : List (List Nat)

namespace Search

def start (order : Nat) : Search := ⟨Array.replicate order .fresh, 0, [], []⟩

def mark (s : Search) (v : Nat) : Mark := s.marks[v]?.getD .settled

def enter (s : Search) (v : Nat) : Search :=
  { s with
    marks := s.marks.setIfInBounds v (.active s.entered)
    entered := s.entered + 1
    path := v :: s.path }

/-- The part of the path down to `v` becomes a component. -/
def settle (s : Search) (v : Nat) : Search :=
  let block := s.path.takeWhile (· ≠ v) ++ [v]
  { s with
    marks := block.foldl (fun marks w => marks.setIfInBounds w .settled) s.marks
    path := (s.path.dropWhile (· ≠ v)).drop 1
    found := block.mergeSort :: s.found }

end Search

/-- Searches from the fresh vertex `v` and gives the lowest rank that the search met on the path.
Every descent enters a vertex, so `g.order` is fuel enough. -/
def visit (g : Digraph) : Nat → Nat → Search → Nat × Search
  | 0, _, s => (s.entered, s)
  | fuel + 1, v, s =>
    let rank := s.entered
    let (low, s) := (g.next v).foldl (fun (low, s) w =>
      match s.mark w with
      | .fresh =>
        let (low', s) := visit g fuel w s
        (min low low', s)
      | .active rank' => (min low rank', s)
      | .settled => (low, s)) (rank, s.enter v)
    if low = rank then (low, s.settle v) else (low, s)

/-- The components in the order in which the search settles them, each in increasing order. -/
def components (g : Digraph) : List (List Nat) :=
  ((List.range g.order).foldl (fun s v =>
    match s.mark v with
    | .fresh => (visit g g.order v s).2
    | _ => s) (Search.start g.order)).found.reverse

end LayerGate.Digraph
