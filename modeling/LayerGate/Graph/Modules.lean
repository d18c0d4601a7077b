import LayerGate.Graph.Cycles
import LayerGate.Config.Layers

/-!
# Module graphs

Nodes are source files, edges are imports between them.  An edge names its ends by their position
among the nodes.
-/

namespace LayerGate

/-- An import that names a project file which is not there. -/
structure BrokenImport where
  specifier : String
  line : Int
  candidate : Option String
  deriving DecidableEq, Repr

instance : Ord BrokenImport where
  compare a b :=
    (compare a.specifier b.specifier).then
      ((compare a.line b.line).then (compare a.candidate b.candidate))

/-- A source file. -/
structure Node where
  path : String
  /-- The specifiers of its imports, in their order. -/
  specifiers : List String
  /-- The specifiers that lead out of the project. -/
  ignored : List String
  broken : List BrokenImport
  layer : Option String
  deriving DecidableEq, Repr, Inhabited

structure Edge where
  source : Nat
  target : Nat
  specifier : String
  line : Int
  deriving DecidableEq, Repr

/-- Edges are ordered by their ends and the specifier; the line does not count. -/
instance : Ord Edge where
  compare a b :=
    (compare a.source b.source).then
      ((compare a.target b.target).then (compare a.specifier b.specifier))

/-- Files that import one another in a ring: each imports the next, the last the first. -/
structure ImportCycle where
  first : String
  rest : List String
  deriving DecidableEq, Repr

namespace ImportCycle

def paths (c : ImportCycle) : List String := c.first :: c.rest

def ofPaths? : List String → Option ImportCycle
  | [] => none
  | p :: ps => some ⟨p, ps⟩

theorem ofPaths?_paths (c : ImportCycle) : ofPaths? c.paths = some c := rfl

/-- The ring written out, with the first file again at its end. -/
def chain (c : ImportCycle) : String := " -> ".intercalate (c.paths ++ [c.first])

/-- The file that the first one imports. -/
def second (c : ImportCycle) : String := c.rest.headD c.first

end ImportCycle

structure ModuleGraph where
  nodes : Array Node
  edges : List Edge
  deriving Repr

namespace ModuleGraph

def paths (g : ModuleGraph) : List String := g.nodes.toList.map Node.path

/-- The position of the file; of two nodes with one path, the later. -/
def position? (g : ModuleGraph) (path : String) : Option Nat :=
  (List.range g.nodes.size).reverse.find? fun i => g.nodes[i]?.map Node.path = some path

/-- Every path with its position, in the order of the paths. -/
def index (g : ModuleGraph) : List (String × Nat) :=
  (sortedDistinct g.paths).filterMap fun path => (g.position? path).map (path, ·)

/-- Both ends of every edge are nodes. -/
def InRange (g : ModuleGraph) : Prop :=
  ∀ e ∈ g.edges, e.source < g.nodes.size ∧ e.target < g.nodes.size

/-- Every edge starts at a node. -/
def startsInRange (g : ModuleGraph) : Bool := g.edges.all fun e => e.source < g.nodes.size

/-- The positions of the files that each file imports, in increasing order. -/
def digraph (g : ModuleGraph) : Digraph :=
  .ofLists <| (List.range g.nodes.size).map fun i =>
    sortedDistinct ((g.edges.filter (·.source = i)).map Edge.target)

/-- Tags every node; `none` if there are more nodes than tags, or fewer. -/
def withLayers? (g : ModuleGraph) (tags : List String) : Option ModuleGraph :=
  if tags.length = g.nodes.size then
    some { g with
      nodes := (g.nodes.toList.zipWith (fun n t => { n with layer := some t }) tags).toArray }
  else none

/-- Every node with the layer that claims it. -/
def classified (g : ModuleGraph) (layers : Layers) : ModuleGraph :=
  { g with nodes := g.nodes.map fun n => { n with layer := some (layers.classify n.path) } }

def sortedEdges (g : ModuleGraph) : List Edge :=
  g.edges.mergeSort fun a b => (compare a b).isLE

/-- Minimal cycles of files that cover every file on a cycle. -/
def importCycles (g : ModuleGraph) : Except Digraph.Fault (List ImportCycle) := do
  if !g.startsInRange then throw .noSuchVertex
  let cycles ← g.digraph.findCycles
  return cycles.filterMap fun cycle =>
    ImportCycle.ofPaths? (cycle.filterMap fun i => g.nodes[i]?.map Node.path)

end ModuleGraph

end LayerGate
