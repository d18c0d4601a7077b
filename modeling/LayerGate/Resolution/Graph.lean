import LayerGate.Graph.Modules
import LayerGate.Resolution.FileImports

/-!
# From imports to a graph

The files become nodes in their order.  Resolutions of a file that mean the same edge are one edge,
with the lowest line.
-/

namespace LayerGate.ModuleGraph

def sameEdge (a b : Edge) : Bool :=
  a.source = b.source && a.target = b.target && a.specifier = b.specifier

/-- Adds an edge.  Of two that are one edge, the one with the lower line stays. -/
def addEdge (e : Edge) : List Edge → List Edge
  | [] => [e]
  | other :: rest =>
    if sameEdge other e then (if e.line < other.line then e else other) :: rest
    else other :: addEdge e rest

/-- The edge of a resolution: a file outside of the list, or the importing file itself, makes none. -/
def edgeOf? (files : List String) (source : Nat) (path : String) (r : Resolution) : Option Edge :=
  match r.outcome with
  | .internal file =>
    if file = path then none
    else (files.idxOf? file).map fun target => ⟨source, target, r.specifier, r.line⟩
  | _ => none

/-- The edges of one file in increasing order. -/
def edgesOf (files : List String) (source : Nat) (path : String) (rs : List Resolution) : List Edge :=
  ((rs.filterMap (edgeOf? files source path)).foldl (fun done e => addEdge e done) []).mergeSort
    fun a b => (compare a b).isLE

def ignoredSpecifier? (r : Resolution) : Option String :=
  match r.outcome with
  | .external _ => some r.specifier
  | _ => none

def brokenImport? (r : Resolution) : Option BrokenImport :=
  match r.outcome with
  | .broken candidate => some ⟨r.specifier, r.line, candidate⟩
  | _ => none

def nodeOf (path : String) (imports : FileImports) : Node where
  path
  specifiers := imports.specifiers
  ignored := sortedDistinct (imports.resolutions.filterMap ignoredSpecifier?)
  broken := sortedDistinct (imports.resolutions.filterMap brokenImport?)
  layer := none

/-- The edges of all files; `source` is the position of the first of them. -/
def edgesFrom (files : List String) (source : Nat) : List (String × FileImports) → List Edge
  | [] => []
  | (path, imports) :: rest =>
    edgesOf files source path imports.resolutions ++ edgesFrom files (source + 1) rest

/-- The graph of files, each with its imports. -/
def ofImports (results : List (String × FileImports)) : ModuleGraph where
  nodes := (results.map fun (path, imports) => nodeOf path imports).toArray
  edges := edgesFrom (results.map (·.1)) 0 results

/-- The results of the files in their order, whatever the order in which the files were finished. -/
def inOrder (files : List String) (finished : List (String × FileImports)) :
    List (String × FileImports) :=
  files.filterMap fun file => (finished.lookup file).map (file, ·)

/-- The graph of the files, once all of them are finished. -/
def ofFinished (files : List String) (finished : List (String × FileImports)) : ModuleGraph :=
  ofImports (inOrder files finished)

end LayerGate.ModuleGraph
