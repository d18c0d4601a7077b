import LayerGate.Config.Reason
import LayerGate.Graph.Modules

/-!
# The policy

Which imports and which files of a classified graph break the layer rules.
-/

namespace LayerGate

/-- A broken layer rule.  What concerns a file alone has neither target nor specifier. -/
structure Violation where
  reason : Reason
  sourcePath : String
  targetPath : Option String
  specifier : Option String
  sourceLayer : String
  targetLayer : Option String
  deriving DecidableEq, Repr

instance : Ord Violation where
  compare a b :=
    (compare a.reason.code b.reason.code).then <|
      (compare a.sourcePath b.sourcePath).then <|
        (compare a.targetPath b.targetPath).then <|
          (compare a.specifier b.specifier).then <|
            (compare a.sourceLayer b.sourceLayer).then (compare a.targetLayer b.targetLayer)

namespace Policy

/-- The layer of a node: a node without a tag, or with an empty one, is unclassified. -/
def layerOf (n : Node) : String :=
  match n.layer with
  | some "" | none => unclassifiedTag
  | some layer => layer

/-- The finding about a file that no layer claims. -/
def unclassifiedFile (n : Node) : Violation :=
  ⟨.unclassifiedModule, n.path, none, none, unclassifiedTag, none⟩

def unclassifiedFiles (g : ModuleGraph) : List Violation :=
  (g.nodes.toList.filter fun n => n.layer = some unclassifiedTag).map unclassifiedFile

/-- The finding about one import, if the rules do not permit it.  Imports that touch an unclassified
file are judged only where such files are allowed. -/
def judge (layers : Layers) (mode : Unclassified) (source target : Node) (specifier : String) :
    Option Violation :=
  let a := layerOf source
  let b := layerOf target
  let touches : Bool := a = unclassifiedTag || b = unclassifiedTag
  if touches ∧ mode ≠ .allow then none
  else if layers.permits a b then none
  else some ⟨if touches then .unclassifiedModule else .layerBoundary, source.path, some target.path,
    some specifier, a, some b⟩

/-- The findings about the edges; `none` if an edge has an end that is no node. -/
def judgeEdges (layers : Layers) (mode : Unclassified) (g : ModuleGraph) :
    List Edge → Option (List Violation)
  | [] => some []
  | e :: rest => do
    let source ← g.nodes[e.source]?
    let target ← g.nodes[e.target]?
    let later ← judgeEdges layers mode g rest
    return (judge layers mode source target e.specifier).toList ++ later

/-- Every violation once, in increasing order; `none` if an edge has an end that is no node. -/
def violations? (layers : Layers) (g : ModuleGraph) : Option (List Violation) := do
  let files := if layers.unclassified = .deny then unclassifiedFiles g else []
  let edges ← judgeEdges layers layers.unclassified g g.edges
  return sortedDistinct (files ++ edges)

end Policy

end LayerGate
