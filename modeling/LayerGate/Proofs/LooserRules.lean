import LayerGate.Proofs.GateSoundness
import LayerGate.Proofs.ReportCompleteness
import LayerGate.Proofs.UnclassifiedModes
import LayerGate.Proofs.ViolationRecords

/-!
# Looser rules

Rules that allow more only take records out of the report: the others stay as they are, in the same
order, and a report that passed passes still.  All imports from one file to another share their layers,
so that looser rules take out either all findings that go into one record or none.
-/

namespace LayerGate

variable {l l' : Layers} {graph : ModuleGraph} {gate : Gate} {found found' fed fed' : List Violation}
  {v w : Violation} {source target : Node}

/-- The same layers with rules that allow whatever those of `l` do. -/
structure Layers.LooserThan (l' l : Layers) : Prop where
  layers : l'.layers = l.layers
  unclassified : l'.unclassified = l.unclassified
  allowed : ∀ name ∈ l.names, l.allowed name ⊆ l'.allowed name
  /-- What the rules say of unclassified files matters only where these are allowed. -/
  allowedOfTag : l.unclassified = .allow → l.allowed unclassifiedTag ⊆ l'.allowed unclassifiedTag

/-- The rules do not bear on which file is in which layer. -/
theorem Layers.LooserThan.classified_eq (h : l'.LooserThan l) (graph : ModuleGraph) :
    graph.classified l' = graph.classified l := by
  have hclassify : l'.classify = l.classify := by
    funext path
    rw [Layers.classify, Layers.classify, h.layers]
  rw [ModuleGraph.classified, ModuleGraph.classified, hclassify]

namespace Policy

open ModuleGraph

/-! ## Findings -/

/-- A file that was classified is in one of the layers or in none. -/
theorem layerOf_classified (h : source ∈ (graph.classified l).nodes) :
    layerOf source ∈ l.names ∨ layerOf source = unclassifiedTag := by
  obtain ⟨n, -, rfl⟩ := mem_classified.1 h
  rw [layerOf_tagged]
  split
  · exact .inr rfl
  · exact Layers.classify_mem_names_or l n.path

/-- What the looser rules forbid, the others do. -/
theorem forbids_of_looser (h : l'.LooserThan l) (hsource : source ∈ (graph.classified l).nodes)
    (hmode : Touches source target → l.unclassified = .allow) (hforbids : Forbids l' source target) :
    Forbids l source target := by
  intro hallowed
  rcases layerOf_classified hsource with hname | htag
  · exact hforbids (h.allowed _ hname hallowed)
  · rw [Forbids, htag] at hforbids
    rw [htag] at hallowed
    exact hforbids (h.allowedOfTag (hmode (.inl htag)) hallowed)

section

variable (h : l'.LooserThan l) (hfound : violations? l (graph.classified l) = some found)
  (hfound' : violations? l' (graph.classified l) = some found')
include h hfound hfound'

/-- The looser rules find nothing new. -/
theorem mem_of_looser (hv : v ∈ found') : v ∈ found := by
  rw [mem_iff_imports hfound]
  rw [mem_iff_imports hfound', h.unclassified] at hv
  rcases hv with hfile | ⟨source, target, specifier, himports, hforbids, hmode, rfl⟩
  · exact .inl hfile
  · exact .inr ⟨source, target, specifier, himports,
      forbids_of_looser h himports.source_mem hmode hforbids, hmode, rfl⟩

/-- With one import of a file by another, the looser rules find every such import. -/
theorem mem_of_same_ends (hpaths : graph.paths.Nodup) (hv : v ∈ found') (hw : w ∈ found)
    (hsource : w.sourcePath = v.sourcePath) (htarget : w.targetPath = v.targetPath) : w ∈ found' := by
  have hpaths' : (graph.classified l).paths.Nodup := by rwa [paths_classified]
  rw [mem_iff_imports hfound] at hw
  rw [mem_iff_imports hfound', h.unclassified] at hv ⊢
  rcases hw with hfile | ⟨source, target, specifier, himports, -, -, rfl⟩
  · exact .inl hfile
  · rcases hv with ⟨-, hfile⟩ | ⟨source', target', specifier', himports', hforbids, hmode, rfl⟩
    · -- A finding about a file has no target.
      obtain ⟨n, -, -, rfl⟩ := mem_unclassifiedFiles.1 hfile
      cases htarget
    · -- The paths are those of the same two files, and whether these may depend says their layers.
      obtain rfl := node_eq_of_path hpaths' himports.source_mem himports'.source_mem hsource
      obtain rfl := node_eq_of_path hpaths' himports.target_mem himports'.target_mem
        (Option.some_inj.1 htarget)
      exact .inr ⟨source, target, specifier, himports, hforbids, hmode, rfl⟩

theorem wholePart_of_looser (hpaths : graph.paths.Nodup) (hfed : ∀ v, v ∈ fed ↔ v ∈ found)
    (hfed' : ∀ v, v ∈ fed' ↔ v ∈ found') : Report.WholePart fed' fed where
  sub v hv := (hfed v).2 (mem_of_looser h hfound hfound' ((hfed' v).1 hv))
  whole v hv w hw _ hsource htarget := (hfed' w).2
    (mem_of_same_ends h hfound hfound' hpaths ((hfed' v).1 hv) ((hfed w).1 hw) hsource htarget)

end

end Policy

namespace Report

/-! ## Reports -/

/-- A report on a part of the violations passes if the report on all of them does. -/
theorem passed_of_subset {cycles : List ImportCycle} (hsub : ∀ v ∈ fed', v ∈ fed)
    (h : (ofFindings graph fed cycles gate).passed = true) :
    (ofFindings graph fed' cycles gate).passed = true := by
  rw [passed_ofFindings_iff] at h ⊢
  obtain ⟨hbroken, hviolations, hcycles⟩ := h
  exact ⟨hbroken, fun v hv => hviolations v (hsub v hv), hcycles⟩

open ModuleGraph in
/-- For every graph with distinct paths, whichever cycles the report is given and in whichever order
the findings of the policy, the looser rules leave a part of the records in their order and let pass
what passed.  Where an edge ends at no node there is no answer under either rules. -/
theorem records_sublist_of_looser {document : Value} (h : l'.LooserThan l)
    (hpaths : graph.paths.Nodup) (hgate : Config.gateSchema document = .valid gate)
    (cycles : List ImportCycle) :
    (graph.InRange → ∃ found found', Policy.violations? l (graph.classified l) = some found ∧
      Policy.violations? l' (graph.classified l') = some found' ∧
        ∀ fed fed', (∀ v, v ∈ fed ↔ v ∈ found) → (∀ v, v ∈ fed' ↔ v ∈ found') →
          (ofFindings (graph.classified l') fed' cycles gate).records.Sublist
            (ofFindings (graph.classified l) fed cycles gate).records ∧
          ((ofFindings (graph.classified l) fed cycles gate).passed = true →
            (ofFindings (graph.classified l') fed' cycles gate).passed = true)) ∧
    (¬ graph.InRange → Policy.violations? l (graph.classified l) = none ∧
      Policy.violations? l' (graph.classified l') = none) := by
  rw [h.classified_eq graph]
  constructor
  · intro hrange
    have hrange' : (graph.classified l).InRange := inRange_classified.2 hrange
    obtain ⟨found, hfound, -⟩ := Policy.violations?_of_inRange l hrange'
    obtain ⟨found', hfound', -⟩ := Policy.violations?_of_inRange l' hrange'
    refine ⟨found, found', hfound, hfound', fun fed fed' hfed hfed' => ?_⟩
    have hpart := Policy.wholePart_of_looser h hfound hfound' hpaths hfed hfed'
    have hpaths' : (graph.classified l).paths.Nodup := by rwa [paths_classified]
    exact ⟨records_sublist_of_wholePart hpaths' hfound (fun v hv => (hfed v).1 hv)
      (Gate.orderIsComplete_of_schema hgate) hpart cycles, passed_of_subset hpart.sub⟩
  · intro hrange
    have hrange' : ¬ (graph.classified l).InRange := fun hin => hrange (inRange_classified.1 hin)
    exact ⟨Policy.violations?_eq_none hrange', Policy.violations?_eq_none hrange'⟩

/-- The layers of `tangledLayers`, with no rules that would let one depend on the other. -/
def strictLayers : Layers := { tangledLayers with rules := [] }

theorem records_sublist_of_looser_tangled :
    tangledLayers.LooserThan strictLayers ∧ tangled.paths.Nodup ∧
      Config.gateSchema (.table []) = .valid Gate.builtin ∧ tangled.InRange ∧
        ∃ found, Policy.violations? strictLayers (tangled.classified strictLayers) = some found ∧
          ⟨.layerBoundary, "b.py", some "a.py", some "a", "edge", some "core"⟩ ∈ found ∧
            (ofFindings (tangled.classified tangledLayers) [tangledViolation "pkg.b",
              tangledViolation "b"] [] .builtin).records.Sublist
                (ofFindings (tangled.classified strictLayers) found [] .builtin).records := by
  have hlooser : tangledLayers.LooserThan strictLayers :=
    ⟨rfl, rfl, fun _ _ => List.nil_subset _, fun _ => List.nil_subset _⟩
  have hgate : Config.gateSchema (.table []) = .valid Gate.builtin := rfl
  have hpaths : tangled.paths.Nodup := tangled_distinguished.paths
  have hrange : tangled.InRange := by simp [ModuleGraph.InRange, tangled]
  have hnodes : (tangled.classified tangledLayers).nodes = tangled.nodes := by decide +kernel
  have htangled : tangled.classified tangledLayers = tangled :=
    congrArg (ModuleGraph.mk · tangled.edges) hnodes
  obtain ⟨found, found', hfound, hfound', hreports⟩ :=
    (records_sublist_of_looser hlooser hpaths hgate []).1 hrange
  refine ⟨hlooser, hpaths, hgate, hrange, found, hfound, ?_, ?_⟩
  · rw [← hlooser.classified_eq, htangled] at hfound
    refine (Policy.mem_iff_imports hfound).2 (.inr ?_)
    exact ⟨tangled.nodes[1], tangled.nodes[0], "a",
      ⟨⟨1, 0, "a", 1⟩, by decide, rfl, rfl, rfl⟩, by decide, by decide, rfl⟩
  · rw [htangled, violations?_tangled, Option.some_inj] at hfound'
    exact (hreports found _ (fun _ => Iff.rfl) (by simp [← hfound', or_comm])).1

end Report

end LayerGate
