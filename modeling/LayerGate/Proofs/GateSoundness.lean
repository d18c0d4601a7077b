import LayerGate.Proofs.Judgement
import LayerGate.Proofs.RecordMerge

/-!
# What a passing report guarantees

Where unclassified files are denied and both kinds of violations block, a report passes only if every
file lies in a layer and the rules allow every import.  One layer escapes: the empty name is taken
for no name at all, so a file of a layer with that name is neither unclassified nor judged.
-/

namespace LayerGate

variable {layers : Layers} {gate : Gate} {graph : ModuleGraph} {found : List Violation}

/-! ## What the rules ask of a graph -/

/-- The rule of the source's layer lists the target's layer. -/
def Layers.Allows (l : Layers) (source target : String) : Prop :=
  ∃ rule ∈ l.rules, rule.source = l.classify source ∧ l.classify target ∈ rule.targets

namespace ModuleGraph

/-- The rules allow the import between the two files of the edge. -/
def EdgeAllowed (layers : Layers) (g : ModuleGraph) (e : Edge) : Prop :=
  ∃ source target, g.nodes[e.source]? = some source ∧ g.nodes[e.target]? = some target ∧
    layers.Allows source.path target.path

/-- An end of the edge lies in a layer with the empty name. -/
def TouchesUnnamed (layers : Layers) (g : ModuleGraph) (e : Edge) : Prop :=
  ∃ n, (g.nodes[e.source]? = some n ∨ g.nodes[e.target]? = some n) ∧
    layers.classify n.path = ""

/-! ## Classified graphs -/

/-- The node with the layer that claims it. -/
def tagged (layers : Layers) (n : Node) : Node :=
  { n with layer := some (layers.classify n.path) }

theorem classified_getElem? (i : Nat) :
    (graph.classified layers).nodes[i]? = graph.nodes[i]?.map (tagged layers) :=
  Array.getElem?_map

theorem mem_classified {m : Node} :
    m ∈ (graph.classified layers).nodes ↔ ∃ n ∈ graph.nodes, tagged layers n = m :=
  Array.mem_map

theorem size_classified : (graph.classified layers).nodes.size = graph.nodes.size := Array.size_map

theorem paths_classified : (graph.classified layers).paths = graph.paths := by
  simp [paths, classified]

theorem inRange_classified : (graph.classified layers).InRange ↔ graph.InRange := by
  rw [InRange, InRange, size_classified]
  rfl

/-- The empty name reads as no name. -/
theorem layerOf_tagged (n : Node) :
    Policy.layerOf (tagged layers n) =
      if layers.classify n.path = "" then unclassifiedTag else layers.classify n.path := by
  unfold Policy.layerOf tagged
  by_cases he : layers.classify n.path = ""
  · rw [he]
    rfl
  · simp [he]

end ModuleGraph

/-! ## No finding -/

namespace Policy

open ModuleGraph

/-- A classified graph has no unclassified file just if a layer claims each of its files. -/
theorem unclassifiedFiles_classified_iff (haccepted : layers.Accepted) :
    (∀ v, v ∉ unclassifiedFiles (graph.classified layers)) ↔
      ∀ n ∈ graph.nodes, layers.Covers n.path := by
  constructor
  · intro h n hn
    by_contra hcovers
    have htag := (Layers.classify_eq_unclassifiedTag_iff haccepted).2 hcovers
    have hmem : tagged layers n ∈ (graph.classified layers).nodes := mem_classified.2 ⟨n, hn, rfl⟩
    exact h _ (mem_unclassifiedFiles.2 ⟨_, hmem, congrArg some htag, rfl⟩)
  · intro h v hv
    obtain ⟨m, hm, hlayer, -⟩ := mem_unclassifiedFiles.1 hv
    obtain ⟨n, hn, rfl⟩ := mem_classified.1 hm
    have htag : layers.classify n.path = unclassifiedTag := Option.some_inj.1 hlayer
    exact (Layers.classify_eq_unclassifiedTag_iff haccepted).1 htag (h n hn)

/-- An edge between files that layers claim is no finding just if the rules allow it or an end of it
lies in a layer with the empty name. -/
theorem not_foundAt_classified_iff {e : Edge} (haccepted : layers.Accepted)
    (hrange : e.source < graph.nodes.size ∧ e.target < graph.nodes.size)
    (hcovers : ∀ n ∈ graph.nodes, layers.Covers n.path) :
    (∀ v, ¬ FoundAt layers .deny (graph.classified layers) e v) ↔
      EdgeAllowed layers graph e ∨ TouchesUnnamed layers graph e := by
  have hsource := Array.getElem?_eq_getElem hrange.1
  have htarget := Array.getElem?_eq_getElem hrange.2
  -- The two ends by name, with the layer that each is in.
  generalize hs : graph.nodes[e.source] = source at hsource
  generalize ht : graph.nodes[e.target] = target at htarget
  have hsourceTag : layers.classify source.path ≠ unclassifiedTag := fun h =>
    (Layers.classify_eq_unclassifiedTag_iff haccepted).1 h
      (hcovers source (hs ▸ Array.getElem_mem hrange.1))
  have htargetTag : layers.classify target.path ≠ unclassifiedTag := fun h =>
    (Layers.classify_eq_unclassifiedTag_iff haccepted).1 h
      (hcovers target (ht ▸ Array.getElem_mem hrange.2))
  have hfound : (∀ v, ¬ FoundAt layers .deny (graph.classified layers) e v) ↔
      judge layers .deny (tagged layers source) (tagged layers target) e.specifier = none := by
    rw [Option.eq_none_iff_forall_ne_some]
    constructor
    · intro h v hv
      refine h v ⟨_, _, ?_, ?_, hv⟩
      · rw [classified_getElem?, hsource, Option.map_some]
      · rw [classified_getElem?, htarget, Option.map_some]
    · rintro h v ⟨s, t, h₁, h₂, hv⟩
      rw [classified_getElem?, hsource, Option.map_some, Option.some_inj] at h₁
      rw [classified_getElem?, htarget, Option.map_some, Option.some_inj] at h₂
      exact h v (by rw [h₁, h₂]; exact hv)
  have hallowed : EdgeAllowed layers graph e ↔
      layers.permits (layers.classify source.path) (layers.classify target.path) = true := by
    rw [Layers.permits_iff haccepted]
    simp [EdgeAllowed, Layers.Allows, hsource, htarget]
  have htouches : TouchesUnnamed layers graph e ↔
      layers.classify source.path = "" ∨ layers.classify target.path = "" := by
    simp [TouchesUnnamed, hsource, htarget, or_and_right, exists_or]
  rw [hfound, judge_eq_none_iff (by decide), layerOf_tagged, layerOf_tagged, hallowed,
    htouches]
  -- A tag that reads as no layer is the empty name, as the files are covered.
  by_cases hse : layers.classify source.path = ""
  · simp [hse]
  · by_cases hte : layers.classify target.path = ""
    · simp [hte]
    · rw [if_neg hse, if_neg hte]
      simp [hsourceTag, htargetTag, hse, hte]

theorem violations?_classified_eq_nil_iff (haccepted : layers.Accepted)
    (hdeny : layers.unclassified = .deny) (hrange : graph.InRange)
    (hfound : violations? layers (graph.classified layers) = some found) :
    found = [] ↔ (∀ n ∈ graph.nodes, layers.Covers n.path) ∧
      ∀ e ∈ graph.edges, EdgeAllowed layers graph e ∨ TouchesUnnamed layers graph e := by
  have hrange' : (graph.classified layers).InRange := inRange_classified.2 hrange
  obtain ⟨found', hfound', hmem⟩ := violations?_of_inRange layers hrange'
  obtain rfl : found = found' := Option.some_inj.1 (hfound.symm.trans hfound')
  rw [hdeny] at hmem
  have hempty : found = [] ↔ (∀ v, v ∉ unclassifiedFiles (graph.classified layers)) ∧
      ∀ e ∈ graph.edges, ∀ v, ¬ FoundAt layers .deny (graph.classified layers) e v := by
    rw [List.eq_nil_iff_forall_not_mem]
    constructor
    · intro h
      refine ⟨fun v hv => h v ((hmem v).2 (.inl ⟨rfl, hv⟩)), fun e he v hv => ?_⟩
      exact h v ((hmem v).2 (.inr ⟨e, he, hv⟩))
    · rintro ⟨hfiles, hedges⟩ v hv
      rcases (hmem v).1 hv with ⟨-, hfile⟩ | ⟨e, he, hat⟩
      · exact hfiles v hfile
      · exact hedges e he v hat
  rw [hempty, unclassifiedFiles_classified_iff haccepted]
  -- What an edge may be is known only once every file lies in a layer.
  apply and_congr_right
  intro hcovers
  exact forall₂_congr fun e he => not_foundAt_classified_iff haccepted (hrange e he) hcovers

end Policy

/-! ## The verdict -/

open ModuleGraph in
/-- A passing report means that every file lies in a layer, that the rules allow every import which
touches no layer with the empty name, and that nothing else blocks; and these are all it means.  With
no such layer, the rules allow every import. -/
theorem gate_passes_iff {document : Value} (haccepted : Config.layersSchema document = .valid layers)
    (hdeny : layers.unclassified = .deny) (hboundary : gate.blocks .layerBoundary = true)
    (hunclassified : gate.blocks .unclassifiedModule = true) (hrange : graph.InRange)
    (cycles : List ImportCycle) :
    ∃ found, Policy.violations? layers (graph.classified layers) = some found ∧
      ((Report.ofFindings (graph.classified layers) found cycles gate).passed = true ↔
        (∀ n ∈ graph.nodes, layers.Covers n.path) ∧
          (∀ e ∈ graph.edges, EdgeAllowed layers graph e ∨ TouchesUnnamed layers graph e) ∧
            (gate.blocks .brokenImport = true → ∀ n ∈ graph.nodes, n.broken = []) ∧
              (gate.blocks .cycle = true → cycles = [])) ∧
      ("" ∉ layers.names →
        (Report.ofFindings (graph.classified layers) found cycles gate).passed = true →
          (∀ n ∈ graph.nodes, layers.Covers n.path) ∧
            ∀ e ∈ graph.edges, EdgeAllowed layers graph e) := by
  have hok := Layers.accepted_of_schema haccepted
  have hrange' : (graph.classified layers).InRange := inRange_classified.2 hrange
  obtain ⟨found, hfound, -⟩ := Policy.violations?_of_inRange layers hrange'
  -- Both reasons that a violation can have block.
  have hblocks : (∀ v ∈ found, gate.blocks v.reason = false) ↔ found = [] := by
    constructor
    · intro h
      rw [List.eq_nil_iff_forall_not_mem]
      intro v hv
      have hfalse := h v hv
      rcases Policy.reason_of_mem hrange' hfound hv with hr | hr
      · rw [hr, hboundary] at hfalse
        cases hfalse
      · rw [hr, hunclassified] at hfalse
        cases hfalse
    · rintro rfl v hv
      cases hv
  have hbroken : (∀ n ∈ (graph.classified layers).nodes, n.broken = []) ↔
      ∀ n ∈ graph.nodes, n.broken = [] := by
    simp only [mem_classified, forall_exists_index, and_imp, forall_apply_eq_imp_iff₂]
    exact Iff.rfl
  have hpassed : (Report.ofFindings (graph.classified layers) found cycles gate).passed = true ↔
      (∀ n ∈ graph.nodes, layers.Covers n.path) ∧
        (∀ e ∈ graph.edges, EdgeAllowed layers graph e ∨ TouchesUnnamed layers graph e) ∧
          (gate.blocks .brokenImport = true → ∀ n ∈ graph.nodes, n.broken = []) ∧
            (gate.blocks .cycle = true → cycles = []) := by
    rw [Report.passed_ofFindings_iff, hblocks, hbroken,
      Policy.violations?_classified_eq_nil_iff hok hdeny hrange hfound]
    constructor
    · rintro ⟨hb, ⟨hc, he⟩, hy⟩
      exact ⟨hc, he, hb, hy⟩
    · rintro ⟨hc, he, hb, hy⟩
      exact ⟨hb, ⟨hc, he⟩, hy⟩
  refine ⟨found, hfound, hpassed, fun hnamed hpass => ?_⟩
  obtain ⟨hcovers, hedges, -, -⟩ := hpassed.1 hpass
  refine ⟨hcovers, fun e he => (hedges e he).resolve_right ?_⟩
  -- A file with the empty tag would lie in a layer of that name.
  rintro ⟨n, hend, hempty⟩
  rcases Layers.classify_mem_names_or layers n.path with hname | htag
  · exact hnamed (hempty ▸ hname)
  · exact absurd (hempty.symm.trans htag) (by decide)

/-! ## The layer that escapes -/

/-- One layer with the empty name, which claims every file, and no rules. -/
def unnamedDocument : Value :=
  .table [("layer", .list [.table [("name", .text ""), ("globs", .list [.text "*"])]])]

def unnamedLayers : Layers := ⟨[⟨"", ["*"]⟩], [], .deny⟩

/-- One file that imports another. -/
def oneImport : ModuleGraph :=
  ⟨#[⟨"a.py", ["b"], [], [], none⟩, ⟨"b.py", [], [], [], none⟩], [⟨0, 1, "b", 1⟩]⟩

theorem gate_passes_iff_unnamed :
    Config.layersSchema unnamedDocument = .valid unnamedLayers ∧
      unnamedLayers.unclassified = .deny ∧ Gate.builtin.blocks .layerBoundary = true ∧
        Gate.builtin.blocks .unclassifiedModule = true ∧ oneImport.InRange ∧
          ∃ found, Policy.violations? unnamedLayers (oneImport.classified unnamedLayers) = some found ∧
            ((Report.ofFindings (oneImport.classified unnamedLayers) found [] .builtin).passed = true ↔
              (∀ n ∈ oneImport.nodes, unnamedLayers.Covers n.path) ∧
                (∀ e ∈ oneImport.edges, oneImport.EdgeAllowed unnamedLayers e ∨
                  oneImport.TouchesUnnamed unnamedLayers e) ∧
                  (Gate.builtin.blocks .brokenImport = true → ∀ n ∈ oneImport.nodes, n.broken = []) ∧
                    (Gate.builtin.blocks .cycle = true → ([] : List ImportCycle) = [])) := by
  have hrange : oneImport.InRange := by simp [ModuleGraph.InRange, oneImport]
  have haccepted : Config.layersSchema unnamedDocument = .valid unnamedLayers := rfl
  have hboundary : Gate.builtin.blocks .layerBoundary = true := by decide
  have hunclassified : Gate.builtin.blocks .unclassifiedModule = true := by decide
  obtain ⟨found, hfound, hiff, -⟩ :=
    gate_passes_iff haccepted rfl hboundary hunclassified hrange []
  exact ⟨haccepted, rfl, hboundary, hunclassified, hrange, found, hfound, hiff⟩

/-- A passing report does not mean that the rules allow every import: no rule allows this one. -/
theorem gate_leaks_through_unnamed_layer :
    ¬ ∀ (document : Value) (layers : Layers) (gate : Gate) (graph : ModuleGraph)
        (found : List Violation) (cycles : List ImportCycle),
      Config.layersSchema document = .valid layers → layers.unclassified = .deny →
        gate.blocks .layerBoundary = true → gate.blocks .unclassifiedModule = true →
          Policy.violations? layers (graph.classified layers) = some found →
            (Report.ofFindings (graph.classified layers) found cycles gate).passed = true →
              (∀ n ∈ graph.nodes, layers.Covers n.path) ∧
                ∀ e ∈ graph.edges, graph.EdgeAllowed layers e := by
  intro h
  -- The policy finds nothing and the report passes, with an edge and not one rule.
  have hfound : Policy.violations? unnamedLayers (oneImport.classified unnamedLayers) = some [] := by
    decide +kernel
  have hpassed :
      (Report.ofFindings (oneImport.classified unnamedLayers) [] [] .builtin).passed = true := by
    decide +kernel
  obtain ⟨-, hedges⟩ := h unnamedDocument unnamedLayers .builtin oneImport [] [] rfl rfl (by decide)
    (by decide) hfound hpassed
  obtain ⟨source, target, -, -, rule, hrule, -⟩ := hedges ⟨0, 1, "b", 1⟩ (List.mem_cons_self ..)
  cases hrule

end LayerGate
