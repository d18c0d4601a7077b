import LayerGate.Policy
import LayerGate.Proofs.LayerRules
import LayerGate.Proofs.SortedDistinct

/-!
# What the policy finds

Each finding comes from one file or from one edge.  Judging a graph whose edges all end at nodes
gives an answer, and the answer holds just the findings of its files and edges, in increasing order.
-/

namespace LayerGate

/-! ## The order of violations -/

instance : Std.TransOrd Violation :=
  inferInstanceAs <| Std.TransCmp <| compareLex (compareOn fun v => v.reason.code) <|
    compareLex (compareOn Violation.sourcePath) <| compareLex (compareOn Violation.targetPath) <|
      compareLex (compareOn Violation.specifier) <|
        compareLex (compareOn Violation.sourceLayer) (compareOn Violation.targetLayer)

instance : Std.LawfulEqOrd Violation where
  eq_of_compare {a b} h := by
    change (compare a.reason.code b.reason.code).then
      ((compare a.sourcePath b.sourcePath).then
        ((compare a.targetPath b.targetPath).then
          ((compare a.specifier b.specifier).then
            ((compare a.sourceLayer b.sourceLayer).then
              (compare a.targetLayer b.targetLayer))))) = .eq at h
    simp only [Ordering.then_eq_eq, Std.LawfulEqOrd.compare_eq_iff_eq, Reason.code_inj] at h
    obtain ⟨hreason, hsource, htarget, hspecifier, hlayer, htargetLayer⟩ := h
    cases a
    cases b
    simp_all

/-! ## Graphs with the same imports -/

namespace ModuleGraph

/-- With distinct paths a path names one node. -/
theorem node_eq_of_path {g : ModuleGraph} (hpaths : g.paths.Nodup) {m n : Node} (hm : m ∈ g.nodes)
    (hn : n ∈ g.nodes) (h : m.path = n.path) : m = n :=
  List.inj_on_of_nodup_map hpaths hm.val hn.val h

/-- The same nodes and the same imports: the edges may stand in any order, on any lines and any number
of times. -/
structure SameImports (other g : ModuleGraph) : Prop where
  nodes : other.nodes = g.nodes
  edges : ∀ source target specifier,
    (∃ line, ⟨source, target, specifier, line⟩ ∈ other.edges) ↔
      ∃ line, ⟨source, target, specifier, line⟩ ∈ g.edges

namespace SameImports

variable {other g : ModuleGraph} {e : Edge}

theorem symm (h : other.SameImports g) : g.SameImports other :=
  ⟨h.nodes.symm, fun source target specifier => (h.edges source target specifier).symm⟩

/-- Every edge has a counterpart that differs in its line at most. -/
theorem counterpart (h : other.SameImports g) (he : e ∈ other.edges) :
    ∃ e' ∈ g.edges, e'.source = e.source ∧ e'.target = e.target ∧ e'.specifier = e.specifier := by
  obtain ⟨line, hline⟩ := (h.edges e.source e.target e.specifier).1 ⟨e.line, he⟩
  exact ⟨_, hline, rfl, rfl, rfl⟩

theorem inRange (h : other.SameImports g) (hrange : g.InRange) : other.InRange := by
  intro e he
  obtain ⟨e', he', hsource, htarget, -⟩ := h.counterpart he
  rw [h.nodes, ← hsource, ← htarget]
  exact hrange e' he'

end SameImports

end ModuleGraph

namespace Policy

variable {layers : Layers} {mode : Unclassified} {g other : ModuleGraph} {v : Violation}

/-! ## Edges -/

/-- The finding is about this edge. -/
def FoundAt (layers : Layers) (mode : Unclassified) (g : ModuleGraph) (e : Edge) (v : Violation) :
    Prop :=
  ∃ source target, g.nodes[e.source]? = some source ∧ g.nodes[e.target]? = some target ∧
    judge layers mode source target e.specifier = some v

theorem judgeEdges_of_inRange (layers : Layers) (mode : Unclassified) (edges : List Edge)
    (h : ∀ e ∈ edges, e.source < g.nodes.size ∧ e.target < g.nodes.size) :
    ∃ found, judgeEdges layers mode g edges = some found ∧
      ∀ v, v ∈ found ↔ ∃ e ∈ edges, FoundAt layers mode g e v := by
  -- Judging the edges fails only where an end is missing.
  induction edges with
  | nil => exact ⟨[], rfl, by simp⟩
  | cons e rest ih =>
    obtain ⟨later, hlater, hmem⟩ := ih fun e' he' => h e' (List.mem_cons_of_mem _ he')
    obtain ⟨hs, ht⟩ := h e (List.mem_cons_self ..)
    have hsource := Array.getElem?_eq_getElem hs
    have htarget := Array.getElem?_eq_getElem ht
    refine ⟨(judge layers mode g.nodes[e.source] g.nodes[e.target] e.specifier).toList ++ later,
      by simp [judgeEdges, hsource, htarget, hlater], ?_⟩
    intro v
    have hhere : FoundAt layers mode g e v ↔
        judge layers mode g.nodes[e.source] g.nodes[e.target] e.specifier = some v := by
      constructor
      · rintro ⟨source, target, h₁, h₂, hj⟩
        rw [hsource, Option.some_inj] at h₁
        rw [htarget, Option.some_inj] at h₂
        rwa [h₁, h₂]
      · intro hj
        exact ⟨_, _, hsource, htarget, hj⟩
    rw [List.mem_append, Option.mem_toList, hmem, ← hhere]
    simp

/-! ## Graphs -/

theorem mem_unclassifiedFiles :
    v ∈ unclassifiedFiles g ↔
      ∃ n ∈ g.nodes, n.layer = some unclassifiedTag ∧ unclassifiedFile n = v := by
  simp [unclassifiedFiles, and_assoc]

/-- A graph whose edges all end at nodes is judged, by its files and by its edges. -/
theorem violations?_of_inRange (layers : Layers) (h : g.InRange) :
    ∃ found, violations? layers g = some found ∧
      ∀ v, v ∈ found ↔ (layers.unclassified = .deny ∧ v ∈ unclassifiedFiles g) ∨
        ∃ e ∈ g.edges, FoundAt layers layers.unclassified g e v := by
  obtain ⟨edges, hedges, hmem⟩ := judgeEdges_of_inRange layers layers.unclassified g.edges h
  refine ⟨_, by rw [violations?, hedges]; rfl, ?_⟩
  intro v
  rw [mem_sortedDistinct, List.mem_append, hmem]
  by_cases hdeny : layers.unclassified = .deny <;> simp [hdeny]

/-! ## One edge -/

/-- Where unclassified files are not allowed, an edge between two classified files is a finding just
if the matrix does not permit it, and any other edge is none. -/
theorem judge_eq_none_iff {source target : Node} {specifier : String} (h : mode ≠ .allow) :
    judge layers mode source target specifier = none ↔
      layerOf source = unclassifiedTag ∨ layerOf target = unclassifiedTag ∨
        layers.permits (layerOf source) (layerOf target) = true := by
  rw [judge]
  by_cases hs : layerOf source = unclassifiedTag
  · simp [hs, h]
  · by_cases ht : layerOf target = unclassifiedTag
    · simp [ht, h]
    · simp [hs, ht]

/-- A finding about an edge is a broken boundary or an unclassified module. -/
theorem reason_of_judge {source target : Node} {specifier : String}
    (h : judge layers mode source target specifier = some v) :
    v.reason = .layerBoundary ∨ v.reason = .unclassifiedModule := by
  simp only [judge] at h
  split at h
  · cases h
  · split at h
    · cases h
    · cases h
      split
      · exact .inr rfl
      · exact .inl rfl

/-- Every finding has one of the two reasons that are broken layer rules. -/
theorem reason_of_mem {found : List Violation} (hrange : g.InRange)
    (hfound : violations? layers g = some found) (hv : v ∈ found) :
    v.reason = .layerBoundary ∨ v.reason = .unclassifiedModule := by
  obtain ⟨found', hfound', hmem⟩ := violations?_of_inRange layers hrange
  obtain rfl : found = found' := Option.some_inj.1 (hfound.symm.trans hfound')
  rcases (hmem v).1 hv with ⟨-, hfile⟩ | ⟨e, -, source, target, -, -, hj⟩
  · obtain ⟨n, -, -, rfl⟩ := mem_unclassifiedFiles.1 hfile
    exact .inr rfl
  · exact reason_of_judge hj

/-! ## Where a finding comes from -/

/-- The finding about an import that the rules do not permit. -/
def importFinding (source target : Node) (specifier : String) : Violation :=
  ⟨if layerOf source = unclassifiedTag ∨ layerOf target = unclassifiedTag then .unclassifiedModule
    else .layerBoundary, source.path, some target.path, some specifier, layerOf source,
    some (layerOf target)⟩

/-- Where unclassified files are not allowed, no finding about an import touches one. -/
theorem eq_importFinding_of_judge {source target : Node} {specifier : String}
    (h : judge layers mode source target specifier = some v) :
    v = importFinding source target specifier ∧
      (v.reason = .unclassifiedModule → mode = .allow) := by
  simp only [judge] at h
  split at h
  · cases h
  · rename_i htouches
    split at h
    · cases h
    · cases h
      refine ⟨by simp [importFinding], fun hreason => ?_⟩
      by_contra hmode
      apply htouches
      refine ⟨?_, hmode⟩
      by_contra hnot
      rw [if_neg hnot] at hreason
      cases hreason

theorem inRange_of_judgeEdges {edges : List Edge} {found : List Violation}
    (h : judgeEdges layers mode g edges = some found) :
    ∀ e ∈ edges, e.source < g.nodes.size ∧ e.target < g.nodes.size := by
  induction edges generalizing found with
  | nil => exact fun e he => absurd he List.not_mem_nil
  | cons e rest ih =>
    -- Judging the first edge looks both of its ends up.
    simp only [judgeEdges, Option.bind_eq_bind, Option.bind_eq_some_iff] at h
    obtain ⟨source, hsource, target, htarget, later, hlater, -⟩ := h
    intro e' he'
    rcases List.mem_cons.1 he' with rfl | he'
    · exact ⟨(Array.getElem?_eq_some_iff.1 hsource).1, (Array.getElem?_eq_some_iff.1 htarget).1⟩
    · exact ih hlater e' he'

/-- A graph is judged only if its edges end at nodes. -/
theorem inRange_of_violations? {found : List Violation} (h : violations? layers g = some found) :
    g.InRange := by
  simp only [violations?, Option.bind_eq_bind, Option.bind_eq_some_iff] at h
  obtain ⟨edges, hedges, -⟩ := h
  exact inRange_of_judgeEdges hedges

theorem mem_iff_of_violations? {found : List Violation} (h : violations? layers g = some found) :
    v ∈ found ↔ (layers.unclassified = .deny ∧ v ∈ unclassifiedFiles g) ∨
      ∃ e ∈ g.edges, FoundAt layers layers.unclassified g e v := by
  obtain ⟨found', hfound', hmem⟩ := violations?_of_inRange layers (inRange_of_violations? h)
  obtain rfl : found = found' := Option.some_inj.1 (h.symm.trans hfound')
  exact hmem v

/-- A finding is about a file, where such files are denied, or about the import of a file by
another. -/
theorem origin_of_mem {found : List Violation} (h : violations? layers g = some found)
    (hv : v ∈ found) :
    (layers.unclassified = .deny ∧ ∃ n ∈ g.nodes, v = unclassifiedFile n) ∨
      ((v.reason = .unclassifiedModule → layers.unclassified = .allow) ∧
        ∃ source ∈ g.nodes, ∃ target ∈ g.nodes, ∃ specifier,
          v = importFinding source target specifier) := by
  rcases (mem_iff_of_violations? h).1 hv with ⟨hdeny, hfile⟩ | ⟨e, -, source, target, hs, ht, hj⟩
  · obtain ⟨n, hn, -, rfl⟩ := mem_unclassifiedFiles.1 hfile
    exact .inl ⟨hdeny, n, hn, rfl⟩
  · obtain ⟨rfl, hallow⟩ := eq_importFinding_of_judge hj
    exact .inr ⟨hallow, source, Array.mem_of_getElem? hs, target, Array.mem_of_getElem? ht,
      e.specifier, rfl⟩

/-- The findings stand in increasing order. -/
theorem strictlySorted_of_violations? {found : List Violation}
    (h : violations? layers g = some found) : StrictlySorted found := by
  simp only [violations?, Option.bind_eq_bind, Option.bind_eq_some_iff, Option.pure_def,
    Option.some_inj] at h
  obtain ⟨edges, -, rfl⟩ := h
  exact strictlySorted_sortedDistinct _

/-! ## Other edges -/

theorem violations?_eq_none (h : ¬ g.InRange) : violations? layers g = none :=
  Option.eq_none_iff_forall_ne_some.2 fun _ hsome => h (inRange_of_violations? hsome)

theorem foundAt_of_sameImports (h : other.SameImports g)
    (hv : ∃ e ∈ other.edges, FoundAt layers mode other e v) :
    ∃ e ∈ g.edges, FoundAt layers mode g e v := by
  obtain ⟨e, he, source, target, hs, ht, hjudge⟩ := hv
  obtain ⟨e', he', hsource, htarget, hspecifier⟩ := h.counterpart he
  rw [h.nodes, ← hsource] at hs
  rw [h.nodes, ← htarget] at ht
  rw [← hspecifier] at hjudge
  exact ⟨e', he', source, target, hs, ht, hjudge⟩

/-- What is found depends on the nodes and on which imports there are. -/
theorem violations?_sameImports (h : other.SameImports g) :
    violations? layers other = violations? layers g := by
  by_cases hrange : g.InRange
  · obtain ⟨found, hfound, hmem⟩ := violations?_of_inRange layers hrange
    obtain ⟨found', hfound', hmem'⟩ := violations?_of_inRange layers (h.inRange hrange)
    -- Both answers are sorted and hold the findings of the same files and imports.
    rw [hfound, hfound', Option.some_inj]
    apply (strictlySorted_of_violations? hfound').eq_of_mem_iff
      (strictlySorted_of_violations? hfound)
    intro v
    rw [hmem, hmem', unclassifiedFiles, unclassifiedFiles, h.nodes]
    exact or_congr Iff.rfl ⟨foundAt_of_sameImports h, foundAt_of_sameImports h.symm⟩
  · rw [violations?_eq_none hrange, violations?_eq_none fun hother => hrange (h.symm.inRange hother)]

end Policy

end LayerGate
