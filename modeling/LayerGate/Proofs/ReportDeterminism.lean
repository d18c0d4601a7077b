import Mathlib.Algebra.Ring.Int.Defs
import Mathlib.Algebra.Ring.Nat
import LayerGate.Proofs.CycleCover
import LayerGate.Proofs.ReportCompleteness
import LayerGate.Report.Structured

/-!
# The report does not depend on any order

Neither the order in which the edges of a graph are listed shows in its report, nor that in which
violations and cycles are handed to it, nor how often one of them is.
-/

namespace LayerGate

variable {graph other : ModuleGraph} {layers : Layers} {gate : Gate} {found violations : List Violation}
  {cycles : List ImportCycle}

/-! ## Edges in another order -/

namespace ModuleGraph

/-- The same nodes, and the same edges in any order. -/
structure Rearranged (other g : ModuleGraph) : Prop where
  nodes : other.nodes = g.nodes
  edges : other.edges.Perm g.edges

theorem Rearranged.sameImports (h : other.Rearranged graph) : other.SameImports graph :=
  ⟨h.nodes, fun _ _ _ => exists_congr fun _ => h.edges.mem_iff⟩

theorem Rearranged.digraph_eq (h : other.Rearranged graph) : other.digraph = graph.digraph := by
  rw [digraph, digraph, h.nodes]
  congr 1
  apply List.map_congr_left
  intro i _
  -- The successors of a file are sorted, so only which they are counts.
  exact sortedDistinct_congr fun target => ((h.edges.filter _).map _).mem_iff

theorem Rearranged.importCycles_eq (h : other.Rearranged graph) :
    other.importCycles = graph.importCycles := by
  have hstarts : other.startsInRange = graph.startsInRange := by
    rw [startsInRange, startsInRange, h.nodes]
    exact h.edges.all_eq
  rw [importCycles, importCycles, hstarts, h.digraph_eq, h.nodes]

/-- A cycle goes through files of the graph. -/
theorem path_mem_of_importCycles (h : graph.importCycles = .ok cycles) {c : ImportCycle}
    (hc : c ∈ cycles) : ∀ p ∈ c.paths, ∃ n ∈ graph.nodes, n.path = p := by
  rw [importCycles] at h
  split at h
  · cases h
  · cases hfound : graph.digraph.findCycles with
    | error f =>
      rw [hfound] at h
      cases h
    | ok found =>
      rw [hfound] at h
      cases h
      obtain ⟨cycle, -, hpaths⟩ := List.mem_filterMap.1 hc
      -- The paths of the cycle are those of the nodes at its vertices.
      have hc : c.paths = cycle.filterMap fun i => graph.nodes[i]?.map Node.path := by
        revert hpaths
        cases cycle.filterMap fun i => graph.nodes[i]?.map Node.path with
        | nil => exact fun hpaths => nomatch hpaths
        | cons first rest =>
          intro hpaths
          cases hpaths
          rfl
      intro p hp
      rw [hc] at hp
      obtain ⟨i, -, hi⟩ := List.mem_filterMap.1 hp
      obtain ⟨n, hn, hpath⟩ := Option.map_eq_some_iff.1 hi
      exact ⟨n, Array.mem_of_getElem? hn, hpath⟩

theorem order_digraph (g : ModuleGraph) : g.digraph.order = g.nodes.size := by
  simp [digraph, Digraph.ofLists, Digraph.order]

theorem next_digraph {v : Nat} (hv : v < graph.nodes.size) :
    graph.digraph.next v =
      sortedDistinct ((graph.edges.filter (·.source = v)).map Edge.target) := by
  simp [digraph, Digraph.ofLists, Digraph.next, hv]

/-- In the graph of positions there is a step wherever there is an edge. -/
theorem step_digraph_iff (h : graph.InRange) {v w : Nat} :
    graph.digraph.Step v w ↔ ∃ e ∈ graph.edges, e.source = v ∧ e.target = w := by
  by_cases hv : v < graph.nodes.size
  · simp [Digraph.Step, next_digraph hv, mem_sortedDistinct, and_assoc]
  · -- No edge starts outside.
    rw [Digraph.Step, Digraph.next_of_le (by rw [order_digraph]; omega)]
    refine iff_of_false List.not_mem_nil ?_
    rintro ⟨e, he, rfl, -⟩
    exact hv (h e he).1

theorem closed_digraph (h : graph.InRange) : graph.digraph.Closed := by
  intro v w hw
  obtain ⟨e, he, -, rfl⟩ := (step_digraph_iff h).1 hw
  rw [order_digraph]
  exact (h e he).2

/-- Cycles are found in every graph whose edges end at nodes. -/
theorem exists_importCycles (h : graph.InRange) : ∃ cycles, graph.importCycles = .ok cycles := by
  obtain ⟨found, hfound⟩ := Digraph.exists_findCycles (closed_digraph h)
  have hstarts : graph.startsInRange = true :=
    List.all_eq_true.2 fun e he => decide_eq_true (h e he).1
  rw [importCycles, hstarts, hfound]
  exact ⟨_, rfl⟩

end ModuleGraph

theorem Policy.violations?_rearranged (h : other.Rearranged graph) :
    violations? layers other = violations? layers graph :=
  violations?_sameImports h.sameImports

namespace Report

variable {fed : List Violation} {fedCycles : List ImportCycle}

/-! ## Findings in another order -/

/-- Which records stand for a finding depends on which findings there are. -/
theorem Reported.of_mem_iff {nodes : List Node} {r : Record}
    (hr : Reported gate nodes fed fedCycles r) (hviolations : ∀ v, v ∈ fed ↔ v ∈ violations)
    (hcycles : ∀ c, c ∈ fedCycles ↔ c ∈ cycles) : Reported gate nodes violations cycles r := by
  cases hr with
  | broken hn hb => exact .broken hn hb
  | violation hv => exact .violation ((foremost_congr hviolations).1 hv)
  | cycle hc => exact .cycle ((hcycles _).1 hc)

theorem Reportable.of_mem_iff (h : Reportable layers graph violations cycles)
    (hviolations : ∀ v, v ∈ fed ↔ v ∈ violations) (hcycles : ∀ c, c ∈ fedCycles ↔ c ∈ cycles) :
    Reportable layers graph fed fedCycles := by
  obtain ⟨found, hfound, hsub⟩ := h.violations
  exact ⟨h.graph, ⟨found, hfound, fun v hv => hsub v ((hviolations v).1 hv)⟩,
    fun c hc => h.cycles c ((hcycles c).1 hc)⟩

theorem records_congr (hgate : gate.orderIsComplete = true)
    (h : Reportable layers graph violations cycles) (hviolations : ∀ v, v ∈ fed ↔ v ∈ violations)
    (hcycles : ∀ c, c ∈ fedCycles ↔ c ∈ cycles) :
    (ofFindings graph fed fedCycles gate).records =
      (ofFindings graph violations cycles gate).records := by
  have hfed : Reportable layers graph fed fedCycles := h.of_mem_iff hviolations hcycles
  apply records_eq_of_mem_iff (pairwise_records hgate hfed) (pairwise_records hgate h)
  intro r
  rw [mem_records_iff hfed, mem_records_iff h]
  constructor
  · intro hr
    exact hr.of_mem_iff hviolations hcycles
  · intro hr
    exact hr.of_mem_iff (fun v => (hviolations v).symm) fun c => (hcycles c).symm

/-- Where findings can be told apart, the report depends on the nodes, the number of edges and which
findings there are. -/
theorem ofFindings_congr (hgate : gate.orderIsComplete = true)
    (h : Reportable layers graph violations cycles) (hother : other.Rearranged graph)
    (hviolations : ∀ v, v ∈ fed ↔ v ∈ violations) (hcycles : ∀ c, c ∈ fedCycles ↔ c ∈ cycles) :
    ofFindings other fed fedCycles gate = ofFindings graph violations cycles gate := by
  have hrecords := records_congr hgate h hviolations hcycles
  simp only [records_ofFindings] at hrecords
  simp only [ofFindings, hother.nodes, hother.edges.length_eq, hrecords]

/-! ## The text -/

theorem fits_of_nonneg {n : Int} (h : 0 ≤ n) (hlt : n < 2 ^ 64) : fits n = true := by
  have hlow : -(Int.pow 2 63) ≤ n := by
    have hneg : -(Int.pow 2 63) ≤ 0 := by decide
    omega
  have hhigh : n < Int.pow 2 64 := hlt
  rw [fits, Bool.and_eq_true]
  exact ⟨decide_eq_true hlow, decide_eq_true hhigh⟩

/-- A report has a text unless it counts beyond 64 bits. -/
theorem exists_structured? (hnodes : graph.nodes.size < 2 ^ 64) (hedges : graph.edges.length < 2 ^ 64)
    (hignored : (graph.nodes.toList.flatMap (·.ignored)).length < 2 ^ 64)
    (hrecords : (ofFindings graph violations cycles gate).records.length < 2 ^ 64) :
    ∃ text, structured? (ofFindings graph violations cycles gate) = some text := by
  generalize hr : (ofFindings graph violations cycles gate).records = records at hrecords
  have hintegers : (ofFindings graph violations cycles gate).integers =
      [currentVersion, graph.nodes.toList.length, graph.edges.length,
        records.length - records.countP (·.reason = .cycle), records.countP (·.reason = .cycle),
        records.countP (·.reason = .brokenImport),
        (graph.nodes.toList.flatMap (·.ignored)).length] := by
    rw [← hr]
    rfl
  -- Every count of records is one of some of them.
  have hcycle : records.countP (·.reason = .cycle) ≤ records.length := List.countP_le_length
  have hbroken : records.countP (·.reason = .brokenImport) ≤ records.length :=
    List.countP_le_length
  have hall : (ofFindings graph violations cycles gate).integers.all fits = true := by
    rw [hintegers, Array.length_toList]
    simp only [List.all_cons, List.all_nil, Bool.and_true, Bool.and_eq_true]
    refine ⟨by decide, ?_, ?_, ?_, ?_, ?_, ?_⟩ <;> apply fits_of_nonneg <;> omega
  exact ⟨_, if_pos hall⟩

/-! ## The whole run -/

/-- The text of a report depends neither on the order of the edges nor on the order and the repetition
of the findings that are fed to it, and there are findings to feed wherever edges end at nodes. -/
theorem text_order_independent {document : Value} (layers : Layers)
    (hgate : Config.gateSchema document = .valid gate) (hgraph : graph.Distinguished)
    (hother : other.Rearranged graph) :
    (graph.InRange → ∃ found cycles, Policy.violations? layers graph = some found ∧
      graph.importCycles = .ok cycles) ∧
    Policy.violations? layers other = Policy.violations? layers graph ∧
    other.importCycles = graph.importCycles ∧
    ∀ found cycles, Policy.violations? layers graph = some found →
      graph.importCycles = .ok cycles → ∀ fed fedCycles, (∀ v, v ∈ fed ↔ v ∈ found) →
        (∀ c, c ∈ fedCycles ↔ c ∈ cycles) →
          structured? (ofFindings other fed fedCycles gate) =
            structured? (ofFindings graph found cycles gate) ∧
          (graph.nodes.size < 2 ^ 64 → graph.edges.length < 2 ^ 64 →
            (graph.nodes.toList.flatMap (·.ignored)).length < 2 ^ 64 →
              (ofFindings graph found cycles gate).records.length < 2 ^ 64 →
                ∃ text, structured? (ofFindings other fed fedCycles gate) = some text) := by
  refine ⟨fun hrange => ?_, Policy.violations?_rearranged hother, hother.importCycles_eq, ?_⟩
  · obtain ⟨found, hfound, -⟩ := Policy.violations?_of_inRange layers hrange
    obtain ⟨cycles, hcycles⟩ := ModuleGraph.exists_importCycles hrange
    exact ⟨found, cycles, hfound, hcycles⟩
  · intro found cycles hfound hcycles fed fedCycles hfed hfedCycles
    -- Cycles go through files of the graph, whose paths hold no NUL.
    have hplain : ∀ c ∈ cycles, c.Plain := by
      intro c hc p hp
      obtain ⟨n, hn, rfl⟩ := ModuleGraph.path_mem_of_importCycles hcycles hc p hp
      exact hgraph.plainPaths n hn
    have h : Reportable layers graph found cycles :=
      ⟨hgraph, ⟨found, hfound, fun _ hv => hv⟩, hplain⟩
    have hreport : ofFindings other fed fedCycles gate = ofFindings graph found cycles gate :=
      ofFindings_congr (Gate.orderIsComplete_of_schema hgate) h hother hfed hfedCycles
    refine ⟨congrArg structured? hreport, fun hnodes hedges hignored hrecords => ?_⟩
    rw [hreport]
    exact exists_structured? hnodes hedges hignored hrecords

/-- The tangled files with their imports listed the other way round. -/
def tangledBackwards : ModuleGraph := { tangled with edges := tangled.edges.reverse }

theorem text_order_independent_tangled :
    Config.gateSchema (.table []) = .valid Gate.builtin ∧ tangled.Distinguished ∧
      tangledBackwards.Rearranged tangled ∧ ∃ found cycles,
        Policy.violations? tangledLayers tangledBackwards = some found ∧
        tangledBackwards.importCycles = .ok cycles ∧
        structured? (ofFindings tangledBackwards (found ++ found).reverse cycles.reverse .builtin) =
          structured? (ofFindings tangled found cycles .builtin) := by
  have hgate : Config.gateSchema (.table []) = .valid Gate.builtin := rfl
  have hother : tangledBackwards.Rearranged tangled := ⟨rfl, List.reverse_perm _⟩
  have hrange : tangled.InRange := by
    simp [ModuleGraph.InRange, tangled]
  obtain ⟨hexists, hviolations, hcycles, hsame⟩ :=
    text_order_independent tangledLayers hgate tangled_distinguished hother
  obtain ⟨found, cycles, hfound, hfoundCycles⟩ := hexists hrange
  obtain ⟨htext, -⟩ := hsame found cycles hfound hfoundCycles (found ++ found).reverse cycles.reverse
    (by simp) (by simp)
  exact ⟨hgate, tangled_distinguished, hother, found, cycles, hviolations.trans hfound,
    hcycles.trans hfoundCycles, htext⟩

end Report

end LayerGate
