import LayerGate.Proofs.GateChange
import LayerGate.Proofs.ReportCompleteness

/-!
# The gate labels and orders

Whatever the gate, the same findings make the same records, but for their severities, and the same
totals, but for the verdict.  The order of the reasons alone decides how the records stand, and a gate
that blocks less passes whatever one that blocks more does.
-/

namespace LayerGate.Report

variable {g g' : Gate} {graph : ModuleGraph} {violations : List Violation} {cycles : List ImportCycle}
  {records records' : List Record}

/-! ## What is left without the labels -/

/-- The record with its severity erased. -/
def Record.unlabelled (r : Record) : Record := { r with severity := .warning }

/-- The totals with the verdict erased. -/
def Summary.unjudged (s : Summary) : Summary := { s with verdict := .pass }

/-- What two reports on the same findings have in common, the one made under the gate `g` and the
other under the gate `g'`. -/
structure SameFindings (g g' : Gate) (report report' : Report) : Prop where
  /-- Each record stands in both equally often, -/
  records : (report.records.map Record.unlabelled).Perm (report'.records.map Record.unlabelled)
  /-- the totals are the same, -/
  summary : report.summary.unjudged = report'.summary.unjudged
  /-- the records stand in the same order if the gates rank the reasons alike, -/
  order : g.severityOrder = g'.severityOrder →
    report.records.map Record.unlabelled = report'.records.map Record.unlabelled
  /-- and what passes the one gate passes the other if that blocks no more. -/
  verdict : g.blocking ⊆ g'.blocking → report'.passed = true → report.passed = true

/-! ## Records -/

theorem unlabelled_under (r : Record) : (r.under g).unlabelled = r.unlabelled := rfl

/-- Merging the findings under another gate gives the same records in the same places. -/
theorem merge_unlabelled (nodes : List Node) :
    (merge (entries g nodes violations cycles)).map Record.unlabelled =
      (merge (entries g' nodes violations cycles)).map Record.unlabelled := by
  have hentries : entries g nodes violations cycles =
      (entries g' nodes violations cycles).map (Entry.under g) := entries_under
  rw [hentries, merge_under, List.map_map]
  apply List.map_congr_left
  intro r _
  exact unlabelled_under r

theorem records_unlabelled_perm :
    ((ofFindings graph violations cycles g).records.map Record.unlabelled).Perm
      ((ofFindings graph violations cycles g').records.map Record.unlabelled) := by
  have hsorted : ∀ gate : Gate,
      ((ofFindings graph violations cycles gate).records.map Record.unlabelled).Perm
        ((merge (entries gate graph.nodes.toList violations cycles)).map Record.unlabelled) :=
    fun gate => (List.mergeSort_perm ..).map _
  exact (hsorted g).trans ((List.Perm.of_eq (merge_unlabelled _)).trans (hsorted g').symm)

theorem records_unlabelled_eq (h : g.severityOrder = g'.severityOrder) :
    (ofFindings graph violations cycles g).records.map Record.unlabelled =
      (ofFindings graph violations cycles g').records.map Record.unlabelled := by
  rw [records_under h, List.map_map]
  apply List.map_congr_left
  intro r _
  exact unlabelled_under r

/-! ## Totals and verdict -/

/-- How many records there are of some reasons can be counted without their severities. -/
theorem countP_of_unlabelled_perm
    (h : (records.map Record.unlabelled).Perm (records'.map Record.unlabelled)) (p : Reason → Bool) :
    records.countP (fun r => p r.reason) = records'.countP (fun r => p r.reason) := by
  have hmap : ∀ rs : List Record,
      (rs.map Record.unlabelled).countP (fun r => p r.reason) = rs.countP fun r => p r.reason := by
    intro rs
    rw [List.countP_map]
    rfl
  rw [← hmap records, ← hmap records']
  exact h.countP_eq _

theorem summary_unjudged_eq :
    (ofFindings graph violations cycles g).summary.unjudged =
      (ofFindings graph violations cycles g').summary.unjudged := by
  have hperm : ((ofFindings graph violations cycles g).records.map Record.unlabelled).Perm
      ((ofFindings graph violations cycles g').records.map Record.unlabelled) :=
    records_unlabelled_perm
  have hlength := hperm.length_eq
  rw [List.length_map, List.length_map] at hlength
  have hcycle := countP_of_unlabelled_perm hperm fun r => r = .cycle
  have hbroken := countP_of_unlabelled_perm hperm fun r => r = .brokenImport
  -- All that the summary takes from the records is counted.
  unfold ofFindings Summary.unjudged at *
  simp only at *
  rw [hlength, hcycle, hbroken]

/-- A gate that blocks no more lets pass what the other does. -/
theorem passed_of_blocking_subset (h : g.blocking ⊆ g'.blocking)
    (hpass : (ofFindings graph violations cycles g').passed = true) :
    (ofFindings graph violations cycles g).passed = true := by
  have hblocks : ∀ r, g.blocks r = true → g'.blocks r = true := by
    intro r hr
    rw [Gate.blocks, List.contains_iff_mem] at hr ⊢
    exact h hr
  obtain ⟨hbroken, hviolations, hcycles⟩ := passed_ofFindings_iff.1 hpass
  refine passed_ofFindings_iff.2
    ⟨fun hb => hbroken (hblocks _ hb), fun v hv => ?_, fun hb => hcycles (hblocks _ hb)⟩
  by_contra hne
  have hv' := hblocks _ (Bool.not_eq_false _ ▸ hne)
  rw [hviolations v hv] at hv'
  cases hv'

/-- Under a gate that blocks nothing every record is a warning. -/
theorem severity_of_blocking_nil (h : g.blocking = []) {r : Record}
    (hr : r ∈ (ofFindings graph violations cycles g).records) : r.severity = .warning := by
  rw [severity_of_mem_records hr, severityOf, Gate.blocks, h]
  rfl

theorem passed_of_blocking_nil (h : g.blocking = []) :
    (ofFindings graph violations cycles g).passed = true := by
  have hblocks : ∀ r, g.blocks r = false := by
    intro r
    rw [Gate.blocks, h]
    rfl
  refine passed_ofFindings_iff.2 ⟨fun hb => ?_, fun v _ => hblocks v.reason, fun hb => ?_⟩
  · rw [hblocks] at hb
    cases hb
  · rw [hblocks] at hb
    cases hb

/-! ## The whole report -/

/-- For any graph, any violations and cycles in any order, and any two gates, the two reports tell the
same findings, and one under a gate that blocks nothing passes and only warns. -/
theorem gate_only_labels (graph : ModuleGraph) (violations : List Violation)
    (cycles : List ImportCycle) (g g' : Gate) :
    SameFindings g g' (ofFindings graph violations cycles g) (ofFindings graph violations cycles g') ∧
      (g.blocking = [] → (ofFindings graph violations cycles g).passed = true ∧
        ∀ r ∈ (ofFindings graph violations cycles g).records, r.severity = .warning) where
  left :=
    { records := records_unlabelled_perm
      summary := summary_unjudged_eq
      order := records_unlabelled_eq
      verdict := passed_of_blocking_subset }
  right h := ⟨passed_of_blocking_nil h, fun _ => severity_of_blocking_nil h⟩

/-- The built-in order of the reasons, none of which blocks. -/
def lenientGate : Gate := ⟨Reason.all, []⟩

theorem gate_only_labels_tangled :
    lenientGate.severityOrder = Gate.builtin.severityOrder ∧
      lenientGate.blocking ⊆ Gate.builtin.blocking ∧ lenientGate.blocking = [] ∧
      SameFindings lenientGate .builtin
        (ofFindings tangled [tangledViolation "pkg.b"] [⟨"a.py", ["b.py"]⟩] lenientGate)
        (ofFindings tangled [tangledViolation "pkg.b"] [⟨"a.py", ["b.py"]⟩] .builtin) ∧
      (ofFindings tangled [tangledViolation "pkg.b"] [⟨"a.py", ["b.py"]⟩] lenientGate).passed = true ∧
      (ofFindings tangled [tangledViolation "pkg.b"] [⟨"a.py", ["b.py"]⟩] .builtin).passed = false := by
  have hblocking : lenientGate.blocking = [] := rfl
  obtain ⟨hsame, hlenient⟩ :=
    gate_only_labels tangled [tangledViolation "pkg.b"] [⟨"a.py", ["b.py"]⟩] lenientGate .builtin
  have hfail : ¬ (ofFindings tangled [tangledViolation "pkg.b"] [⟨"a.py", ["b.py"]⟩]
      .builtin).passed = true := by
    intro hpass
    -- The built-in gate blocks broken boundaries.
    have hviolation := (passed_ofFindings_iff.1 hpass).2.1 _ (List.mem_cons_self ..)
    cases hviolation
  exact ⟨rfl, List.nil_subset _, hblocking, hsame, (hlenient hblocking).1,
    Bool.not_eq_true _ ▸ hfail⟩

end LayerGate.Report
