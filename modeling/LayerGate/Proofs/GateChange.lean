import LayerGate.Proofs.RecordMerge

/-!
# The same findings under another gate

The gate decides how severe a record is and whether the verdict fails, but which findings are merged
does not depend on it.  Gates that rank the reasons alike make the same report out of the same findings
just if they block the same of its records.
-/

namespace LayerGate.Report

variable {g g' : Gate} {graph : ModuleGraph} {violations : List Violation} {cycles : List ImportCycle}
  {nodes : List Node} {e : Entry} {done es : List Entry} {r : Record}

/-- The record as another gate has it. -/
def Record.under (g : Gate) (r : Record) : Record := { r with severity := severityOf g r.reason }

def Entry.under (g : Gate) (e : Entry) : Entry := (e.1, e.2.under g)

theorem Record.under_eq_iff : r.under g = r ↔ r.severity = severityOf g r.reason := by
  constructor
  · intro h
    exact (congrArg Record.severity h).symm
  · intro h
    unfold Record.under
    rw [← h]

/-! ## Merging -/

theorem entries_under : entries g' nodes violations cycles =
    (entries g nodes violations cycles).map (Entry.under g') := by
  unfold entries
  rw [List.map_append, List.map_append, List.map_flatMap, List.map_map, List.map_map]
  congr 2
  simp only [List.map_map]
  rfl

theorem add_under : add (e.under g) (done.map (Entry.under g)) = (add e done).map (Entry.under g) := by
  induction done with
  | nil => rfl
  | cons other rest ih =>
    rw [List.map_cons, add, add]
    show (if other.1 = e.1 then (if specifierText e.2 < specifierText other.2 then e.under g
      else other.under g) :: rest.map (Entry.under g) else _) = _
    split
    · rw [List.map_cons]
      split <;> rfl
    · rw [ih, List.map_cons]

theorem foldl_add_under : (es.map (Entry.under g)).foldl (fun done e => add e done)
    (done.map (Entry.under g)) = (es.foldl (fun done e => add e done) done).map (Entry.under g) := by
  induction es generalizing done with
  | nil => rfl
  | cons e rest ih => rw [List.map_cons, List.foldl_cons, List.foldl_cons, add_under, ih]

theorem merge_under : merge (es.map (Entry.under g)) = (merge es).map (Record.under g) := by
  unfold merge
  rw [← List.map_nil (f := Entry.under g), foldl_add_under, List.map_map, List.map_nil, List.map_map]
  rfl

/-! ## The report -/

theorem order_under (h : g'.severityOrder = g.severityOrder) {a b : Record} :
    order g' (a.under g') (b.under g') = order g a b := by
  unfold order Gate.rank
  rw [h]
  rfl

/-- Another gate that ranks alike has the same records in the same order. -/
theorem records_under (h : g'.severityOrder = g.severityOrder) :
    (ofFindings graph violations cycles g').records =
      (ofFindings graph violations cycles g).records.map (Record.under g') := by
  show (merge (entries g' _ _ _)).mergeSort _ = List.map _ ((merge (entries g _ _ _)).mergeSort _)
  rw [entries_under (g := g), merge_under, List.map_mergeSort]
  intro a _ b _
  rw [order_under h]

/-- Every record has the severity that the gate gives to its reason. -/
theorem severity_of_mem_records (h : r ∈ (ofFindings graph violations cycles g).records) :
    r.severity = severityOf g r.reason := by
  have hmerged : r ∈ merge (entries g graph.nodes.toList violations cycles) := List.mem_mergeSort.1 h
  obtain ⟨e, he, rfl⟩ := List.mem_map.1 hmerged
  have hentry := (mem_of_mem_foldl_add he).resolve_left List.not_mem_nil
  simp only [entries, List.mem_append, List.mem_flatMap, List.mem_map] at hentry
  rcases hentry with (⟨n, -, b, -, rfl⟩ | ⟨v, -, rfl⟩) | ⟨c, -, rfl⟩ <;> rfl

theorem severityOf_eq_iff {reason : Reason} :
    severityOf g reason = severityOf g' reason ↔ g.blocks reason = g'.blocks reason := by
  unfold severityOf
  cases g.blocks reason <;> cases g'.blocks reason <;> decide

/-- Gates that rank the reasons alike report alike just if they agree on every reported reason. -/
theorem ofFindings_eq_iff (h : g'.severityOrder = g.severityOrder) :
    ofFindings graph violations cycles g' = ofFindings graph violations cycles g ↔
      ∀ r ∈ (ofFindings graph violations cycles g).records, r.severity = severityOf g' r.reason := by
  have hrecords := @records_under g g' graph violations cycles h
  have hfixed : (ofFindings graph violations cycles g').records =
      (ofFindings graph violations cycles g).records ↔
        ∀ r ∈ (ofFindings graph violations cycles g).records, r.severity = severityOf g' r.reason := by
    rw [hrecords]
    generalize (ofFindings graph violations cycles g).records = records
    have hid : records.map (Record.under g') = records.map id ↔ ∀ r ∈ records, r.under g' = id r :=
      List.map_eq_map_iff
    rw [List.map_id] at hid
    exact hid.trans (forall₂_congr fun r _ => Record.under_eq_iff)
  constructor
  · intro heq
    exact hfixed.1 (congrArg Report.records heq)
  · intro hsame
    have hkept := hfixed.2 hsame
    have hverdict : verdictOf g' (ofFindings graph violations cycles g).records =
        verdictOf g (ofFindings graph violations cycles g).records := by
      unfold verdictOf
      simp only [List.any_eq_true]
      congr 1
      refine propext (exists_congr fun r => and_congr_right fun hr => ?_)
      have hseverity := (hsame r hr).symm.trans (severity_of_mem_records hr)
      rw [severityOf_eq_iff.1 hseverity]
    unfold ofFindings at hkept hverdict ⊢
    simp only at hkept hverdict ⊢
    rw [hkept, hverdict]

end LayerGate.Report
