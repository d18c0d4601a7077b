import LayerGate.Config.Schema
import LayerGate.Proofs.ReportRecords

/-!
# The order of the records

Every reason has a rank of its own, so no two records of a report compare equal.  The records then
are a strictly sorted list, and such a list is known from its members.
-/

namespace LayerGate

/-! ## Ranks -/

namespace Gate

variable {gate : Gate}

/-- A gate that the schema takes ranks every reason. -/
theorem orderIsComplete_of_schema {document : Value} (h : Config.gateSchema document = .valid gate) :
    gate.orderIsComplete = true := by
  rw [Config.gateSchema, Schema.Checked.obeying_eq_valid_iff] at h
  by_contra hnot
  have hrule := h.2
  rw [if_neg hnot] at hrule
  cases hrule

theorem rank_inj (h : gate.orderIsComplete = true) {r s : Reason} :
    gate.rank r = gate.rank s ↔ r = s := by
  have hcount : gate.severityOrder.count r = 1 := orderIsComplete_iff.1 h r
  have hmem : r ∈ gate.severityOrder := List.count_pos_iff.1 (by omega)
  exact List.idxOf_inj hmem

end Gate

namespace Report

variable {graph : ModuleGraph} {layers : Layers} {gate : Gate} {found violations : List Violation}
  {cycles : List ImportCycle} {a b : Record}

/-! ## Comparing records -/

instance (gate : Gate) : Std.TransCmp (order gate) :=
  inferInstanceAs <| Std.TransCmp <| compareLex (compareOn fun r => gate.rank r.reason) <|
    compareLex (compareOn Record.sourcePath) <|
      compareLex (compareOn fun r => r.targetPath.getD "") <|
        compareLex (compareOn specifierText) (compareOn Record.cycle)

theorem order_eq_iff (h : gate.orderIsComplete = true) :
    order gate a b = .eq ↔ a.reason = b.reason ∧ a.sourcePath = b.sourcePath ∧
      a.targetPath.getD "" = b.targetPath.getD "" ∧ specifierText a = specifierText b ∧
        a.cycle = b.cycle := by
  simp only [order, Ordering.then_eq_eq, Std.LawfulEqOrd.compare_eq_iff_eq, Gate.rank_inj h]

/-- Records that stand for findings compare equal only if they are the same. -/
theorem eq_of_order_eq (hgate : gate.orderIsComplete = true)
    (h : Reportable layers graph violations cycles)
    (ha : Reported gate graph.nodes.toList violations cycles a)
    (hb : Reported gate graph.nodes.toList violations cycles b) (hab : order gate a b = .eq) :
    a = b := by
  obtain ⟨found, hfound, hsub⟩ := h.violations
  obtain ⟨hreason, hsource, htarget, hspecifier, hcycle⟩ := (order_eq_iff hgate).1 hab
  cases ha with
  | @broken m b hm hbfirst =>
    cases hb with
    | @broken n c hn hcfirst =>
      obtain rfl := h.graph.node_eq (Array.mem_toList_iff.1 hm) (Array.mem_toList_iff.1 hn) hsource
      -- Both are the first broken import with one specifier.
      have hsame : b.specifier = c.specifier := hspecifier
      rw [← hsame, hbfirst, Option.some_inj] at hcfirst
      rw [hcfirst]
    | violation hw => exact absurd hreason.symm (h.reason_ne hw.1).1
    | cycle hd => cases hreason
  | @violation v hv =>
    cases hb with
    | broken hn hc => exact absurd hreason (h.reason_ne hv.1).1
    | @violation w hw =>
      have htarget : v.targetPath = w.targetPath :=
        Policy.target_eq_of_text hfound (hsub v hv.1) (hsub w hw.1) hreason htarget
      rw [Policy.eq_of_place h.graph.paths hfound (hsub v hv.1) (hsub w hw.1) hsource htarget hspecifier]
    | cycle hd => exact absurd hreason (h.reason_ne hv.1).2
  | @cycle c hc =>
    cases hb with
    | broken hn hb => cases hreason
    | violation hw => exact absurd hreason.symm (h.reason_ne hw.1).2
    | @cycle d hd =>
      obtain ⟨hfirst, hrest⟩ := List.cons.inj hcycle
      cases c
      cases d
      simp_all

/-! ## Sorted records -/

/-- The records of a report. -/
theorem records_ofFindings (graph : ModuleGraph) (violations : List Violation)
    (cycles : List ImportCycle) (gate : Gate) :
    (ofFindings graph violations cycles gate).records =
      (merge (entries gate graph.nodes.toList violations cycles)).mergeSort
        fun a b => (order gate a b).isLE := rfl

theorem mem_records_iff (h : Reportable layers graph violations cycles) {r : Record} :
    r ∈ (ofFindings graph violations cycles gate).records ↔
      Reported gate graph.nodes.toList violations cycles r := by
  rw [records_ofFindings, List.mem_mergeSort, mem_merge_entries_iff h]

/-- The records tell just the cycles that were found. -/
theorem cycle_of_mem_records_iff (hviolations : ∀ v ∈ violations, v.reason ≠ .cycle)
    (hplain : ∀ c ∈ cycles, c.Plain) {paths : List String} :
    (∃ r ∈ (ofFindings graph violations cycles gate).records, r.reason = .cycle ∧ r.cycle = paths) ↔
      ∃ c ∈ cycles, c.paths = paths := by
  -- Only a cycle has the reason of one.
  have hown : ∀ e ∈ entries gate graph.nodes.toList violations cycles, e.1.reason = .cycle →
      ∃ c ∈ cycles, cycleEntry gate c = e := by
    intro e he hreason
    rcases mem_entries_iff.1 he with ⟨n, -, b, -, rfl⟩ | ⟨v, hv, rfl⟩ | hcycle
    · cases hreason
    · exact absurd hreason (hviolations v hv)
    · exact hcycle
  simp only [records_ofFindings, List.mem_mergeSort, merge_eq_map, List.mem_map, mem_merged_iff]
  constructor
  · rintro ⟨r, ⟨e, hkept, rfl⟩, hreason, rfl⟩
    rw [← entries_keys _ _ _ _ e hkept.mem] at hreason
    obtain ⟨c, hc, rfl⟩ := hown e hkept.mem hreason
    exact ⟨c, hc, rfl⟩
  · rintro ⟨c, hc, rfl⟩
    have hentry : cycleEntry gate c ∈ entries gate graph.nodes.toList violations cycles :=
      mem_entries_iff.2 (.inr (.inr ⟨c, hc, rfl⟩))
    obtain ⟨e, hkept, hkey⟩ := exists_kept hentry
    obtain ⟨c', hc', rfl⟩ := hown e hkept.mem (by rw [hkey]; rfl)
    obtain rfl := cycleEntry_key_inj (hplain c' hc') (hplain c hc) hkey
    exact ⟨_, ⟨_, hkept, rfl⟩, rfl, rfl⟩

/-- Each record is below all that follow it. -/
theorem pairwise_records (hgate : gate.orderIsComplete = true)
    (h : Reportable layers graph violations cycles) :
    (ofFindings graph violations cycles gate).records.Pairwise fun a b => order gate a b = .lt := by
  have hsorted : (ofFindings graph violations cycles gate).records.Pairwise fun a b =>
      (order gate a b).isLE = true := pairwise_mergeSort_isLE _
  have hnodup : (ofFindings graph violations cycles gate).records.Nodup :=
    (List.mergeSort_perm ..).nodup_iff.2 (nodup_merge_entries h)
  -- What stands twice in no list and compares equal to nothing else is below what follows it.
  refine (hsorted.and hnodup).imp_of_mem ?_
  rintro a b ha hb ⟨hle, hne⟩
  rcases Ordering.isLE_iff_eq_lt_or_eq_eq.1 hle with hlt | heq
  · exact hlt
  · exact absurd (eq_of_order_eq hgate h ((mem_records_iff h).1 ha) ((mem_records_iff h).1 hb) heq)
      hne

/-- Sorted records are known from their members. -/
theorem records_eq_of_mem_iff {as bs : List Record}
    (ha : as.Pairwise fun a b => order gate a b = .lt)
    (hb : bs.Pairwise fun a b => order gate a b = .lt) (h : ∀ r, r ∈ as ↔ r ∈ bs) : as = bs := by
  have hne : ∀ {a b : Record}, order gate a b = .lt → a ≠ b := by
    rintro a b hlt rfl
    have hself : order gate a a = .eq := Std.ReflCmp.compare_self
    rw [hself] at hlt
    cases hlt
  have hperm : as.Perm bs := (List.perm_ext_iff_of_nodup (ha.imp hne) (hb.imp hne)).2 h
  refine hperm.eq_of_pairwise ?_ ha hb
  intro a b _ _ hab hba
  have hswap : order gate a b = (order gate b a).swap := Std.OrientedCmp.eq_swap
  rw [hab, hba] at hswap
  cases hswap

end Report

end LayerGate
