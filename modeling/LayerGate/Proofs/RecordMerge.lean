import Mathlib.Tactic.Common
import LayerGate.Report.Findings

/-!
# Which findings reach the report

Merging keeps one record for each key: it invents none and loses no key.  Since the reason is a part
of the key, a reason is reported just if there is a finding with it, and the verdict can be read off
the findings themselves.
-/

namespace LayerGate.Report

variable {g : Gate} {x e : Entry} {done es : List Entry} {k : Key}

/-! ## One step -/

theorem mem_of_mem_add (h : x ∈ add e done) : x = e ∨ x ∈ done := by
  induction done with
  | nil => exact .inl (by simpa [add] using h)
  | cons other rest ih =>
    rw [add] at h
    by_cases hkey : other.1 = e.1
    · -- The place of `other` goes to the one of the two with the smaller specifier.
      rw [if_pos hkey] at h
      rcases List.mem_cons.1 h with hx | hx
      · split at hx
        · exact .inl hx
        · exact .inr (List.mem_cons.2 (.inl hx))
      · exact .inr (List.mem_cons_of_mem _ hx)
    · rw [if_neg hkey] at h
      rcases List.mem_cons.1 h with hx | hx
      · exact .inr (List.mem_cons.2 (.inl hx))
      · exact (ih hx).imp id (List.mem_cons_of_mem _)

/-- A step adds the key of its entry and takes none away. -/
theorem exists_key_add : (∃ x ∈ add e done, x.1 = k) ↔ e.1 = k ∨ ∃ x ∈ done, x.1 = k := by
  induction done with
  | nil => simp [add]
  | cons other rest ih =>
    rw [add]
    by_cases hkey : other.1 = e.1
    · -- The place of `other` is taken, so its key stays whichever of the two is kept.
      rw [if_pos hkey]
      by_cases hsmaller : specifierText e.2 < specifierText other.2
      · simp [hsmaller, hkey]
      · simp [hsmaller, ← hkey]
    · rw [if_neg hkey]
      simp only [List.mem_cons, exists_eq_or_imp, ih]
      exact or_left_comm

/-! ## All entries -/

theorem mem_of_mem_foldl_add (h : x ∈ es.foldl (fun done e => add e done) done) :
    x ∈ done ∨ x ∈ es := by
  induction es generalizing done with
  | nil => exact .inl h
  | cons e rest ih =>
    rcases ih h with hx | hx
    · rcases mem_of_mem_add hx with rfl | hx
      · exact .inr (List.mem_cons_self ..)
      · exact .inl hx
    · exact .inr (List.mem_cons_of_mem _ hx)

theorem exists_key_foldl_add :
    (∃ x ∈ es.foldl (fun done e => add e done) done, x.1 = k) ↔
      (∃ x ∈ done, x.1 = k) ∨ ∃ e ∈ es, e.1 = k := by
  induction es generalizing done with
  | nil => simp
  | cons e rest ih =>
    rw [List.foldl_cons, ih, exists_key_add]
    simp only [List.mem_cons, exists_eq_or_imp]
    rw [or_comm (a := e.1 = k), or_assoc]

/-- A reason is that of some record just if it is that of some entry, for the key holds it. -/
theorem exists_reason_merge {r : Reason} (hkeys : ∀ e ∈ es, e.1.reason = e.2.reason) :
    (∃ record ∈ merge es, record.reason = r) ↔ ∃ e ∈ es, e.2.reason = r := by
  constructor
  · rintro ⟨record, hrecord, hr⟩
    obtain ⟨x, hx, rfl⟩ := List.mem_map.1 hrecord
    rcases mem_of_mem_foldl_add hx with hx | hx
    · cases hx
    · exact ⟨x, hx, hr⟩
  · rintro ⟨e, he, hr⟩
    have hkeyed : ∃ x ∈ es.foldl (fun done e => add e done) [], x.1 = e.1 :=
      exists_key_foldl_add.2 (.inr ⟨e, he, rfl⟩)
    obtain ⟨x, hx, hkey⟩ := hkeyed
    -- The record with this key may come from another entry, but the key holds the reason.
    have hxs : x ∈ es := (mem_of_mem_foldl_add hx).resolve_left List.not_mem_nil
    refine ⟨x.2, List.mem_map.2 ⟨x, hx, rfl⟩, ?_⟩
    rw [← hkeys x hxs, hkey, hkeys e he, hr]

/-! ## The findings of one run -/

theorem entries_keys (g : Gate) (nodes : List Node) (violations : List Violation)
    (cycles : List ImportCycle) :
    ∀ e ∈ entries g nodes violations cycles, e.1.reason = e.2.reason := by
  intro e he
  simp only [entries, List.mem_append, List.mem_flatMap, List.mem_map] at he
  rcases he with (⟨n, -, b, -, rfl⟩ | ⟨v, -, rfl⟩) | ⟨c, -, rfl⟩ <;> rfl

/-- The reasons of the findings. -/
theorem exists_reason_entries {nodes : List Node} {violations : List Violation}
    {cycles : List ImportCycle} {p : Reason → Prop} :
    (∃ e ∈ entries g nodes violations cycles, p e.2.reason) ↔
      (p .brokenImport ∧ ∃ n ∈ nodes, n.broken ≠ []) ∨ (∃ v ∈ violations, p v.reason) ∨
        (p .cycle ∧ cycles ≠ []) := by
  simp only [entries, List.mem_append, List.mem_flatMap, List.mem_map]
  constructor
  · rintro ⟨e, (⟨n, hn, b, hb, rfl⟩ | ⟨v, hv, rfl⟩) | ⟨c, hc, rfl⟩, hp⟩
    · exact .inl ⟨hp, n, hn, List.ne_nil_of_mem hb⟩
    · exact .inr (.inl ⟨v, hv, hp⟩)
    · exact .inr (.inr ⟨hp, List.ne_nil_of_mem hc⟩)
  · rintro (⟨hp, n, hn, hb⟩ | ⟨v, hv, hp⟩ | ⟨hp, hc⟩)
    · obtain ⟨b, hb⟩ := List.exists_mem_of_ne_nil _ hb
      exact ⟨brokenEntry g n b, .inl (.inl ⟨n, hn, b, hb, rfl⟩), hp⟩
    · exact ⟨violationEntry g v, .inl (.inr ⟨v, hv, rfl⟩), hp⟩
    · obtain ⟨c, hc⟩ := List.exists_mem_of_ne_nil _ hc
      exact ⟨cycleEntry g c, .inr ⟨c, hc, rfl⟩, hp⟩

/-- A report passes just if no finding has a blocking reason. -/
theorem passed_ofFindings_iff {graph : ModuleGraph} {violations : List Violation}
    {cycles : List ImportCycle} :
    (ofFindings graph violations cycles g).passed = true ↔
      (g.blocks .brokenImport = true → ∀ n ∈ graph.nodes, n.broken = []) ∧
        (∀ v ∈ violations, g.blocks v.reason = false) ∧
          (g.blocks .cycle = true → cycles = []) := by
  have hfail : (ofFindings graph violations cycles g).passed = false ↔
      ∃ e ∈ entries g graph.nodes.toList violations cycles, g.blocks e.2.reason = true := by
    have hkeys := entries_keys g graph.nodes.toList violations cycles
    -- The verdict looks at the records, which have the reasons of the entries.
    rw [passed, ofFindings, verdictOf, decide_eq_false_iff_not]
    simp only [List.any_eq_true, List.mem_mergeSort, ite_eq_right_iff, reduceCtorEq, imp_false,
      not_not]
    constructor
    · rintro ⟨record, hrecord, hblocks⟩
      obtain ⟨e, he, hr⟩ := (exists_reason_merge hkeys).1 ⟨record, hrecord, rfl⟩
      exact ⟨e, he, hr ▸ hblocks⟩
    · rintro ⟨e, he, hblocks⟩
      obtain ⟨record, hrecord, hr⟩ := (exists_reason_merge hkeys).2 ⟨e, he, rfl⟩
      exact ⟨record, hrecord, hr ▸ hblocks⟩
  rw [← Bool.not_eq_false, hfail, exists_reason_entries (p := fun r => g.blocks r = true)]
  constructor
  · intro h
    rw [not_or, not_or] at h
    obtain ⟨hbroken, hviolations, hcycles⟩ := h
    refine ⟨fun hb n hn => ?_, fun v hv => ?_, fun hb => ?_⟩
    · by_contra hne
      exact hbroken ⟨hb, n, Array.mem_toList_iff.2 hn, hne⟩
    · exact Bool.eq_false_iff.2 fun hb => hviolations ⟨v, hv, hb⟩
    · by_contra hne
      exact hcycles ⟨hb, hne⟩
  · rintro ⟨hbroken, hviolations, hcycles⟩ (⟨hb, n, hn, hne⟩ | ⟨v, hv, hb⟩ | ⟨hb, hne⟩)
    · exact hne (hbroken hb n (Array.mem_toList_iff.1 hn))
    · rw [hviolations v hv] at hb
      cases hb
    · exact hne (hcycles hb)

end LayerGate.Report
