import LayerGate.Proofs.RecordOrder
import LayerGate.Proofs.StableSorting

/-!
# The records of violations

No other finding has the reasons of violations, so these are merged and sorted apart from everything
else.  Where paths are distinct, neither their order nor their repetition shows in the records,
whatever the other findings are, and to leave out all violations between some files is to leave out
the records of those.
-/

namespace LayerGate

/-- Findings with this reason are broken layer rules. -/
def Reason.breaksRule : Reason → Bool
  | .layerBoundary | .unclassifiedModule => true
  | .brokenImport | .cycle => false

variable {graph : ModuleGraph} {layers : Layers} {gate : Gate}
  {found violations fed part : List Violation} {cycles : List ImportCycle} {nodes : List Node}

theorem Policy.breaksRule_of_mem {v : Violation} (hfound : violations? layers graph = some found)
    (hv : v ∈ found) : v.reason.breaksRule = true := by
  rcases reason_of_mem (inRange_of_violations? hfound) hfound hv with hr | hr
  · rw [hr]
    rfl
  · rw [hr]
    rfl

namespace Report

variable {a r r' : Record}

/-! ## Apart from everything else -/

/-- Leaving out keys of violations leaves out these violations. -/
theorem filter_entries {q : Key → Bool} (hq : ∀ k : Key, k.reason.breaksRule = false → q k = true) :
    (entries gate nodes violations cycles).filter (fun e => q e.1) =
      entries gate nodes (violations.filter fun v => q (violationEntry gate v).1) cycles := by
  have hbroken : (nodes.flatMap fun n => n.broken.map (brokenEntry gate n)).filter (fun e => q e.1) =
      nodes.flatMap fun n => n.broken.map (brokenEntry gate n) := by
    rw [List.filter_eq_self]
    intro e he
    simp only [List.mem_flatMap, List.mem_map] at he
    obtain ⟨n, -, b, -, rfl⟩ := he
    exact hq _ rfl
  have hcycle : (cycles.map (cycleEntry gate)).filter (fun e => q e.1) =
      cycles.map (cycleEntry gate) := by
    rw [List.filter_eq_self]
    intro e he
    obtain ⟨c, -, rfl⟩ := List.mem_map.1 he
    exact hq _ rfl
  rw [entries, List.filter_append, List.filter_append, hbroken, hcycle, List.filter_map]
  rfl

/-- The entries of violations are those with the reason of one. -/
theorem filter_entries_breaksRule (h : ∀ v ∈ violations, v.reason.breaksRule = true) :
    (entries gate nodes violations cycles).filter (fun e => e.1.reason.breaksRule) =
      violations.map (violationEntry gate) := by
  have hbroken : (nodes.flatMap fun n => n.broken.map (brokenEntry gate n)).filter
      (fun e => e.1.reason.breaksRule) = [] := by
    rw [List.filter_eq_nil_iff]
    intro e he
    simp only [List.mem_flatMap, List.mem_map] at he
    obtain ⟨n, -, b, -, rfl⟩ := he
    exact Bool.false_ne_true
  have hcycle : (cycles.map (cycleEntry gate)).filter (fun e => e.1.reason.breaksRule) = [] := by
    rw [List.filter_eq_nil_iff]
    intro e he
    obtain ⟨c, -, rfl⟩ := List.mem_map.1 he
    exact Bool.false_ne_true
  have hviolation : (violations.map (violationEntry gate)).filter
      (fun e => e.1.reason.breaksRule) = violations.map (violationEntry gate) := by
    rw [List.filter_eq_self]
    intro e he
    obtain ⟨v, hv, rfl⟩ := List.mem_map.1 he
    exact h v hv
  rw [entries, List.filter_append, List.filter_append, hbroken, hcycle, hviolation, List.nil_append,
    List.append_nil]

section

variable (hgate : gate.orderIsComplete = true)
include hgate

theorem ties_merge_of_breaksRule (ha : a.reason.breaksRule = true)
    (h : ∀ v ∈ violations, v.reason.breaksRule = true) :
    ties (order gate) a (merge (entries gate nodes violations cycles)) =
      ties (order gate) a (merge (violations.map (violationEntry gate))) := by
  have hkeys := entries_keys gate nodes violations cycles
  have hentries : (entries gate nodes violations cycles).filter (fun e => e.1.reason.breaksRule) =
      violations.map (violationEntry gate) := filter_entries_breaksRule h
  rw [← hentries, ← filter_merge (p := fun r => r.reason.breaksRule)
    (q := fun k => k.reason.breaksRule)
      fun e he => congrArg Reason.breaksRule (hkeys e he).symm]
  refine (ties_filter fun b hb => ?_).symm
  rw [← ((order_eq_iff hgate).1 hb).1]
  exact ha

theorem ties_merge_of_not_breaksRule (ha : a.reason.breaksRule = false)
    (h : ∀ v ∈ violations, v.reason.breaksRule = true) :
    ties (order gate) a (merge (entries gate nodes violations cycles)) =
      ties (order gate) a (merge (entries gate nodes [] cycles)) := by
  have hkeys := entries_keys gate nodes violations cycles
  have hnone : violations.filter (fun v => !(violationEntry gate v).1.reason.breaksRule) = [] := by
    rw [List.filter_eq_nil_iff]
    intro v hv
    show ¬ (!v.reason.breaksRule) = true
    rw [h v hv]
    exact Bool.false_ne_true
  have hentries : (entries gate nodes violations cycles).filter (fun e => !e.1.reason.breaksRule) =
      entries gate nodes [] cycles := by
    rw [filter_entries (q := fun k => !k.reason.breaksRule) fun k hk => by rw [hk]; rfl, hnone]
  rw [← hentries, ← filter_merge (p := fun r => !r.reason.breaksRule)
    (q := fun k => !k.reason.breaksRule)
      fun e he => congrArg (fun r => !Reason.breaksRule r) (hkeys e he).symm]
  refine (ties_filter fun b hb => ?_).symm
  rw [← ((order_eq_iff hgate).1 hb).1, ha]
  rfl

end

/-! ## Violations alone -/

/-- No record of a violation stands there twice, for its key can be read off it. -/
theorem nodup_merge_violations :
    (merge (violations.map (violationEntry gate))).Nodup := by
  have hkeys := nodup_keys_merged (violations.map (violationEntry gate))
  have hmap : (merged (violations.map (violationEntry gate))).map (·.1) =
      (merge (violations.map (violationEntry gate))).map
        fun r => ⟨r.reason, r.sourcePath, r.targetPath⟩ := by
    rw [merge_eq_map, List.map_map]
    apply List.map_congr_left
    intro e he
    obtain ⟨v, -, rfl⟩ := List.mem_map.1 (mem_merged_iff.1 he).mem
    rfl
  rw [hmap] at hkeys
  exact hkeys.of_map _

section

variable (hpaths : graph.paths.Nodup) (hfound : Policy.violations? layers graph = some found)
  (hsub : ∀ v ∈ violations, v ∈ found)
include hpaths hfound hsub

/-- The records are those of the foremost violations. -/
theorem mem_merge_violations_iff :
    r ∈ merge (violations.map (violationEntry gate)) ↔
      ∃ v, Foremost violations v ∧ (violationEntry gate v).2 = r := by
  rw [merge_eq_map, List.mem_map]
  constructor
  · rintro ⟨e, he, rfl⟩
    have hkept := mem_merged_iff.1 he
    obtain ⟨v, hv, rfl⟩ := List.mem_map.1 hkept.mem
    refine ⟨v, ⟨hv, fun w hw hreason hsource htarget => ?_⟩, rfl⟩
    have hkey : (violationEntry gate w).1 = (violationEntry gate v).1 := by
      simp only [violationEntry, hreason, hsource, htarget]
    exact hkept.least (List.mem_map_of_mem hw) hkey
  · rintro ⟨v, hv, rfl⟩
    have hmem : violationEntry gate v ∈ violations.map (violationEntry gate) :=
      List.mem_map_of_mem hv.1
    obtain ⟨e, hkept, hkey⟩ := exists_kept hmem
    obtain ⟨w, hw, rfl⟩ := List.mem_map.1 hkept.mem
    -- What is kept for the key of the foremost violation is that violation.
    have hle : w.specifier.getD "" ≤ v.specifier.getD "" := hkept.least hmem hkey.symm
    obtain rfl := hv.eq_of_le hpaths hfound hsub hw (congrArg Key.reason hkey)
      (congrArg Key.source hkey) (congrArg Key.last hkey) hle
    exact ⟨_, mem_merged_iff.2 hkept, rfl⟩

/-- No two records of violations compare equal. -/
theorem eq_of_order_eq_of_violations (hgate : gate.orderIsComplete = true)
    (hr : r ∈ merge (violations.map (violationEntry gate)))
    (hr' : r' ∈ merge (violations.map (violationEntry gate))) (h : order gate r r' = .eq) :
    r = r' := by
  rw [mem_merge_violations_iff hpaths hfound hsub] at hr hr'
  obtain ⟨v, hv, rfl⟩ := hr
  obtain ⟨w, hw, rfl⟩ := hr'
  obtain ⟨hreason, hsource, htext, hspecifier, -⟩ := (order_eq_iff hgate).1 h
  have htarget : v.targetPath = w.targetPath :=
    Policy.target_eq_of_text hfound (hsub v hv.1) (hsub w hw.1) hreason htext
  rw [Policy.eq_of_place hpaths hfound (hsub v hv.1) (hsub w hw.1) hsource htarget hspecifier]

/-- Records of the same violations tie alike, as at most one of them ties with anything. -/
theorem ties_merge_violations_congr (hgate : gate.orderIsComplete = true)
    (hfed : ∀ v, v ∈ fed ↔ v ∈ violations) (a : Record) :
    ties (order gate) a (merge (fed.map (violationEntry gate))) =
      ties (order gate) a (merge (violations.map (violationEntry gate))) := by
  have hsub' : ∀ v ∈ fed, v ∈ found := fun v hv => hsub v ((hfed v).1 hv)
  have hmem : ∀ r, r ∈ merge (fed.map (violationEntry gate)) ↔
      r ∈ merge (violations.map (violationEntry gate)) := by
    intro r
    rw [mem_merge_violations_iff hpaths hfound hsub', mem_merge_violations_iff hpaths hfound hsub]
    simp only [foremost_congr hfed]
  have hnodup : ∀ vs : List Violation,
      (ties (order gate) a (merge (vs.map (violationEntry gate)))).Nodup :=
    fun vs => nodup_merge_violations.filter _
  have hperm : (ties (order gate) a (merge (fed.map (violationEntry gate)))).Perm
      (ties (order gate) a (merge (violations.map (violationEntry gate)))) := by
    refine (List.perm_ext_iff_of_nodup (hnodup fed) (hnodup violations)).2 fun r => ?_
    rw [mem_ties_iff, mem_ties_iff, hmem]
  have hpairwise : ∀ rs : List Record, rs.Pairwise fun _ _ => True :=
    fun rs => List.pairwise_of_forall fun _ _ => trivial
  refine hperm.eq_of_pairwise ?_ (hpairwise _) (hpairwise _)
  intro r r' hr hr' _ _
  rw [mem_ties_iff] at hr hr'
  refine eq_of_order_eq_of_violations hpaths hfound hsub hgate ((hmem r).1 hr.1) hr'.1 ?_
  exact Std.TransCmp.eq_trans (Std.OrientedCmp.eq_symm hr.2) hr'.2

/-- The records depend on which violations there are, and on neither their order nor their
repetition. -/
theorem records_of_same_violations (hgate : gate.orderIsComplete = true)
    (hfed : ∀ v, v ∈ fed ↔ v ∈ violations) (cycles : List ImportCycle) :
    (ofFindings graph fed cycles gate).records =
      (ofFindings graph violations cycles gate).records := by
  have hrules : ∀ v ∈ violations, v.reason.breaksRule = true :=
    fun v hv => Policy.breaksRule_of_mem hfound (hsub v hv)
  have hrules' : ∀ v ∈ fed, v.reason.breaksRule = true := fun v hv => hrules v ((hfed v).1 hv)
  rw [records_ofFindings, records_ofFindings]
  refine mergeSort_eq_of_ties_eq fun a => ?_
  cases ha : a.reason.breaksRule with
  | true =>
    rw [ties_merge_of_breaksRule hgate ha hrules, ties_merge_of_breaksRule hgate ha hrules']
    exact ties_merge_violations_congr hpaths hfound hsub hgate hfed a
  | false =>
    rw [ties_merge_of_not_breaksRule hgate ha hrules, ties_merge_of_not_breaksRule hgate ha hrules']

/-! ## Some of the violations -/

omit hpaths hfound hsub in
/-- What a part of the violations makes, for which the keys tell whether a violation is in it, is what
they leave of the records. -/
theorem records_filter {q : Key → Bool} (hq : ∀ k : Key, k.reason.breaksRule = false → q k = true) :
    (ofFindings graph (violations.filter fun v => q (violationEntry gate v).1) cycles gate).records =
      (ofFindings graph violations cycles gate).records.filter
        fun r => q ⟨r.reason, r.sourcePath, r.targetPath⟩ := by
  rw [records_ofFindings, records_ofFindings, filter_mergeSort, ← filter_entries hq, filter_merge]
  intro e he
  rcases mem_entries_iff.1 he with ⟨n, -, b, -, rfl⟩ | ⟨v, -, rfl⟩ | ⟨c, -, rfl⟩
  · exact (hq _ rfl).trans (hq _ rfl).symm
  · rfl
  · exact (hq _ rfl).trans (hq _ rfl).symm

/-- With each violation all between the same files for the same reason. -/
structure WholePart (part violations : List Violation) : Prop where
  sub : ∀ v ∈ part, v ∈ violations
  whole : ∀ v ∈ part, ∀ w ∈ violations, w.reason = v.reason → w.sourcePath = v.sourcePath →
    w.targetPath = v.targetPath → w ∈ part

/-- The records of such a part stand among those of all violations, in the same order. -/
theorem records_sublist_of_wholePart (hgate : gate.orderIsComplete = true)
    (h : WholePart part violations) (cycles : List ImportCycle) :
    (ofFindings graph part cycles gate).records.Sublist
      (ofFindings graph violations cycles gate).records := by
  -- A violation is in the part if its key is that of one.
  let q : Key → Bool := fun k =>
    !k.reason.breaksRule || part.any fun v => (violationEntry gate v).1 = k
  have hq : ∀ k : Key, k.reason.breaksRule = false → q k = true := by
    intro k hk
    simp only [q, hk]
    rfl
  have hfed : ∀ v, v ∈ part ↔ v ∈ violations.filter fun v => q (violationEntry gate v).1 := by
    intro v
    rw [List.mem_filter]
    constructor
    · intro hv
      refine ⟨h.sub v hv, Bool.or_eq_true_iff.2 (.inr (List.any_eq_true.2 ⟨v, hv, ?_⟩))⟩
      exact decide_eq_true rfl
    · rintro ⟨hv, hkey⟩
      rcases Bool.or_eq_true_iff.1 hkey with hother | hany
      · have hrule := Policy.breaksRule_of_mem hfound (hsub v hv)
        rw [show (violationEntry gate v).1.reason = v.reason from rfl, hrule] at hother
        cases hother
      · obtain ⟨w, hw, hsame⟩ := List.any_eq_true.1 hany
        have hkeys : (violationEntry gate w).1 = (violationEntry gate v).1 := of_decide_eq_true hsame
        exact h.whole w hw v hv (congrArg Key.reason hkeys.symm) (congrArg Key.source hkeys.symm)
          (congrArg Key.last hkeys.symm)
  have hsub' : ∀ v ∈ violations.filter fun v => q (violationEntry gate v).1, v ∈ found :=
    fun v hv => hsub v (List.mem_filter.1 hv).1
  rw [records_of_same_violations hpaths hfound hsub' hgate hfed cycles, records_filter hq]
  exact List.filter_sublist

end

end Report

end LayerGate
