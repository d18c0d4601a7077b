import Mathlib.Data.List.Induction
import LayerGate.Proofs.SortedDistinct
import LayerGate.Resolution.Graph

/-!
# The edges of one file

Edges with the same ends and specifier are merged into the one with the lowest line.  What is left is
strictly increasing, and holds an edge just if it is lowest among those of its kind.
-/

namespace LayerGate

/-! ## The orders -/

instance : Std.TransOrd Edge :=
  inferInstanceAs <| Std.TransCmp <| compareLex (compareOn Edge.source) <|
    compareLex (compareOn Edge.target) (compareOn Edge.specifier)

instance : Std.TransOrd BrokenImport :=
  inferInstanceAs <| Std.TransCmp <| compareLex (compareOn BrokenImport.specifier) <|
    compareLex (compareOn BrokenImport.line) (compareOn BrokenImport.candidate)

instance : Std.LawfulEqOrd BrokenImport where
  eq_of_compare {a b} h := by
    change (compare a.specifier b.specifier).then
      ((compare a.line b.line).then (compare a.candidate b.candidate)) = .eq at h
    simp only [Ordering.then_eq_eq, Std.LawfulEqOrd.compare_eq_iff_eq] at h
    obtain ⟨hspecifier, hline, hcandidate⟩ := h
    cases a
    cases b
    simp_all

namespace ModuleGraph

variable {a b e : Edge} {es : List Edge}

theorem compare_edge (a b : Edge) :
    compare a b = (compare a.source b.source).then
      ((compare a.target b.target).then (compare a.specifier b.specifier)) := rfl

theorem sameEdge_iff : sameEdge a b = true ↔ compare a b = .eq := by
  rw [compare_edge]
  simp only [sameEdge, Bool.and_eq_true, decide_eq_true_eq, Ordering.then_eq_eq,
    Std.LawfulEqOrd.compare_eq_iff_eq, and_assoc]

theorem sameEdge_iff_fields : sameEdge a b = true ↔
    a.source = b.source ∧ a.target = b.target ∧ a.specifier = b.specifier := by
  simp only [sameEdge, Bool.and_eq_true, decide_eq_true_eq, and_assoc]

/-- The edge is in the list, and no edge of its kind there has a lower line. -/
def Lowest (es : List Edge) (e : Edge) : Prop :=
  e ∈ es ∧ ∀ e' ∈ es, sameEdge e e' = true → e.line ≤ e'.line

theorem sameEdge_symm (h : sameEdge a b = true) : sameEdge b a = true := by
  rw [sameEdge_iff_fields] at h ⊢
  exact ⟨h.1.symm, h.2.1.symm, h.2.2.symm⟩

theorem sameEdge_trans (hab : sameEdge a b = true) (hbe : sameEdge b e = true) :
    sameEdge a e = true := by
  rw [sameEdge_iff_fields] at hab hbe ⊢
  exact ⟨hab.1.trans hbe.1, hab.2.1.trans hbe.2.1, hab.2.2.trans hbe.2.2⟩

/-- Edges with one line that are one edge are equal. -/
theorem eq_of_sameEdge (h : sameEdge a b = true) (hline : a.line = b.line) : a = b := by
  obtain ⟨hsource, htarget, hspecifier⟩ := sameEdge_iff_fields.1 h
  cases a
  cases b
  simp_all

/-- No two of the edges are one edge. -/
def Apart (es : List Edge) : Prop := es.Pairwise fun a b => ¬ sameEdge a b = true

/-! ## One step -/

/-- A step brings in no edge but the new one. -/
theorem mem_of_mem_addEdge (h : a ∈ addEdge e es) : a = e ∨ a ∈ es := by
  induction es with
  | nil => exact .inl (List.mem_singleton.1 h)
  | cons other rest ih =>
    rw [addEdge] at h
    split at h
    · rcases List.mem_cons.1 h with rfl | h
      · split
        · exact .inl rfl
        · exact .inr (List.mem_cons_self ..)
      · exact .inr (List.mem_cons_of_mem _ h)
    · rcases List.mem_cons.1 h with rfl | h
      · exact .inr (List.mem_cons_self ..)
      · exact (ih h).imp_right (List.mem_cons_of_mem _)

theorem apart_addEdge (h : Apart es) : Apart (addEdge e es) := by
  induction es with
  | nil => exact List.pairwise_singleton ..
  | cons other rest ih =>
    obtain ⟨hother, hrest⟩ := List.pairwise_cons.1 h
    rw [addEdge]
    by_cases hsame : sameEdge other e = true
    · rw [if_pos hsame]
      refine List.pairwise_cons.2 ⟨fun b hb => ?_, hrest⟩
      -- Whichever of the two stays, it is the edge that `other` is.
      split
      · exact fun heb => hother b hb (sameEdge_trans hsame heb)
      · exact hother b hb
    · rw [if_neg hsame]
      refine List.pairwise_cons.2 ⟨fun b hb => ?_, ih hrest⟩
      rcases mem_of_mem_addEdge hb with rfl | hb
      · exact hsame
      · exact hother b hb

/-- Where the first edge is the only one of the kind of the new one, the lower of the two stays. -/
theorem mem_addEdge_of_sameEdge {other : Edge} {rest : List Edge} (hsame : sameEdge other e = true)
    (hapart : ∀ b ∈ rest, ¬ sameEdge b e = true) :
    a ∈ addEdge e (other :: rest) ↔
      (a ∈ other :: rest ∧ (sameEdge a e = true → a.line ≤ e.line)) ∨
        (a = e ∧ ∀ b ∈ other :: rest, sameEdge b e = true → e.line < b.line) := by
  rw [addEdge, if_pos hsame, List.mem_cons]
  by_cases hlt : e.line < other.line
  · rw [if_pos hlt]
    constructor
    · rintro (rfl | ha)
      · refine .inr ⟨rfl, fun b hb hbe => ?_⟩
        rcases List.mem_cons.1 hb with rfl | hb
        · exact hlt
        · exact absurd hbe (hapart b hb)
      · exact .inl ⟨List.mem_cons_of_mem _ ha, fun hae => absurd hae (hapart a ha)⟩
    · rintro (⟨ha, hle⟩ | ⟨rfl, -⟩)
      · rcases List.mem_cons.1 ha with rfl | ha
        · exact absurd hlt (Int.not_lt.2 (hle hsame))
        · exact .inr ha
      · exact .inl rfl
  · rw [if_neg hlt]
    constructor
    · rintro (rfl | ha)
      · exact .inl ⟨List.mem_cons_self .., fun _ => Int.not_lt.1 hlt⟩
      · exact .inl ⟨List.mem_cons_of_mem _ ha, fun hae => absurd hae (hapart a ha)⟩
    · rintro (⟨ha, -⟩ | ⟨-, hall⟩)
      · exact List.mem_cons.1 ha
      · exact absurd (hall other (List.mem_cons_self ..) hsame) hlt

/-- After a step there are the edges that the new one does not undercut, and the new one if it undercuts
all of its kind. -/
theorem mem_addEdge_iff (h : Apart es) :
    a ∈ addEdge e es ↔
      (a ∈ es ∧ (sameEdge a e = true → a.line ≤ e.line)) ∨
        (a = e ∧ ∀ b ∈ es, sameEdge b e = true → e.line < b.line) := by
  induction es with
  | nil => simp [addEdge]
  | cons other rest ih =>
    obtain ⟨hother, hrest⟩ := List.pairwise_cons.1 h
    by_cases hsame : sameEdge other e = true
    · -- No edge of the rest is of the kind of these two.
      exact mem_addEdge_of_sameEdge hsame
        fun b hb hbe => hother b hb (sameEdge_trans hsame (sameEdge_symm hbe))
    · rw [addEdge, if_neg hsame, List.mem_cons, ih hrest]
      constructor
      · rintro (rfl | ⟨ha, hle⟩ | ⟨rfl, hall⟩)
        · exact .inl ⟨List.mem_cons_self .., fun he => absurd he hsame⟩
        · exact .inl ⟨List.mem_cons_of_mem _ ha, hle⟩
        · refine .inr ⟨rfl, fun b hb hbe => ?_⟩
          rcases List.mem_cons.1 hb with rfl | hb
          · exact absurd hbe hsame
          · exact hall b hb hbe
      · rintro (⟨ha, hle⟩ | ⟨rfl, hall⟩)
        · rcases List.mem_cons.1 ha with rfl | ha
          · exact .inl rfl
          · exact .inr (.inl ⟨ha, hle⟩)
        · exact .inr (.inr ⟨rfl, fun b hb => hall b (List.mem_cons_of_mem _ hb)⟩)

/-- The same step on the lowest edges of a list. -/
theorem lowest_concat_iff :
    Lowest (es ++ [e]) a ↔
      (Lowest es a ∧ (sameEdge a e = true → a.line ≤ e.line)) ∨
        (a = e ∧ ∀ b ∈ es, sameEdge b e = true → e.line < b.line) := by
  constructor
  · rintro ⟨hmem, hleast⟩
    have hes : ∀ b ∈ es, sameEdge a b = true → a.line ≤ b.line :=
      fun b hb => hleast b (List.mem_append_left _ hb)
    have he : sameEdge a e = true → a.line ≤ e.line :=
      hleast e (List.mem_append_right _ (List.mem_singleton_self e))
    by_cases ha : a ∈ es
    · exact .inl ⟨⟨ha, hes⟩, he⟩
    · -- The new edge is as low as the others of its kind, and none of these equals it.
      obtain rfl : a = e := by
        rcases List.mem_append.1 hmem with hmem | hmem
        · exact absurd hmem ha
        · exact List.mem_singleton.1 hmem
      refine .inr ⟨rfl, fun b hb hba => ?_⟩
      have hab := sameEdge_symm hba
      rcases Int.lt_or_eq_of_le (hes b hb hab) with hlt | hline
      · exact hlt
      · exact absurd (eq_of_sameEdge hab hline ▸ hb) ha
  · rintro (⟨⟨ha, hes⟩, he⟩ | ⟨rfl, hall⟩)
    · refine ⟨List.mem_append_left _ ha, fun b hb hab => ?_⟩
      rcases List.mem_append.1 hb with hb | hb
      · exact hes b hb hab
      · obtain rfl := List.mem_singleton.1 hb
        exact he hab
    · refine ⟨List.mem_append_right _ (List.mem_singleton_self a), fun b hb hab => ?_⟩
      rcases List.mem_append.1 hb with hb | hb
      · exact Int.le_of_lt (hall b hb (sameEdge_symm hab))
      · obtain rfl := List.mem_singleton.1 hb
        exact Int.le_refl _

/-! ## All edges -/

/-- What the edges are merged to, one of each kind. -/
def mergedEdges (es : List Edge) : List Edge := es.foldl (fun done e => addEdge e done) []

theorem mergedEdges_concat (es : List Edge) (e : Edge) :
    mergedEdges (es ++ [e]) = addEdge e (mergedEdges es) := by
  rw [mergedEdges, List.foldl_append]
  rfl

theorem apart_mergedEdges (es : List Edge) : Apart (mergedEdges es) := by
  induction es using List.reverseRecOn with
  | nil => exact List.Pairwise.nil
  | append_singleton es e ih =>
    rw [mergedEdges_concat]
    exact apart_addEdge ih

/-- Some edge of each kind is lowest. -/
theorem exists_lowest (h : e ∈ es) : ∃ a, Lowest es a ∧ sameEdge a e = true := by
  induction es using List.reverseRecOn generalizing e with
  | nil => cases h
  | append_singleton es last ih =>
    have hself : ∀ e, sameEdge e e = true := fun _ => sameEdge_iff_fields.2 ⟨rfl, rfl, rfl⟩
    -- The last edge is the lowest of its kind, or what was lowest stays so.
    by_cases hlast : ∀ b ∈ es, sameEdge b last = true → last.line < b.line
    · have hlowest : Lowest (es ++ [last]) last := lowest_concat_iff.2 (.inr ⟨rfl, hlast⟩)
      by_cases hkind : sameEdge last e = true
      · exact ⟨last, hlowest, hkind⟩
      · rcases List.mem_append.1 h with he | he
        · obtain ⟨a, ha, hae⟩ := ih he
          refine ⟨a, lowest_concat_iff.2 (.inl ⟨ha, fun hal => ?_⟩), hae⟩
          exact absurd (sameEdge_trans (sameEdge_symm hal) hae) hkind
        · exact absurd (List.mem_singleton.1 he ▸ hself last) hkind
    · simp only [not_forall] at hlast
      obtain ⟨b, hb, hbl, hle⟩ := hlast
      -- The kind of the last edge has a lowest one before it.
      have hbefore : ∃ e' ∈ es, sameEdge e' e = true := by
        rcases List.mem_append.1 h with he | he
        · exact ⟨e, he, hself e⟩
        · exact ⟨b, hb, List.mem_singleton.1 he ▸ hbl⟩
      obtain ⟨e', he', hkind⟩ := hbefore
      obtain ⟨a, ha, hae⟩ := ih he'
      refine ⟨a, lowest_concat_iff.2 (.inl ⟨ha, fun hal => ?_⟩), sameEdge_trans hae hkind⟩
      have hab := ha.2 b hb (sameEdge_trans hal (sameEdge_symm hbl))
      exact Int.le_trans hab (Int.not_lt.1 hle)

/-- The edge that is kept of each kind is the lowest. -/
theorem mem_mergedEdges_iff : e ∈ mergedEdges es ↔ Lowest es e := by
  -- By the last edge: merging and being lowest make the same step.
  induction es using List.reverseRecOn generalizing e with
  | nil => simp [mergedEdges, Lowest]
  | append_singleton es last ih =>
    rw [mergedEdges_concat, mem_addEdge_iff (apart_mergedEdges es), lowest_concat_iff, ih]
    -- To undercut all edges of a kind it is enough to undercut the lowest one.
    have hleast : (∀ b ∈ mergedEdges es, sameEdge b last = true → last.line < b.line) ↔
        ∀ b ∈ es, sameEdge b last = true → last.line < b.line := by
      constructor
      · intro h b hb hkind
        obtain ⟨a, ha, hab⟩ := exists_lowest hb
        have hlt := h a (ih.2 ha) (sameEdge_trans hab hkind)
        exact Int.lt_of_lt_of_le hlt (ha.2 b hb hab)
      · intro h b hb
        exact h b (ih.1 hb).1
    rw [hleast]

/-! ## The edges of one file -/

variable {files : List String} {source : Nat} {path : String} {rs : List Resolution}

theorem strictlySorted_mergeSort (h : Apart es) :
    StrictlySorted (es.mergeSort fun a b => (compare a b).isLE) := by
  have hapart : Apart (es.mergeSort fun a b => (compare a b).isLE) :=
    h.perm (List.mergeSort_perm es _).symm fun hab hba => hab (sameEdge_symm hba)
  refine ((pairwise_mergeSort_isLE es).and hapart).imp fun {a b} hab => ?_
  rcases Ordering.isLE_iff_eq_lt_or_eq_eq.1 hab.1 with hlt | heq
  · exact hlt
  · exact absurd (sameEdge_iff.2 heq) hab.2

theorem strictlySorted_edgesOf : StrictlySorted (edgesOf files source path rs) :=
  strictlySorted_mergeSort (apart_mergedEdges _)

theorem mem_edgesOf_iff :
    e ∈ edgesOf files source path rs ↔ Lowest (rs.filterMap (edgeOf? files source path)) e := by
  rw [edgesOf, List.mem_mergeSort]
  exact mem_mergedEdges_iff

/-- Neither the order of the resolutions of a file nor their repetition matters to its edges. -/
theorem edgesOf_congr {rs' : List Resolution} (h : ∀ r, r ∈ rs ↔ r ∈ rs') :
    edgesOf files source path rs = edgesOf files source path rs' := by
  apply strictlySorted_edgesOf.eq_of_mem_iff strictlySorted_edgesOf
  intro e
  have hedges : ∀ e, e ∈ rs.filterMap (edgeOf? files source path) ↔
      e ∈ rs'.filterMap (edgeOf? files source path) := by
    intro e
    simp only [List.mem_filterMap, h]
  simp only [mem_edgesOf_iff, Lowest, hedges]

theorem edgeOf?_eq_some_iff {r : Resolution} :
    edgeOf? files source path r = some e ↔
      ∃ file target, r.outcome = .internal file ∧ file ≠ path ∧ files.idxOf? file = some target ∧
        e = ⟨source, target, r.specifier, r.line⟩ := by
  unfold edgeOf?
  split
  · rename_i file hfile
    by_cases hpath : file = path
    · simp [hfile, hpath]
    · rw [if_neg hpath, Option.map_eq_some_iff]
      constructor
      · rintro ⟨target, hindex, rfl⟩
        exact ⟨file, target, hfile, hpath, hindex, rfl⟩
      · rintro ⟨file', target, hfile', -, hindex, rfl⟩
        obtain rfl := Outcome.internal.inj (hfile.symm.trans hfile')
        exact ⟨target, hindex, rfl⟩
  · rename_i hother
    constructor
    · intro h
      cases h
    · rintro ⟨file, -, hfile, -⟩
      exact absurd hfile (hother file)

end ModuleGraph

end LayerGate
