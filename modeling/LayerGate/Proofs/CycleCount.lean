import LayerGate.Proofs.Decomposition
import LayerGate.Proofs.Rings
import LayerGate.Proofs.SortedDistinct

/-!
# How many cycles are found

A graph can have far more cycles than vertices.  But each search is for a vertex that no cycle covers
so far, and without loops the first cycle of a component covers a second vertex with it.  So fewer
cycles are found in a component than it has vertices, and at least one if it has more than one.
-/

namespace LayerGate.Digraph

variable {g : Digraph} {component covered vs : List Nat} {v : Nat} {cycles larges : List (List Nat)}

/-- The components of two vertices or more. -/
def largeComponents (g : Digraph) : List (List Nat) :=
  g.components.filter fun component => 2 ≤ component.length

/-! ## One component -/

theorem hasCycle_of_large (h : 2 ≤ component.length) : g.hasCycle component = true := by
  match component, h with
  | _ :: _ :: _, _ => rfl

/-- Without loops one vertex alone is no cycle. -/
theorem hasCycle_eq_large (hloops : ∀ v, ¬ g.Step v v) (hne : component ≠ []) :
    g.hasCycle component = decide (2 ≤ component.length) := by
  match component, hne with
  | [v], _ => exact Bool.eq_false_iff.2 fun h => hloops v (List.contains_iff_mem.1 h)
  | _ :: _ :: rest, _ => exact (decide_eq_true (Nat.le_add_left 2 rest.length)).symm

/-- There is a cycle for each vertex that was not covered before, or fewer. -/
theorem length_cover_le (h : g.cover component vs covered = .ok cycles) :
    cycles.length ≤ vs.countP fun v => v ∉ covered := by
  -- On the vertices that are left; what a cycle covers only lowers the count.
  induction vs generalizing covered cycles with
  | nil =>
    obtain rfl := Except.ok.inj h
    exact Nat.zero_le _
  | cons v vs ih =>
    rcases cover_cons_cases h with ⟨hv, h⟩ | ⟨hv, cycle, others, -, hothers, rfl⟩
    · rw [List.countP_cons_of_neg (by simpa using hv)]
      exact ih h
    · have hmono : (vs.countP fun w => w ∉ cycle ++ covered) ≤ vs.countP fun w => w ∉ covered := by
        refine List.countP_mono_left fun w _ hw => ?_
        exact decide_eq_true fun hin => of_decide_eq_true hw (List.mem_append_right cycle hin)
      rw [List.countP_cons_of_pos (by simpa using hv), List.length_cons]
      exact Nat.succ_le_succ ((ih hothers).trans hmono)

/-- Without loops the first cycle covers two vertices, so there are fewer cycles than vertices. -/
theorem IsComponent.length_cover_lt (h : IsComponent g component) (hclosed : g.Closed)
    (hloops : ∀ v, ¬ g.Step v v) (hhas : g.hasCycle component = true)
    (hcover : g.cover component component [] = .ok cycles) : cycles.length < component.length := by
  obtain ⟨v, vs, hcomponent⟩ := List.exists_cons_of_ne_nil h.nonempty
  have hv : v ∈ component := hcomponent ▸ List.mem_cons_self ..
  have hstart : g.cover component (v :: vs) [] = .ok cycles := hcomponent ▸ hcover
  rcases cover_cons_cases hstart with ⟨hnil, -⟩ | ⟨-, cycle, others, hcycle, hothers, rfl⟩
  · cases hnil
  -- The successor of `v` on the first cycle is another vertex, which is left out later.
  obtain ⟨hring, -⟩ := h.isShortestRing hclosed hhas hv hcycle
  obtain ⟨w, hw, hstep⟩ := hring.isRing.exists_step hring.mem
  have hwc : w ∈ component := h.mem_of_isRing hv hring.isRing hring.mem hw
  have hwvs : w ∈ vs := by
    rw [hcomponent] at hwc
    exact (List.mem_cons.1 hwc).resolve_left fun heq => hloops v (heq ▸ hstep)
  have hlt : (vs.countP fun u => u ∉ cycle ++ []) < vs.length := by
    refine lt_of_le_of_ne List.countP_le_length fun heq => ?_
    exact of_decide_eq_true (List.countP_eq_length.1 heq w hwvs) (List.mem_append_left [] hw)
  rw [hcomponent, List.length_cons, List.length_cons]
  exact Nat.succ_lt_succ ((length_cover_le hothers).trans_lt hlt)

/-! ## All components -/

theorem nodup_flatten_components (hclosed : g.Closed) : g.components.flatten.Nodup :=
  (List.Perm.flatten (List.reverse_perm g.components)).nodup_iff.1 (components_condensed hclosed).1.nodup

/-- Components that are not empty differ when they have no vertex in common. -/
theorem nodup_components (hclosed : g.Closed) : g.components.Nodup := by
  refine (List.nodup_flatten.1 (nodup_flatten_components hclosed)).2.imp_of_mem ?_
  intro c d hc _ hdisjoint heq
  obtain ⟨v, hv⟩ := List.exists_mem_of_ne_nil c (component_of_mem hclosed hc).nonempty
  exact hdisjoint hv (heq ▸ hv)

/-- One less in each component, added up. -/
theorem length_flatten_add_le {found : List (List (List Nat))}
    (h : List.Forall₂ (fun component rings => rings.length < component.length) larges found) :
    found.flatten.length + larges.length ≤ larges.flatten.length := by
  induction h with
  | nil => exact Nat.le_refl _
  | cons hlt _ ih =>
    simp only [List.flatten_cons, List.length_append, List.length_cons]
    omega

theorem filter_hasCycle (hclosed : g.Closed) (hloops : ∀ v, ¬ g.Step v v) :
    g.components.filter g.hasCycle = g.largeComponents :=
  List.filter_congr fun _ hc => hasCycle_eq_large hloops (component_of_mem hclosed hc).nonempty

theorem length_findCycles_le (hclosed : g.Closed) (hloops : ∀ v, ¬ g.Step v v)
    (h : g.findCycles = .ok cycles) :
    cycles.length + g.largeComponents.length ≤ g.largeComponents.flatten.length := by
  rw [findCycles, filter_hasCycle hclosed hloops] at h
  split at h
  · cases h
  · obtain ⟨found, hfound, hcycles⟩ := bind_eq_ok_iff.1 h
    obtain rfl := Except.ok.inj hcycles
    -- Sorting may merge cycles but adds none.
    have hdistinct : (sortedDistinct found.flatten).length ≤ found.flatten.length :=
      ((strictlySorted_sortedDistinct found.flatten).nodup.subperm
        fun _ hring => mem_sortedDistinct.1 hring).length_le
    have hall : List.Forall₂ (fun component rings => rings.length < component.length)
        g.largeComponents found := by
      refine List.Forall₂.imp (fun component rings hsearch => ?_)
        ((List.forall₂_and_left _ _).2 ⟨fun _ hc => hc, mapM_eq_ok_iff.1 hfound⟩)
      obtain ⟨hlarge, hcover⟩ := hsearch
      rw [← filter_hasCycle hclosed hloops] at hlarge
      obtain ⟨hcomponent, hhas⟩ := List.mem_filter.1 hlarge
      exact (component_of_mem hclosed hcomponent).length_cover_lt hclosed hloops hhas hcover
    exact (Nat.add_le_add_right hdistinct _).trans (length_flatten_add_le hall)

/-- A ring goes through one component only. -/
theorem component_unique (hclosed : g.Closed) {c d ring : List Nat} (hc : c ∈ g.components)
    (hd : d ∈ g.components) (hring : g.IsRing ring) (hmeets : ∃ v ∈ ring, v ∈ c)
    (hmeets' : ∃ v ∈ ring, v ∈ d) : c = d := by
  obtain ⟨v, hv, hvc⟩ := hmeets
  obtain ⟨w, hw, hwd⟩ := hmeets'
  have hvd := (component_of_mem hclosed hd).mem_of_isRing hwd hring hw hv
  obtain ⟨i, hi⟩ := List.mem_iff_getElem?.1 hc
  obtain ⟨j, hj⟩ := List.mem_iff_getElem?.1 hd
  obtain rfl := index_eq_of_mem (nodup_flatten_components hclosed) hi hj hvc hvd
  exact Option.some.inj (hi.symm.trans hj)

/-- Each large component has a cycle of its own. -/
theorem length_largeComponents_le (hclosed : g.Closed) (h : g.findCycles = .ok cycles) :
    g.largeComponents.length ≤ cycles.length := by
  have hfound : ∀ c ∈ g.largeComponents, ∃ ring ∈ cycles, ∃ v ∈ ring, v ∈ c := by
    intro c hc
    obtain ⟨hcomponent, hlarge⟩ := List.mem_filter.1 hc
    have his := component_of_mem hclosed hcomponent
    obtain ⟨v, hv⟩ := List.exists_mem_of_ne_nil c his.nonempty
    have hhas : g.hasCycle c = true := hasCycle_of_large (of_decide_eq_true hlarge)
    obtain ⟨ring, hring, hin⟩ := exists_found_of_onCycle hclosed h ((his.hasCycle_iff hv).1 hhas)
    exact ⟨ring, hring, v, hin, hv⟩
  choose! ring hring hmeets using hfound
  have hinj : ∀ c ∈ g.largeComponents, ∀ d ∈ g.largeComponents, ring c = ring d → c = d :=
    fun c hc d hd heq => component_unique hclosed (List.mem_filter.1 hc).1 (List.mem_filter.1 hd).1
      (isRing_of_findCycles hclosed h _ (hring c hc)) (hmeets c hc) (heq ▸ hmeets d hd)
  have hnodup : (g.largeComponents.map ring).Nodup :=
    ((nodup_components hclosed).filter _).map_on hinj
  have hsub : g.largeComponents.map ring ⊆ cycles := by
    intro r hr
    obtain ⟨c, hc, rfl⟩ := List.mem_map.1 hr
    exact hring c hc
  simpa using (hnodup.subperm hsub).length_le

/-- In a graph without loops whose successors are vertices the search for cycles does not fail.  It finds
a cycle for each component of two vertices or more, and at most one less for each than it has
vertices. -/
theorem length_findCycles_bounds (hclosed : g.Closed) (hloops : ∀ v, ¬ g.Step v v) :
    ∃ cycles, g.findCycles = .ok cycles ∧ g.largeComponents.length ≤ cycles.length ∧
      cycles.length + g.largeComponents.length ≤ g.largeComponents.flatten.length := by
  obtain ⟨cycles, hfound⟩ := exists_findCycles hclosed
  exact ⟨cycles, hfound, length_largeComponents_le hclosed hfound,
    length_findCycles_le hclosed hloops hfound⟩

/-- Three vertices that all lead to each other, two more that do, and one that leads to both parts. -/
def twoKnots : Digraph := .ofLists [[1, 2], [0, 2], [0, 1], [4], [3], [0, 3]]

theorem length_findCycles_bounds_twoKnots :
    twoKnots.Closed ∧ (∀ v, ¬ twoKnots.Step v v) ∧ ∃ cycles, twoKnots.findCycles = .ok cycles ∧
      twoKnots.largeComponents = [[0, 1, 2], [3, 4]] ∧ 2 ≤ cycles.length ∧ cycles.length + 2 ≤ 5 := by
  have hclosed : twoKnots.Closed := by decide +kernel
  have hloops : ∀ v, ¬ twoKnots.Step v v := by
    have hall : ∀ u < 6, ¬ twoKnots.Step u u := by decide
    exact fun v hstep => hall v hstep.source_lt hstep
  have hlarge : twoKnots.largeComponents = [[0, 1, 2], [3, 4]] := by cbv
  obtain ⟨cycles, hfound, hle, hge⟩ := length_findCycles_bounds hclosed hloops
  rw [hlarge] at hle hge
  exact ⟨hclosed, hloops, cycles, hfound, hlarge, hle, hge⟩

/-- No bound is left to spare: in the larger knot two cycles are found, in the smaller one. -/
example : twoKnots.findCycles = .ok [[0, 1], [0, 2], [3, 4]] := by cbv

end LayerGate.Digraph
