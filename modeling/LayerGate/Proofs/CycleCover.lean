import Mathlib.Data.List.Rotate
import LayerGate.Graph.Cycles
import LayerGate.Proofs.BreadthFirst
import LayerGate.Proofs.ComponentSearch

/-!
# Cycles cover what lies on a cycle

A vertex on a cycle can be left and come back to inside of its component, so the search for a cycle
through it succeeds; and whatever a cycle that was found passes through is on a cycle.
-/

namespace LayerGate.Digraph

variable {g : Digraph} {component cycle covered vs : List Nat} {u v w : Nat}

/-! ## One component -/

/-- The vertices that reach each other, for some vertex. -/
structure IsComponent (g : Digraph) (component : List Nat) : Prop where
  nonempty : component ≠ []
  nodup : component.Nodup
  whole : ∀ v ∈ component, ∀ w, w ∈ component ↔ g.Together v w

theorem Condensed.isComponent {found : List (List Nat)} (h : Condensed g found)
    (hc : component ∈ found) : IsComponent g component where
  nonempty := h.nonempty component hc
  nodup := h.nodup.sublist (List.sublist_flatten_of_mem hc)
  whole := h.whole component hc

namespace IsComponent

/-- A component holds a cycle if and only if its vertices are on cycles. -/
theorem hasCycle_iff (h : IsComponent g component) (hv : v ∈ component) :
    g.hasCycle component = true ↔ g.OnCycle v := by
  match component, h with
  | [], h => exact absurd rfl h.nonempty
  | [u], h =>
    obtain rfl : v = u := List.mem_singleton.1 hv
    rw [hasCycle, List.contains_iff_mem]
    constructor
    · intro hloop
      exact onCycle_iff.2 ⟨v, hloop, Reaches.refl v⟩
    · intro hcycle
      obtain ⟨w, hstep, hback⟩ := onCycle_iff.1 hcycle
      have hw : w ∈ [v] := (h.whole v hv w).2 ⟨hstep.reaches, hback⟩
      obtain rfl : w = v := List.mem_singleton.1 hw
      exact hstep
  | a :: b :: rest, h =>
    refine ⟨fun _ => ?_, fun _ => rfl⟩
    have hab : a ≠ b := fun he => (List.nodup_cons.1 h.nodup).1 (he ▸ List.mem_cons_self ..)
    have hb : b ∈ a :: b :: rest := List.mem_cons_of_mem _ (List.mem_cons_self ..)
    -- One of the two is another vertex than `v`.
    by_cases hva : v = a
    · exact ((h.whole v hv b).1 hb).onCycle (hva ▸ hab)
    · exact ((h.whole v hv a).1 (List.mem_cons_self ..)).onCycle hva

theorem stepIn_of_reaches (h : IsComponent g component) (hv : v ∈ component) (hvw : g.Reaches v w)
    (hback : g.Reaches w v) : Relation.ReflTransGen (g.StepIn component.contains) w v := by
  -- Each vertex on the way reaches `v` and is reached from it, so it is in the component.
  induction hback using Relation.ReflTransGen.head_induction_on with
  | refl => exact Relation.ReflTransGen.refl
  | head hstep hrest ih =>
    have hnext := hvw.trans (Step.reaches hstep)
    have hmem := (h.whole v hv _).2 ⟨hnext, hrest⟩
    exact (ih hnext).head ⟨hstep, List.contains_iff_mem.2 hmem⟩

/-- A cycle through a vertex stays in the component of the vertex. -/
theorem cycle_inside (h : IsComponent g component) (hv : v ∈ component) (hcycle : g.OnCycle v) :
    Relation.TransGen (g.StepIn component.contains) v v := by
  obtain ⟨w, hstep, hback⟩ := onCycle_iff.1 hcycle
  have hw := (h.whole v hv w).2 ⟨hstep.reaches, hback⟩
  exact Relation.TransGen.head'_iff.2
    ⟨w, ⟨hstep, List.contains_iff_mem.2 hw⟩, h.stepIn_of_reaches hv hstep.reaches hback⟩

/-- The search finds a cycle through each vertex that is on one. -/
theorem exists_cycle (h : IsComponent g component) (hclosed : g.Closed) (hv : v ∈ component)
    (hcycle : g.OnCycle v) :
    ∃ cycle, g.shortestPath v v component.contains = .ok (some cycle) ∧ v ∈ cycle ∧
      ∀ w ∈ cycle, g.OnCycle w := by
  rcases shortestPath_cases hclosed hcycle.lt_order v component.contains with
    ⟨u, route, hrouted, heq⟩ | ⟨-, hnone⟩
  · cases hrouted with
    | step hrouted hstep =>
      rw [if_pos rfl] at heq
      refine ⟨(u :: route).reverse, heq, List.mem_reverse.2 hrouted.start_mem, fun w hw => ?_⟩
      rw [List.mem_reverse] at hw
      -- From `w` to the end of the walk, by the last edge to `v`, and from there to `w` again.
      have hend : g.Reaches w u := hrouted.reaches_head hw
      have hstart : g.Reaches v w := hrouted.start_reaches hw
      exact (Relation.TransGen.tail' hend hstep.1).trans_left hstart
  · exact absurd (h.cycle_inside hv hcycle) hnone

end IsComponent

theorem isRotated_rotateToMin (cycle : List Nat) : (rotateToMin cycle).IsRotated cycle := by
  rw [rotateToMin]
  split
  · rename_i hmin
    rw [List.min?_eq_none_iff.1 hmin]
  · rename_i least _
    have hturn : (cycle.drop (cycle.idxOf least) ++ cycle.take (cycle.idxOf least)).IsRotated
        (cycle.take (cycle.idxOf least) ++ cycle.drop (cycle.idxOf least)) := List.isRotated_append
    rwa [List.take_append_drop] at hturn

theorem mem_rotateToMin : v ∈ rotateToMin cycle ↔ v ∈ cycle :=
  (isRotated_rotateToMin cycle).mem_iff

/-- Every vertex of the component that was not covered before is on one of the cycles, and so are
only vertices that lie on a cycle of the graph. -/
theorem cover_spec (hclosed : g.Closed) (h : IsComponent g component)
    (hcycle : g.hasCycle component = true) (vs covered : List Nat) (hvs : ∀ v ∈ vs, v ∈ component) :
    ∃ cycles, g.cover component vs covered = .ok cycles ∧
      (∀ v ∈ vs, v ∈ covered ∨ ∃ cycle ∈ cycles, v ∈ cycle) ∧
      ∀ cycle ∈ cycles, cycle ≠ [] ∧ ∀ v ∈ cycle, g.OnCycle v := by
  -- On the vertices that are left, whatever is covered so far.
  induction vs generalizing covered with
  | nil => exact ⟨[], rfl, by simp, by simp⟩
  | cons v vs ih =>
    have hrest : ∀ w ∈ vs, w ∈ component := fun w hw => hvs w (List.mem_cons_of_mem _ hw)
    rw [cover]
    by_cases hcovered : covered.contains v = true
    · rw [if_pos hcovered]
      obtain ⟨cycles, heq, hall, hon⟩ := ih covered hrest
      refine ⟨cycles, heq, fun w hw => ?_, hon⟩
      rcases List.mem_cons.1 hw with rfl | hw
      · exact .inl (List.contains_iff_mem.1 hcovered)
      · exact hall w hw
    · rw [if_neg hcovered]
      have hv : v ∈ component := hvs v (List.mem_cons_self ..)
      obtain ⟨cycle, hfound, hmem, hlie⟩ :=
        h.exists_cycle hclosed hv ((h.hasCycle_iff hv).1 hcycle)
      obtain ⟨cycles, heq, hall, hon⟩ := ih (cycle ++ covered) hrest
      refine ⟨rotateToMin cycle :: cycles, ?_, fun w hw => ?_, fun c hc => ?_⟩
      · rw [hfound]
        show (g.cover component vs (cycle ++ covered) >>= _) = _
        rw [heq]
        rfl
      · rcases List.mem_cons.1 hw with rfl | hw
        · exact .inr ⟨_, List.mem_cons_self .., mem_rotateToMin.2 hmem⟩
        · rcases hall w hw with hw | ⟨c, hc, hw⟩
          · rcases List.mem_append.1 hw with hw | hw
            · exact .inr ⟨_, List.mem_cons_self .., mem_rotateToMin.2 hw⟩
            · exact .inl hw
          · exact .inr ⟨c, List.mem_cons_of_mem _ hc, hw⟩
      · rcases List.mem_cons.1 hc with rfl | hc
        · exact ⟨List.ne_nil_of_mem (mem_rotateToMin.2 hmem), fun w hw => hlie w (mem_rotateToMin.1 hw)⟩
        · exact hon c hc

/-! ## All components -/

theorem mapM_ok {α β ε : Type} {f : α → Except ε β} {p : α → β → Prop} (as : List α)
    (h : ∀ a ∈ as, ∃ b, f a = .ok b ∧ p a b) :
    ∃ bs, as.mapM f = .ok bs ∧ (∀ a ∈ as, ∃ b ∈ bs, p a b) ∧ ∀ b ∈ bs, ∃ a ∈ as, p a b := by
  induction as with
  | nil => exact ⟨[], rfl, by simp, by simp⟩
  | cons a as ih =>
    obtain ⟨b, hb, hp⟩ := h a (List.mem_cons_self ..)
    obtain ⟨bs, hbs, hall, honly⟩ := ih fun x hx => h x (List.mem_cons_of_mem _ hx)
    refine ⟨b :: bs, ?_, fun x hx => ?_, fun y hy => ?_⟩
    · rw [List.mapM_cons, hb, hbs]
      rfl
    · rcases List.mem_cons.1 hx with rfl | hx
      · exact ⟨b, List.mem_cons_self .., hp⟩
      · obtain ⟨y, hy, hxy⟩ := hall x hx
        exact ⟨y, List.mem_cons_of_mem _ hy, hxy⟩
    · rcases List.mem_cons.1 hy with rfl | hy
      · exact ⟨a, List.mem_cons_self .., hp⟩
      · obtain ⟨x, hx, hxy⟩ := honly y hy
        exact ⟨x, List.mem_cons_of_mem _ hx, hxy⟩

theorem component_of_mem (hclosed : g.Closed) (hc : component ∈ g.components) :
    IsComponent g component :=
  (components_condensed hclosed).1.isComponent (List.mem_reverse.2 hc)

/-- In a graph whose successors are vertices the search for cycles gives an answer. -/
theorem exists_findCycles (hclosed : g.Closed) : ∃ cycles, g.findCycles = .ok cycles := by
  obtain ⟨found, hfound, -⟩ := mapM_ok (f := fun c => g.cover c c []) (p := fun _ _ => True)
    (g.components.filter g.hasCycle) (by
      intro c hc
      obtain ⟨hc, hcycle⟩ := List.mem_filter.1 hc
      obtain ⟨cycles, heq, -⟩ :=
        cover_spec hclosed (component_of_mem hclosed hc) hcycle c [] fun _ hv => hv
      exact ⟨cycles, heq, trivial⟩)
  refine ⟨sortedDistinct found.flatten, ?_⟩
  rw [findCycles, (g.isClosed_iff).2 hclosed]
  simp only [Bool.not_true, Bool.false_eq_true, if_false]
  rw [hfound]
  rfl

/-- In a graph whose successors are vertices the search for cycles does not fail, and the vertices on
the cycles that it gives are exactly the vertices that lie on a cycle.  So it gives nothing exactly
if the graph has no cycle. -/
theorem findCycles_covers (g : Digraph) (hclosed : g.Closed) :
    ∃ cycles, g.findCycles = .ok cycles ∧
      (∀ v, (∃ cycle ∈ cycles, v ∈ cycle) ↔ g.OnCycle v) ∧
      (cycles = [] ↔ ∀ v, ¬ g.OnCycle v) := by
  obtain ⟨found, hfound, hall, honly⟩ := mapM_ok (f := fun c => g.cover c c [])
    (p := fun c cycles => (∀ v ∈ c, ∃ cycle ∈ cycles, v ∈ cycle) ∧
      ∀ cycle ∈ cycles, cycle ≠ [] ∧ ∀ v ∈ cycle, g.OnCycle v)
    (g.components.filter g.hasCycle) (by
      intro c hc
      obtain ⟨hc, hcycle⟩ := List.mem_filter.1 hc
      obtain ⟨cycles, heq, hall, hon⟩ :=
        cover_spec hclosed (component_of_mem hclosed hc) hcycle c [] fun _ hv => hv
      exact ⟨cycles, heq, fun v hv => (hall v hv).resolve_left List.not_mem_nil, hon⟩)
  have hmem : ∀ cycle, cycle ∈ sortedDistinct found.flatten ↔ ∃ cycles ∈ found, cycle ∈ cycles :=
    fun cycle => mem_sortedDistinct.trans List.mem_flatten
  have hcover : ∀ v, (∃ cycle ∈ sortedDistinct found.flatten, v ∈ cycle) ↔ g.OnCycle v := by
    intro v
    constructor
    · rintro ⟨cycle, hcycle, hv⟩
      obtain ⟨cycles, hcycles, hcycle⟩ := (hmem cycle).1 hcycle
      obtain ⟨c, -, -, hon⟩ := honly cycles hcycles
      exact (hon cycle hcycle).2 v hv
    · -- The component of the vertex holds a cycle, so it was searched.
      intro hv
      obtain ⟨c, hc, hvc⟩ :=
        List.mem_flatten.1 (((components_condensed hclosed).2 v).2 hv.lt_order)
      have hcycle := ((component_of_mem hclosed hc).hasCycle_iff hvc).2 hv
      obtain ⟨cycles, hcycles, hcov, -⟩ := hall c (List.mem_filter.2 ⟨hc, hcycle⟩)
      obtain ⟨cycle, hin, hvin⟩ := hcov v hvc
      exact ⟨cycle, (hmem cycle).2 ⟨cycles, hcycles, hin⟩, hvin⟩
  refine ⟨sortedDistinct found.flatten, ?_, hcover, ?_, ?_⟩
  · rw [findCycles, (g.isClosed_iff).2 hclosed]
    simp only [Bool.not_true, Bool.false_eq_true, if_false]
    rw [hfound]
    rfl
  · intro hnil v hv
    obtain ⟨cycle, hcycle, -⟩ := (hcover v).2 hv
    rw [hnil] at hcycle
    cases hcycle
  · intro hnone
    rw [List.eq_nil_iff_forall_not_mem]
    intro cycle hcycle
    obtain ⟨cycles, hcycles, hin⟩ := (hmem cycle).1 hcycle
    obtain ⟨c, -, -, hon⟩ := honly cycles hcycles
    obtain ⟨v, hv⟩ := List.exists_mem_of_ne_nil cycle (hon cycle hin).1
    exact hnone v ((hon cycle hin).2 v hv)

/-- Two vertices that are successors of each other, with a loop at one of them and a third vertex
that leads to them. -/
def ringWithTail : Digraph := .ofLists [[1, 1], [0, 1], [0]]

theorem findCycles_covers_ringWithTail :
    ringWithTail.Closed ∧ ∃ cycles, ringWithTail.findCycles = .ok cycles ∧
      (∀ v, (∃ cycle ∈ cycles, v ∈ cycle) ↔ ringWithTail.OnCycle v) ∧
      (cycles = [] ↔ ∀ v, ¬ ringWithTail.OnCycle v) :=
  ⟨by decide +kernel, findCycles_covers ringWithTail (by decide +kernel)⟩

end LayerGate.Digraph
