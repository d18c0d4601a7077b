import Mathlib.Data.List.Cycle
import LayerGate.Proofs.CycleCover
import LayerGate.Proofs.Results
import LayerGate.Proofs.Walks

/-!
# Rings of vertices

Each cycle that is found is a ring: every vertex leads to the next and the last to the first.  So a
ring can be walked from any of its vertices back to it, and the search from a vertex back to itself
gives a ring that is no longer than any other through that vertex.
-/

namespace LayerGate.Digraph

variable {g : Digraph} {allowed : Nat → Bool} {start v w : Nat} {route : Route}
  {component covered vs cycle : List Nat} {cycles : List (List Nat)}

/-! ## Rings -/

/-- Each vertex leads to the next one, and the last to the first. -/
def IsRing (g : Digraph) (ring : List Nat) : Prop := Cycle.Chain g.Step (ring : Cycle Nat)

theorem isRing_cons {rest : List Nat} :
    g.IsRing (v :: rest) ↔ (v :: (rest ++ [v])).IsChain g.Step := by
  rw [IsRing, Cycle.chain_coe_cons]

/-- A ring may start anywhere. -/
theorem isRing_append_comm {front back : List Nat} :
    g.IsRing (front ++ back) ↔ g.IsRing (back ++ front) := by
  rw [IsRing, IsRing, Cycle.coe_eq_coe.2 List.isRotated_append]

theorem isRing_rotateToMin : g.IsRing (rotateToMin cycle) ↔ g.IsRing cycle := by
  rw [IsRing, IsRing, Cycle.coe_eq_coe.2 (isRotated_rotateToMin cycle)]

/-- Each vertex of a ring has a successor on it. -/
theorem IsRing.exists_step (h : g.IsRing cycle) (hv : v ∈ cycle) : ∃ w ∈ cycle, g.Step v w := by
  obtain ⟨front, back, rfl⟩ := List.append_of_mem hv
  have hchain : (v :: ((back ++ front) ++ [v])).IsChain g.Step :=
    isRing_cons.1 (isRing_append_comm.1 h)
  cases hafter : back ++ front with
  | nil =>
    rw [hafter] at hchain
    exact ⟨v, hv, List.isChain_pair.1 hchain⟩
  | cons w rest =>
    rw [hafter] at hchain
    refine ⟨w, ?_, (List.isChain_cons_cons.1 hchain).1⟩
    have hw : w ∈ back ++ front := hafter ▸ List.mem_cons_self ..
    rw [List.mem_append] at hw ⊢
    exact hw.elim (fun hw => .inr (List.mem_cons_of_mem _ hw)) .inl

/-- From any of its vertices a ring leads back to it, by way of all its vertices. -/
theorem IsRing.routed (h : g.IsRing cycle) (hv : v ∈ cycle) :
    ∃ w r, Routed g (fun _ => true) v (v :: w :: r) ∧ (w :: r).Perm cycle := by
  obtain ⟨front, back, rfl⟩ := List.append_of_mem hv
  -- The ring from `v` on, and `v` again, read backwards.
  have hchain : (v :: ((back ++ front) ++ [v])).IsChain (g.StepIn fun _ => true) :=
    (isRing_cons.1 (isRing_append_comm.1 h)).imp fun _ _ hstep => ⟨hstep, rfl⟩
  have hroute : Routed g (fun _ => true) v (v :: ((back ++ front).reverse ++ [v])) := by
    refine routed_iff.2 ⟨?_, ?_⟩
    · rw [← List.isChain_reverse]
      simpa using hchain
    · rw [← List.cons_append]
      exact List.getLast?_concat
  have hturn : (v :: back ++ front).Perm (front ++ v :: back) := List.perm_append_comm
  have hperm : ((back ++ front).reverse ++ [v]).Perm (front ++ v :: back) := by
    rw [← List.reverse_cons]
    exact (List.reverse_perm _).trans hturn
  cases hreverse : (back ++ front).reverse ++ [v] with
  | nil => simp at hreverse
  | cons w r =>
    rw [hreverse] at hroute hperm
    exact ⟨w, r, hroute, hperm⟩

/-- A route that ends where it starts goes round a ring. -/
theorem Routed.isRing (h : Routed g allowed v (v :: w :: route)) :
    g.IsRing (w :: route).reverse ∧ ∃ rest, (w :: route).reverse = v :: rest := by
  obtain ⟨hchain, hlast⟩ := routed_iff.1 h
  rw [List.getLast?_cons_cons] at hlast
  obtain ⟨front, hfront⟩ := List.getLast?_eq_some_iff.1 hlast
  rw [hfront, List.reverse_append, List.reverse_cons, List.reverse_nil, List.nil_append,
    List.singleton_append]
  refine ⟨isRing_cons.2 ?_, _, rfl⟩
  rw [hfront, ← List.isChain_reverse] at hchain
  simpa using hchain.imp fun _ _ hstep => hstep.1

/-- A route that ends where it starts goes along a cycle. -/
theorem Routed.onCycle (h : Routed g allowed v (v :: w :: route)) : g.OnCycle v := by
  cases h with
  | step h hstep => exact Relation.TransGen.tail' (h.start_reaches (List.mem_cons_self ..)) hstep.1

theorem IsRing.onCycle (h : g.IsRing cycle) (hv : v ∈ cycle) : g.OnCycle v := by
  obtain ⟨w, r, hroute, -⟩ := h.routed hv
  exact hroute.onCycle

/-! ## Shortest rings -/

/-- A ring through `v` that no other ring through `v` undercuts. -/
structure IsShortestRing (g : Digraph) (v : Nat) (ring : List Nat) : Prop where
  isRing : g.IsRing ring
  mem : v ∈ ring
  shortest : ∀ other, g.IsRing other → v ∈ other → ring.length ≤ other.length

/-- Among the vertices of a ring there is a ring through any of them that repeats none. -/
theorem IsRing.exists_nodup (h : g.IsRing cycle) (hv : v ∈ cycle) :
    ∃ ring, g.IsRing ring ∧ v ∈ ring ∧ ring.Nodup ∧ ring.Subperm cycle := by
  obtain ⟨w, r, hroute, hperm⟩ := h.routed hv
  cases hroute with
  | step hroute hstep =>
    -- Cut short up to the last step back to `v`, the route still closes.
    obtain ⟨r', hr', hnodup, hsub⟩ := hroute.exists_nodup
    obtain ⟨hring, rest, hrest⟩ := Routed.isRing (.step hr' hstep)
    refine ⟨(w :: r').reverse, hring, hrest ▸ List.mem_cons_self .., List.nodup_reverse.2 hnodup, ?_⟩
    exact (List.reverse_perm _).subperm.trans ((hsub.cons_cons w).subperm.trans hperm.subperm)

namespace IsShortestRing

/-- A ring through the vertex whose vertices are all on the shortest one has all of its vertices. -/
theorem subset_of_subset (h : g.IsShortestRing v cycle) {other : List Nat} (hother : g.IsRing other)
    (hv : v ∈ other) (hsub : other ⊆ cycle) : cycle ⊆ other := by
  obtain ⟨ring, hring, hmem, hnodup, hsubperm⟩ := hother.exists_nodup hv
  have hle : ring.Subperm cycle := hnodup.subperm fun _ hw => hsub (hsubperm.subset hw)
  have hperm := hle.perm_of_length_le (h.shortest ring hring hmem)
  exact fun w hw => hsubperm.subset (hperm.mem_iff.2 hw)

theorem nodup (h : g.IsShortestRing v cycle) : cycle.Nodup := by
  obtain ⟨ring, hring, hmem, hnodup, hsubperm⟩ := h.isRing.exists_nodup h.mem
  exact (hsubperm.perm_of_length_le (h.shortest ring hring hmem)).nodup_iff.1 hnodup

end IsShortestRing

theorem IsShortestRing.rotateToMin (h : g.IsShortestRing v cycle) :
    g.IsShortestRing v (rotateToMin cycle) where
  isRing := isRing_rotateToMin.2 h.isRing
  mem := mem_rotateToMin.2 h.mem
  shortest other hother hv := by
    rw [(isRotated_rotateToMin cycle).perm.length_eq]
    exact h.shortest other hother hv

/-! ## The search from a vertex back to itself -/

/-- What leads back to its start is a ring that is shortest, if the rings through the start go along
allowed vertices only. -/
theorem isShortestRing_of_shortestPath (hclosed : g.Closed) (hlt : v < g.order)
    (hall : ∀ ring, g.IsRing ring → v ∈ ring → ∀ w ∈ ring, allowed w = true)
    (h : g.shortestPath v v allowed = .ok (some cycle)) :
    g.IsShortestRing v cycle ∧ ∃ rest, cycle = v :: rest := by
  rcases shortestPath_cases hclosed hlt v allowed with ⟨u, r, hrouted, heq⟩ | ⟨hnone, -⟩
  · have hring := hrouted.isRing
    rw [h, if_pos rfl] at heq
    obtain rfl := Option.some.inj (Except.ok.inj heq)
    obtain ⟨hisRing, rest, hrest⟩ := hring
    refine ⟨⟨hisRing, hrest ▸ List.mem_cons_self .., fun other hother hv => ?_⟩, rest, hrest⟩
    -- Walked from `v` on, the other ring is a route that the search could have taken.
    obtain ⟨w, r', hroute, hperm⟩ := hother.routed hv
    have hinside : Routed g allowed v (v :: w :: r') := hroute.restrict fun u hu => by
      rcases List.mem_cons.1 hu with rfl | hu
      · exact hall other hother hv u hv
      · exact hall other hother hv u (hperm.mem_iff.1 hu)
    have hle := shortestPath_shortest hclosed hlt h w r' hinside
    rw [if_pos rfl] at hle
    exact hle.trans hperm.length_eq.le
  · rw [h] at hnone
    cases hnone

/-- A vertex on a cycle is led back to itself by a ring that is shortest of all through it, and a vertex
on no cycle is not led back. -/
theorem shortestPath_self_cases (hclosed : g.Closed) (hlt : v < g.order) :
    (g.OnCycle v ∧ ∃ rest, g.shortestPath v v (fun _ => true) = .ok (some (v :: rest)) ∧
      g.IsShortestRing v (v :: rest)) ∨
    (¬ g.OnCycle v ∧ g.shortestPath v v (fun _ => true) = .ok none) := by
  rcases shortestPath_cases hclosed hlt v fun _ => true with ⟨u, r, hrouted, heq⟩ | ⟨hnone, hno⟩
  · left
    obtain ⟨hshortest, rest, hrest⟩ := isShortestRing_of_shortestPath hclosed hlt (by simp) heq
    rw [hrest] at heq hshortest
    exact ⟨hrouted.onCycle, rest, heq, hshortest⟩
  · right
    rw [stepIn_all] at hno
    exact ⟨hno, hnone⟩

/-! ## Found cycles -/

/-- A vertex that was covered before is left out; the search from another one gives the first cycle. -/
theorem cover_cons_cases (h : g.cover component (v :: vs) covered = .ok cycles) :
    (v ∈ covered ∧ g.cover component vs covered = .ok cycles) ∨
    (v ∉ covered ∧ ∃ cycle others, g.shortestPath v v component.contains = .ok (some cycle) ∧
      g.cover component vs (cycle ++ covered) = .ok others ∧ cycles = rotateToMin cycle :: others) := by
  rw [cover] at h
  split at h
  · rename_i hcovered
    exact .inl ⟨List.contains_iff_mem.1 hcovered, h⟩
  · rename_i hcovered
    obtain ⟨found, hfound, h⟩ := bind_eq_ok_iff.1 h
    cases found with
    | none => cases h
    | some cycle =>
      obtain ⟨others, hothers, hcycles⟩ := bind_eq_ok_iff.1 h
      exact .inr ⟨fun hv => hcovered (List.contains_iff_mem.2 hv), cycle, others, hfound, hothers,
        (Except.ok.inj hcycles).symm⟩

/-- Each cycle that covers a component was found by a search from one of the vertices. -/
theorem exists_search_of_cover (h : g.cover component vs covered = .ok cycles) :
    ∀ ring ∈ cycles, ∃ v ∈ vs, ∃ cycle,
      g.shortestPath v v component.contains = .ok (some cycle) ∧ rotateToMin cycle = ring := by
  induction vs generalizing covered cycles with
  | nil =>
    obtain rfl := Except.ok.inj h
    exact nofun
  | cons v vs ih =>
    have hrest : ∀ {covered cycles}, g.cover component vs covered = .ok cycles → ∀ ring ∈ cycles,
        ∃ w ∈ v :: vs, ∃ cycle,
          g.shortestPath w w component.contains = .ok (some cycle) ∧ rotateToMin cycle = ring := by
      intro covered cycles hcover ring hring
      obtain ⟨w, hw, hcycle⟩ := ih hcover ring hring
      exact ⟨w, List.mem_cons_of_mem _ hw, hcycle⟩
    rcases cover_cons_cases h with ⟨-, h⟩ | ⟨-, cycle, others, hfound, hothers, rfl⟩
    · exact hrest h
    · intro ring hring
      rcases List.mem_cons.1 hring with rfl | hring
      · exact ⟨v, List.mem_cons_self .., cycle, hfound, rfl⟩
      · exact hrest hothers ring hring

/-- What is found are the cycles that cover the components with a cycle. -/
theorem mem_findCycles_iff (h : g.findCycles = .ok cycles) {ring : List Nat} :
    ring ∈ cycles ↔ ∃ component ∈ g.components.filter g.hasCycle, ∃ rings,
      g.cover component component [] = .ok rings ∧ ring ∈ rings := by
  rw [findCycles] at h
  split at h
  · cases h
  · obtain ⟨found, hfound, hcycles⟩ := bind_eq_ok_iff.1 h
    obtain rfl := Except.ok.inj hcycles
    rw [mem_sortedDistinct, List.mem_flatten]
    simp only [mem_of_mapM_eq_ok hfound]
    constructor
    · rintro ⟨rings, ⟨component, hcomponent, hrings⟩, hring⟩
      exact ⟨component, hcomponent, rings, hrings, hring⟩
    · rintro ⟨component, hcomponent, rings, hrings, hring⟩
      exact ⟨rings, ⟨component, hcomponent, hrings⟩, hring⟩

/-- A ring stays in the component of its vertices. -/
theorem IsComponent.mem_of_isRing (h : IsComponent g component) (hv : v ∈ component)
    (hring : g.IsRing cycle) (hon : v ∈ cycle) (hw : w ∈ cycle) : w ∈ component := by
  obtain ⟨u, r, hroute, hperm⟩ := hring.routed hon
  have hmem : w ∈ v :: u :: r := List.mem_cons_of_mem _ (hperm.mem_iff.2 hw)
  exact (h.whole v hv w).2 ⟨hroute.start_reaches hmem, hroute.reaches_head hmem⟩

/-- In a component with a cycle, the search from a vertex back to itself gives a shortest ring. -/
theorem IsComponent.isShortestRing (h : IsComponent g component) (hclosed : g.Closed)
    (hhas : g.hasCycle component = true) (hv : v ∈ component)
    (hcycle : g.shortestPath v v component.contains = .ok (some cycle)) :
    g.IsShortestRing v cycle ∧ ∃ rest, cycle = v :: rest := by
  have hlt : v < g.order := ((h.hasCycle_iff hv).1 hhas).lt_order
  -- The search stays in one component, and so does every ring through `v`.
  have hall : ∀ other, g.IsRing other → v ∈ other → ∀ w ∈ other, component.contains w = true :=
    fun other hother hon w hw => List.contains_iff_mem.2 (h.mem_of_isRing hv hother hon hw)
  exact isShortestRing_of_shortestPath hclosed hlt hall hcycle

/-- Each cycle that is found is a ring, turned so that it starts at its least vertex, and shortest of all
through the vertex that the search for it started from. -/
theorem exists_shortestRing_of_findCycles (hclosed : g.Closed) (h : g.findCycles = .ok cycles) :
    ∀ ring ∈ cycles, ∃ v rest, g.IsShortestRing v (v :: rest) ∧ rotateToMin (v :: rest) = ring := by
  intro ring hring
  obtain ⟨component, hcomponent, rings, hrings, hring⟩ := (mem_findCycles_iff h).1 hring
  obtain ⟨v, hv, cycle, hcycle, hrotate⟩ := exists_search_of_cover hrings ring hring
  obtain ⟨hcomponent, hhas⟩ := List.mem_filter.1 hcomponent
  obtain ⟨hshortest, rest, rfl⟩ :=
    (component_of_mem hclosed hcomponent).isShortestRing hclosed hhas hv hcycle
  exact ⟨v, rest, hshortest, hrotate⟩

/-- All cycles that are found are rings. -/
theorem isRing_of_findCycles (hclosed : g.Closed) (h : g.findCycles = .ok cycles) :
    ∀ ring ∈ cycles, g.IsRing ring := by
  intro ring hring
  obtain ⟨v, rest, hshortest, rfl⟩ := exists_shortestRing_of_findCycles hclosed h ring hring
  exact isRing_rotateToMin.2 hshortest.isRing

/-- A vertex on a cycle is on one of those that are found. -/
theorem exists_found_of_onCycle (hclosed : g.Closed) (h : g.findCycles = .ok cycles)
    (hv : g.OnCycle v) : ∃ ring ∈ cycles, v ∈ ring := by
  obtain ⟨component, hcomponent, hmem⟩ :=
    List.mem_flatten.1 (((components_condensed hclosed).2 v).2 hv.lt_order)
  have his := component_of_mem hclosed hcomponent
  have hcycle := (his.hasCycle_iff hmem).2 hv
  obtain ⟨rings, hrings, hall, -⟩ := cover_spec hclosed his hcycle component [] fun _ hw => hw
  -- Nothing was covered before.
  obtain ⟨ring, hring, hin⟩ := (hall v hmem).resolve_left List.not_mem_nil
  exact ⟨ring, (mem_findCycles_iff h).2
    ⟨component, List.mem_filter.2 ⟨hcomponent, hcycle⟩, rings, hrings, hring⟩, hin⟩

end LayerGate.Digraph
