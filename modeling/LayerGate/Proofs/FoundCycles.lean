import Mathlib.Data.List.Lex
import LayerGate.Proofs.Rings
import LayerGate.Proofs.SortedDistinct

/-!
# The cycles that are found

They stand in increasing order, each a ring of distinct vertices from its least one on, and each is as
short as a ring through one of its vertices can be.  Through that vertex no ring takes a part of the
vertices only; a ring beside it may, where an edge leads back.
-/

namespace LayerGate.Digraph

variable {g : Digraph} {v w : Nat} {cycle rest : List Nat} {cycles : List (List Nat)}

/-! ## The shape of the cycles -/

/-- Lists that compare as less come before in the lexicographic order. -/
theorem lt_of_compare_eq_lt {as bs : List Nat} (h : compare as bs = .lt) : as < bs := by
  induction as generalizing bs with
  | nil =>
    cases bs with
    | nil => cases h
    | cons b bs => exact List.nil_lt_cons b bs
  | cons a as ih =>
    cases bs with
    | nil => cases h
    | cons b bs =>
      rw [List.compare_cons_cons, Ordering.then_eq_lt, Nat.compare_eq_lt, Nat.compare_eq_eq] at h
      exact List.cons_lt_cons_iff.2 (h.imp_right fun hrest => ⟨hrest.1, ih hrest.2⟩)

/-- The cycles that are found are strictly sorted. -/
theorem pairwise_lt_of_findCycles (h : g.findCycles = .ok cycles) : cycles.Pairwise (· < ·) := by
  rw [findCycles] at h
  split at h
  · cases h
  · obtain ⟨found, -, hcycles⟩ := bind_eq_ok_iff.1 h
    obtain rfl := Except.ok.inj hcycles
    exact (strictlySorted_sortedDistinct found.flatten).imp lt_of_compare_eq_lt

theorem rotateToMin_starts_least (hne : cycle ≠ []) :
    ∃ first rest, rotateToMin cycle = first :: rest ∧ ∀ w ∈ rest, first ≤ w := by
  cases hmin : cycle.min? with
  | none => exact absurd (List.min?_eq_none_iff.1 hmin) hne
  | some least =>
    obtain ⟨hmem, hle⟩ := List.min?_eq_some_iff.1 hmin
    have hlt := List.idxOf_lt_length_of_mem hmem
    refine ⟨least, cycle.drop (cycle.idxOf least + 1) ++ cycle.take (cycle.idxOf least), ?_, ?_⟩
    · simp only [rotateToMin, hmin]
      rw [List.drop_eq_getElem_cons hlt, List.getElem_idxOf, List.cons_append]
    · intro w hw
      rcases List.mem_append.1 hw with hw | hw
      · exact hle w (List.mem_of_mem_drop hw)
      · exact hle w (List.mem_of_mem_take hw)

/-- In a graph whose successors are vertices the search for cycles does not fail.  What it gives is in
strictly increasing order, and each cycle is a ring of distinct vertices that starts at the least of them
and has a vertex through which no ring of the graph is shorter. -/
theorem findCycles_shape (hclosed : g.Closed) :
    ∃ cycles, g.findCycles = .ok cycles ∧ cycles.Pairwise (· < ·) ∧ ∀ ring ∈ cycles,
      (∃ first rest, ring = first :: rest ∧ ∀ w ∈ rest, first < w) ∧ ring.Nodup ∧ g.IsRing ring ∧
        ∃ v ∈ ring, ∀ other, g.IsRing other → v ∈ other → ring.length ≤ other.length := by
  obtain ⟨cycles, hfound⟩ := exists_findCycles hclosed
  refine ⟨cycles, hfound, pairwise_lt_of_findCycles hfound, fun ring hring => ?_⟩
  obtain ⟨v, rest, hshortest, rfl⟩ := exists_shortestRing_of_findCycles hclosed hfound ring hring
  have hrotated := hshortest.rotateToMin
  refine ⟨?_, hrotated.nodup, hrotated.isRing, v, hrotated.mem, hrotated.shortest⟩
  obtain ⟨first, others, heq, hleast⟩ := rotateToMin_starts_least (List.cons_ne_nil v rest)
  have hnodup := hrotated.nodup
  rw [heq, List.nodup_cons] at hnodup
  exact ⟨first, others, heq, fun w hw =>
    Nat.lt_of_le_of_ne (hleast w hw) fun hsame => hnodup.1 (hsame ▸ hw)⟩

theorem findCycles_shape_ringWithTail :
    ringWithTail.Closed ∧ ∃ cycles, ringWithTail.findCycles = .ok cycles ∧
      cycles.Pairwise (· < ·) ∧ [0, 1] ∈ cycles ∧ ringWithTail.IsRing [0, 1] ∧
        ∃ v ∈ [0, 1], ∀ other, ringWithTail.IsRing other → v ∈ other → 2 ≤ other.length := by
  have hclosed : ringWithTail.Closed := by decide +kernel
  obtain ⟨cycles, hfound, hsorted, hshape⟩ := findCycles_shape hclosed
  have hcomputed : ringWithTail.findCycles = .ok [[0, 1]] := by cbv
  rw [hfound] at hcomputed
  obtain rfl := Except.ok.inj hcomputed
  obtain ⟨-, -, hring, hshortest⟩ := hshape [0, 1] (List.mem_cons_self ..)
  exact ⟨hclosed, _, hfound, hsorted, List.mem_cons_self .., hring, hshortest⟩

/-! ## Rings among the vertices of a cycle -/

/-- No ring takes a part of the vertices only. -/
def IsMinimal (g : Digraph) (ring : List Nat) : Prop :=
  ∀ other, other ≠ [] → g.IsRing other → other ⊆ ring → ring ⊆ other

/-- Without loops and edges that lead back the last of some vertices leads to none of them. -/
theorem exists_without_step (hloops : ∀ v, ¬ g.Step v v)
    (hback : rest.Pairwise fun a b => ¬ g.Step b a) {p : Nat → Prop} (hp : ∃ w ∈ rest, p w) :
    ∃ w ∈ rest, p w ∧ ∀ u ∈ rest, p u → ¬ g.Step w u := by
  -- The last one with `p` is found from the back: whoever stands before it is not led to.
  induction rest with
  | nil => simp at hp
  | cons a rest ih =>
    obtain ⟨ha, hrest⟩ := List.pairwise_cons.1 hback
    by_cases hlater : ∃ w ∈ rest, p w
    · obtain ⟨w, hw, hpw, hnone⟩ := ih hrest hlater
      refine ⟨w, List.mem_cons_of_mem _ hw, hpw, fun u hu hpu => ?_⟩
      rcases List.mem_cons.1 hu with rfl | hu
      · exact ha w hw
      · exact hnone u hu hpu
    · have honly : ∀ u ∈ a :: rest, p u → u = a := fun u hu hpu =>
        (List.mem_cons.1 hu).resolve_right fun hu => hlater ⟨u, hu, hpu⟩
      obtain ⟨w, hw, hpw⟩ := hp
      obtain rfl := honly w hw hpw
      exact ⟨w, hw, hpw, fun u hu hpu => honly u hu hpu ▸ hloops w⟩

/-- An edge that leads back closes a ring with the steps that it goes against. -/
theorem isRing_of_step_back {front mid back : List Nat} {a b : Nat}
    (h : g.IsRing (v :: (front ++ a :: (mid ++ b :: back)))) (hstep : g.Step b a) :
    g.IsRing (a :: (mid ++ [b])) := by
  -- From `a` to `b` the ring is left as it is.
  have hsplit : v :: (front ++ a :: (mid ++ b :: back) ++ [v]) =
      (v :: front) ++ (a :: (mid ++ [b]) ++ (back ++ [v])) := by simp
  have hchain := isRing_cons.1 h
  rw [hsplit] at hchain
  rw [isRing_cons, ← List.cons_append, List.isChain_append]
  refine ⟨hchain.right_of_append.left_of_append, List.isChain_singleton _, fun x hx y hy => ?_⟩
  rw [← List.cons_append, List.getLast?_concat] at hx
  obtain rfl := Option.some.inj hx
  obtain rfl := Option.some.inj hy
  exact hstep

/-- A shortest ring through a vertex is minimal just if no edge leads back between its other vertices. -/
theorem IsShortestRing.isMinimal_iff (hloops : ∀ v, ¬ g.Step v v)
    (h : g.IsShortestRing v (v :: rest)) :
    g.IsMinimal (v :: rest) ↔ rest.Pairwise fun a b => ¬ g.Step b a := by
  constructor
  · intro hminimal
    rw [List.pairwise_iff_forall_sublist]
    intro a b hsub hstep
    -- The ring that the edge closes would go through `v` too.
    obtain ⟨before, after, rfl, ha, hb⟩ := List.cons_sublist_iff.1 hsub
    obtain ⟨front, mid, rfl⟩ := List.append_of_mem ha
    obtain ⟨mid', back, rfl⟩ := List.append_of_mem (List.singleton_sublist.1 hb)
    have hring := h.isRing
    have hnodup := h.nodup
    rw [List.append_assoc, List.cons_append, ← List.append_assoc mid] at hring hnodup hminimal
    have hsubset : a :: (mid ++ mid' ++ [b]) ⊆ front ++ a :: (mid ++ mid' ++ b :: back) := by
      intro x hx
      simp only [List.mem_cons, List.mem_append, List.not_mem_nil, or_false] at hx ⊢
      tauto
    have hv := hminimal _ (List.cons_ne_nil _ _) (isRing_of_step_back hring hstep)
      (fun x hx => List.mem_cons_of_mem v (hsubset hx)) (List.mem_cons_self ..)
    exact (List.nodup_cons.1 hnodup).1 (hsubset hv)
  · intro hback other hne hother hsub
    by_cases hv : v ∈ other
    · exact h.subset_of_subset hother hv hsub
    · -- The last of its vertices would have no successor on the ring.
      have hrest : ∀ w ∈ other, w ∈ rest := fun w hw =>
        (List.mem_cons.1 (hsub hw)).resolve_left fun heq => hv (heq ▸ hw)
      obtain ⟨x, hx⟩ := List.exists_mem_of_ne_nil other hne
      obtain ⟨w, -, hw, hnone⟩ := exists_without_step hloops hback ⟨x, hrest x hx, hx⟩
      obtain ⟨u, hu, hstep⟩ := hother.exists_step hw
      exact absurd hstep (hnone u (hrest u hu) hu)

/-- Let no vertex lead to itself.  Each cycle that is found can be read from one of its vertices on so
that no ring through that vertex takes a part of the vertices of the cycle only.  So a ring that does
goes along the other vertices, and there is one just if an edge leads back between those. -/
theorem findCycles_minimal_iff (hclosed : g.Closed) (hloops : ∀ v, ¬ g.Step v v) :
    ∃ cycles, g.findCycles = .ok cycles ∧ ∀ ring ∈ cycles, ∃ v rest, ring.IsRotated (v :: rest) ∧
      (∀ other, g.IsRing other → v ∈ other → other ⊆ ring → ring ⊆ other) ∧
        (g.IsMinimal ring ↔ rest.Pairwise fun a b => ¬ g.Step b a) := by
  obtain ⟨cycles, hfound⟩ := exists_findCycles hclosed
  refine ⟨cycles, hfound, fun ring hring => ?_⟩
  obtain ⟨v, rest, hshortest, rfl⟩ := exists_shortestRing_of_findCycles hclosed hfound ring hring
  refine ⟨v, rest, isRotated_rotateToMin _, ?_, ?_⟩
  · exact fun other hother hv hsub => hshortest.rotateToMin.subset_of_subset hother hv hsub
  · rw [← hshortest.isMinimal_iff hloops]
    simp only [IsMinimal, List.subset_def, mem_rotateToMin]

/-- A ring of three vertices, the last two of which lead to each other. -/
def chorded : Digraph := .ofLists [[1], [2], [0, 1]]

theorem no_loop_chorded (v : Nat) : ¬ chorded.Step v v := by
  have hall : ∀ u < 3, ¬ chorded.Step u u := by decide
  exact fun hstep => hall v hstep.source_lt hstep

theorem findCycles_minimal_iff_chorded :
    chorded.Closed ∧ (∀ v, ¬ chorded.Step v v) ∧ ∃ v rest, [0, 1, 2].IsRotated (v :: rest) ∧
      (∀ other, chorded.IsRing other → v ∈ other → other ⊆ [0, 1, 2] → [0, 1, 2] ⊆ other) ∧
        (chorded.IsMinimal [0, 1, 2] ↔ rest.Pairwise fun a b => ¬ chorded.Step b a) := by
  have hclosed : chorded.Closed := by decide +kernel
  obtain ⟨cycles, hfound, hcycles⟩ := findCycles_minimal_iff hclosed no_loop_chorded
  have hcomputed : chorded.findCycles = .ok [[0, 1, 2]] := by cbv
  rw [hfound] at hcomputed
  obtain rfl := Except.ok.inj hcomputed
  exact ⟨hclosed, no_loop_chorded, hcycles [0, 1, 2] (List.mem_cons_self ..)⟩

/-- The ring that is found is not minimal.  Nor is any other that covers the first vertex. -/
theorem not_isMinimal_chorded :
    chorded.Closed ∧ (∀ v, ¬ chorded.Step v v) ∧ chorded.findCycles = .ok [[0, 1, 2]] ∧
      (chorded.IsRing [1, 2] ∧ [1, 2] ⊆ [0, 1, 2] ∧ ¬ [0, 1, 2] ⊆ [1, 2]) ∧
        ∀ ring, chorded.IsRing ring → 0 ∈ ring → ¬ chorded.IsMinimal ring := by
  have hring : chorded.IsRing [1, 2] := by
    rw [isRing_cons]
    decide +kernel
  refine ⟨by decide +kernel, no_loop_chorded, by cbv, ⟨hring, by decide, by decide⟩, ?_⟩
  intro ring hother hzero hminimal
  -- From 0 the only way leads by 1 to 2.
  obtain ⟨w, hw, hstep⟩ := hother.exists_step hzero
  obtain rfl : w = 1 := List.mem_singleton.1 hstep
  obtain ⟨w, hw', hstep'⟩ := hother.exists_step hw
  obtain rfl : w = 2 := List.mem_singleton.1 hstep'
  have hsub : [1, 2] ⊆ ring := List.cons_subset.2 ⟨hw, List.cons_subset.2 ⟨hw', List.nil_subset _⟩⟩
  exact absurd (hminimal [1, 2] (List.cons_ne_nil _ _) hring hsub hzero) (by decide)

end LayerGate.Digraph
