import LayerGate.Graph.ShortestPath
import LayerGate.Proofs.Reachability

/-!
# The breadth-first search

The search finds a route to the goal whenever there is one.  A vertex that was seen either heads a
route that is still to be extended, or all its successors have been seen; so when no route is left,
nothing more can be reached.
-/

namespace LayerGate.Digraph

/-- An edge to a vertex that is allowed. -/
def StepIn (g : Digraph) (allowed : Nat → Bool) (v w : Nat) : Prop :=
  g.Step v w ∧ allowed w = true

theorem stepIn_all {g : Digraph} : g.StepIn (fun _ => true) = g.Step := by
  funext v w
  exact propext (and_iff_left rfl)

/-- The vertices of a walk from `start` to allowed vertices, the last one first. -/
inductive Routed (g : Digraph) (allowed : Nat → Bool) (start : Nat) : Route → Prop
  | start : Routed g allowed start [start]
  | step {v w : Nat} {route : Route} : Routed g allowed start (v :: route) →
      g.StepIn allowed v w → Routed g allowed start (w :: v :: route)

/-- The state of a round: the routes of the level that are still to be extended, those of the next
level, and what was seen. -/
structure Searching (g : Digraph) (allowed : Nat → Bool) (start goal : Nat) (level next : List Route)
    (seen : List Nat) : Prop where
  start_mem : start ∈ seen
  bounded : ∀ v ∈ seen, v < g.order
  nodup : seen.Nodup
  routed : ∀ route, route ∈ level ∨ route ∈ next → Routed g allowed start route
  heads : ∀ v route, v :: route ∈ level ∨ v :: route ∈ next → v ∈ seen
  spent : ∀ v ∈ seen, (∀ route, v :: route ∉ level ∧ v :: route ∉ next) →
    ∀ w, g.StepIn allowed v w → w ≠ goal ∧ w ∈ seen

variable {g : Digraph} {allowed : Nat → Bool} {start goal v w : Nat} {route : Route}
  {level next : List Route} {seen fresh ws : List Nat}

namespace Routed

theorem ne_nil (h : Routed g allowed start route) : route ≠ [] := by
  cases h <;> exact List.cons_ne_nil _ _

theorem start_mem (h : Routed g allowed start route) : start ∈ route := by
  induction h with
  | start => exact List.mem_cons_self ..
  | step _ _ ih => exact List.mem_cons_of_mem _ ih

theorem reaches_head (h : Routed g allowed start (v :: route)) (hw : w ∈ v :: route) :
    g.Reaches w v := by
  generalize hr : v :: route = r at h hw
  induction h generalizing v route with
  | start =>
    cases hr
    rw [List.mem_singleton.1 hw]
    exact Reaches.refl _
  | step _ hstep ih =>
    cases hr
    rcases List.mem_cons.1 hw with rfl | hw
    · exact Reaches.refl _
    · exact (ih rfl hw).trans hstep.1.reaches

theorem start_reaches (h : Routed g allowed start route) (hw : w ∈ route) : g.Reaches start w := by
  induction h generalizing w with
  | start =>
    rw [List.mem_singleton.1 hw]
    exact Reaches.refl _
  | step hroute hstep ih =>
    rcases List.mem_cons.1 hw with rfl | hw
    · exact (ih (List.mem_cons_self ..)).trans hstep.1.reaches
    · exact ih hw

end Routed

/-! ## Extending a route -/

/-- How extending a route by the vertices `ws` may end: at the goal, or with the allowed ones that are
new added to what was seen. -/
def Extended (allowed : Nat → Bool) (goal : Nat) (route : Route) (ws seen : List Nat)
    (next : List Route) (result : Round) : Prop :=
  (goal ∈ ws ∧ allowed goal = true ∧ result = .reached (goal :: route)) ∨
  ∃ fresh : List Nat, result = .going (fresh ++ seen) (fresh.map (· :: route) ++ next) ∧
    fresh.Nodup ∧ (∀ w ∈ fresh, w ∈ ws ∧ allowed w = true ∧ w ∉ seen) ∧
      ∀ w ∈ ws, allowed w = true → w ≠ goal ∧ w ∈ fresh ++ seen

namespace Extended

variable {result : Round}

/-- A vertex that is not allowed or was seen changes nothing. -/
theorem skip (h : Extended allowed goal route ws seen next result)
    (hw : allowed w = true → w ≠ goal ∧ w ∈ seen) :
    Extended allowed goal route (w :: ws) seen next result := by
  rcases h with ⟨hgoal, hok, he⟩ | ⟨fresh, he, hnodup, hfresh, hall⟩
  · exact .inl ⟨List.mem_cons_of_mem _ hgoal, hok, he⟩
  · refine .inr ⟨fresh, he, hnodup, fun x hx => ?_, fun x hx hok => ?_⟩
    · exact ⟨List.mem_cons_of_mem _ (hfresh x hx).1, (hfresh x hx).2⟩
    · rcases List.mem_cons.1 hx with rfl | hx
      · exact ⟨(hw hok).1, List.mem_append_right _ (hw hok).2⟩
      · exact hall x hx hok

/-- A vertex that is new is added before those that follow. -/
theorem add (h : Extended allowed goal route ws (w :: seen) ((w :: route) :: next) result)
    (hallowed : allowed w = true) (hgoal : w ≠ goal) (hnew : w ∉ seen) :
    Extended allowed goal route (w :: ws) seen next result := by
  rcases h with ⟨hmem, hok, he⟩ | ⟨fresh, he, hnodup, hfresh, hall⟩
  · exact .inl ⟨List.mem_cons_of_mem _ hmem, hok, he⟩
  · refine .inr ⟨fresh ++ [w], ?_, ?_, fun x hx => ?_, fun x hx hok => ?_⟩
    · rw [he, List.map_append, List.append_assoc, List.append_assoc]
      rfl
    · rw [List.nodup_append]
      refine ⟨hnodup, List.pairwise_singleton _ w, fun x hx y hy hxy => ?_⟩
      rw [hxy, List.mem_singleton.1 hy] at hx
      exact (hfresh w hx).2.2 (List.mem_cons_self ..)
    · rcases List.mem_append.1 hx with hx | hx
      · obtain ⟨hmem, hok, hnot⟩ := hfresh x hx
        exact ⟨List.mem_cons_of_mem _ hmem, hok, fun h => hnot (List.mem_cons_of_mem _ h)⟩
      · rw [List.mem_singleton.1 hx]
        exact ⟨List.mem_cons_self .., hallowed, hnew⟩
    · rw [List.append_assoc]
      rcases List.mem_cons.1 hx with rfl | hx
      · exact ⟨hgoal, List.mem_append_right _ (List.mem_cons_self ..)⟩
      · exact hall x hx hok

end Extended

theorem extend_extended (allowed : Nat → Bool) (goal : Nat) (route : Route) (ws seen : List Nat)
    (next : List Route) :
    Extended allowed goal route ws seen next (extend allowed goal route ws seen next) := by
  -- On the successors, whatever was seen before: each is skipped, ends the search or is new.
  induction ws generalizing seen next with
  | nil => exact .inr ⟨[], rfl, List.nodup_nil, by simp, by simp⟩
  | cons w ws ih =>
    rw [extend]
    by_cases hallowed : allowed w = true
    · rw [if_neg (by simp [hallowed])]
      by_cases hgoal : w = goal
      · rw [if_pos hgoal, ← hgoal]
        exact .inl ⟨List.mem_cons_self .., hallowed, rfl⟩
      · rw [if_neg hgoal]
        by_cases hseen : seen.contains w = true
        · rw [if_pos hseen]
          exact (ih seen next).skip fun _ => ⟨hgoal, List.contains_iff_mem.1 hseen⟩
        · rw [if_neg hseen]
          have hnew : w ∉ seen := fun hmem => hseen (List.contains_iff_mem.2 hmem)
          exact (ih (w :: seen) ((w :: route) :: next)).add hallowed hgoal hnew
    · rw [if_pos (by simp [hallowed])]
      exact (ih seen next).skip fun hok => absurd hok hallowed

/-- The vertices that are added stand among the successors in the same order; they are listed from the
last one on. -/
theorem extend_sublist {seen' : List Nat} {next' : List Route}
    (h : extend allowed goal route ws seen next = .going seen' next') :
    ∃ fresh, seen' = fresh ++ seen ∧ fresh.reverse.Sublist ws := by
  induction ws generalizing seen next with
  | nil =>
    cases h
    exact ⟨[], rfl, List.Sublist.refl _⟩
  | cons w ws ih =>
    rw [extend] at h
    split at h
    · obtain ⟨fresh, heq, hsub⟩ := ih h
      exact ⟨fresh, heq, hsub.cons _⟩
    · split at h
      · cases h
      · split at h
        · obtain ⟨fresh, heq, hsub⟩ := ih h
          exact ⟨fresh, heq, hsub.cons _⟩
        · obtain ⟨fresh, heq, hsub⟩ := ih h
          refine ⟨fresh ++ [w], by simpa using heq, ?_⟩
          rw [List.reverse_append]
          exact hsub.cons_cons w

namespace Searching

/-- Extending the first route of the level by what is new among its successors. -/
theorem extend (h : Searching g allowed start goal ((v :: route) :: level) next seen)
    (hclosed : g.Closed) (hnodup : fresh.Nodup)
    (hfresh : ∀ w ∈ fresh, g.StepIn allowed v w ∧ w ∉ seen)
    (hall : ∀ w, g.StepIn allowed v w → w ≠ goal ∧ w ∈ fresh ++ seen) :
    Searching g allowed start goal level (fresh.map (· :: v :: route) ++ next) (fresh ++ seen) where
  start_mem := List.mem_append_right _ h.start_mem
  bounded x hx := by
    rcases List.mem_append.1 hx with hx | hx
    · exact hclosed v x (hfresh x hx).1.1
    · exact h.bounded x hx
  nodup := by
    rw [List.nodup_append]
    refine ⟨hnodup, h.nodup, ?_⟩
    rintro x hx y hy rfl
    exact (hfresh x hx).2 hy
  routed r hr := by
    rw [List.mem_append, List.mem_map] at hr
    rcases hr with hr | ⟨x, hx, rfl⟩ | hr
    · exact h.routed r (.inl (List.mem_cons_of_mem _ hr))
    · exact .step (h.routed _ (.inl (List.mem_cons_self ..))) (hfresh x hx).1
    · exact h.routed r (.inr hr)
  heads x r hr := by
    rw [List.mem_append, List.mem_map] at hr
    rw [List.mem_append]
    rcases hr with hr | ⟨y, hy, he⟩ | hr
    · exact .inr (h.heads x r (.inl (List.mem_cons_of_mem _ hr)))
    · cases he
      exact .inl hy
    · exact .inr (h.heads x r (.inr hr))
  spent x hx hnone w hw := by
    rcases List.mem_append.1 hx with hx | hx
    · -- A new vertex heads a route of the next level.
      exact absurd (List.mem_append_left _ (List.mem_map.2 ⟨x, hx, rfl⟩)) (hnone (v :: route)).2
    · -- The vertex whose successors were added now has them all seen.
      by_cases hv : x = v
      · exact hall w (hv ▸ hw)
      · have hspent := h.spent x hx (fun r => ⟨?_, ?_⟩) w hw
        · exact ⟨hspent.1, List.mem_append_right _ hspent.2⟩
        · intro hr
          rcases List.mem_cons.1 hr with he | hr
          · cases he
            exact hv rfl
          · exact (hnone r).1 hr
        · intro hr
          exact (hnone r).2 (List.mem_append_right _ hr)

/-- The next level becomes the level. -/
theorem turn (h : Searching g allowed start goal [] next seen) :
    Searching g allowed start goal next.reverse [] seen where
  start_mem := h.start_mem
  bounded := h.bounded
  nodup := h.nodup
  routed r hr := by
    rw [List.mem_reverse] at hr
    exact h.routed r hr.symm
  heads x r hr := by
    rw [List.mem_reverse] at hr
    exact h.heads x r hr.symm
  spent x hx hnone := by
    refine h.spent x hx fun r => ⟨List.not_mem_nil, fun hr => ?_⟩
    exact (hnone r).1 (List.mem_reverse.2 hr)

theorem begin (hlt : start < g.order) : Searching g allowed start goal [[start]] [] [start] where
  start_mem := List.mem_cons_self ..
  bounded x hx := by
    rw [List.mem_singleton.1 hx]
    exact hlt
  nodup := List.pairwise_singleton _ start
  routed r hr := by
    rcases hr with hr | hr
    · rw [List.mem_singleton.1 hr]
      exact .start
    · cases hr
  heads x r hr := by
    rcases hr with hr | hr
    · cases List.mem_singleton.1 hr
      exact List.mem_cons_self ..
    · cases hr
  spent x hx hnone := by
    rw [List.mem_singleton.1 hx] at hnone
    exact absurd (List.mem_cons_self ..) (hnone []).1

/-- When no route is left, no walk leads to the goal. -/
theorem no_walk (h : Searching g allowed start goal [] [] seen) :
    ¬ Relation.TransGen (g.StepIn allowed) start goal := by
  have hspent : ∀ x ∈ seen, ∀ w, g.StepIn allowed x w → w ≠ goal ∧ w ∈ seen :=
    fun x hx => h.spent x hx fun _ => ⟨List.not_mem_nil, List.not_mem_nil⟩
  intro hwalk
  obtain ⟨x, hx, hlast⟩ := Relation.TransGen.tail'_iff.1 hwalk
  -- The walk stays among what was seen, up to its last edge, which cannot lead to the goal.
  have hmem : x ∈ seen := by
    clear hlast
    induction hx with
    | refl => exact h.start_mem
    | tail _ hstep ih => exact (hspent _ ih _ hstep).2
  exact (hspent x hmem goal hlast).1 rfl

end Searching

/-! ## Rounds -/

/-- The first route of a level leads to the goal, or it is extended by all that is new. -/
theorem advance_cons_cases (hlt : v < g.order) (route : Route) (level : List Route) (seen : List Nat)
    (next : List Route) :
    (g.StepIn allowed v goal ∧
      advance g allowed goal ((v :: route) :: level) seen next = .ok (.reached (goal :: v :: route))) ∨
    ∃ fresh : List Nat, advance g allowed goal ((v :: route) :: level) seen next =
        advance g allowed goal level (fresh ++ seen) (fresh.map (· :: v :: route) ++ next) ∧
      fresh.Nodup ∧ (∀ w ∈ fresh, g.StepIn allowed v w ∧ w ∉ seen) ∧
        (∀ w, g.StepIn allowed v w → w ≠ goal ∧ w ∈ fresh ++ seen) ∧
          fresh.reverse.Sublist (g.next v) := by
  have hsome : g.successors[v]? = some g.successors[v] := Array.getElem?_eq_getElem hlt
  have hnext : g.next v = g.successors[v] := by rw [Digraph.next, hsome, Option.getD_some]
  have hstep : ∀ w, g.StepIn allowed v w ↔ w ∈ g.successors[v] ∧ allowed w = true := by
    intro w
    rw [StepIn, Step, hnext]
  rw [advance, hsome]
  rcases extend_extended allowed goal (v :: route) g.successors[v] seen next with
    ⟨hgoal, hok, heq⟩ | ⟨fresh, heq, hnodup, hfresh, hall⟩
  · exact .inl ⟨(hstep goal).2 ⟨hgoal, hok⟩, by simp only [heq]⟩
  · refine .inr ⟨fresh, by simp only [heq], hnodup, fun w hw => ?_, fun w hw => ?_, ?_⟩
    · exact ⟨(hstep w).2 ⟨(hfresh w hw).1, (hfresh w hw).2.1⟩, (hfresh w hw).2.2⟩
    · exact hall w ((hstep w).1 hw).1 hw.2
    · obtain ⟨added, hadded, hsub⟩ := extend_sublist heq
      obtain rfl := List.append_cancel_right hadded
      rw [hnext]
      exact hsub

theorem advance_cases (hclosed : g.Closed)
    (h : Searching g allowed start goal level next seen) :
    (∃ v route, advance g allowed goal level seen next = .ok (.reached (goal :: v :: route)) ∧
      Routed g allowed start (goal :: v :: route)) ∨
    ∃ seen' next', advance g allowed goal level seen next = .ok (.going seen' next') ∧
      Searching g allowed start goal [] next' seen' ∧
      seen'.length + next.length = seen.length + next'.length := by
  -- Each route of the level is extended in turn and keeps the state of the round.
  induction level generalizing seen next with
  | nil => exact .inr ⟨seen, next, rfl, h, rfl⟩
  | cons route level ih =>
    have hroute : Routed g allowed start route := h.routed route (.inl (List.mem_cons_self ..))
    cases route with
    | nil => exact absurd rfl hroute.ne_nil
    | cons v route =>
      have hlt : v < g.order := h.bounded v (h.heads v route (.inl (List.mem_cons_self ..)))
      rcases advance_cons_cases hlt route level seen next with
        ⟨hstep, heq⟩ | ⟨fresh, heq, hnodup, hfresh, hall, -⟩
      · exact .inl ⟨v, route, heq, .step hroute hstep⟩
      · rcases ih (h.extend hclosed hnodup hfresh hall) with
          ⟨v', route', hreached, hrouted⟩ | ⟨seen', next', hgoing, hnew, hlength⟩
        · exact .inl ⟨v', route', heq.trans hreached, hrouted⟩
        · refine .inr ⟨seen', next', heq.trans hgoing, hnew, ?_⟩
          rw [List.length_append, List.length_append, List.length_map] at hlength
          omega

/-- The rounds that are left, each of which sees a new vertex, are more than there are vertices to see; or
there is nothing to extend. -/
def Enough (g : Digraph) (fuel : Nat) (level : List Route) (seen : List Nat) : Prop :=
  level = [] ∨ g.order < fuel + seen.length

theorem Enough.begin : Enough g (g.order + 2) [[start]] [start] := by
  right
  rw [List.length_singleton]
  omega

theorem Enough.level_eq_nil (henough : Enough g 0 level seen)
    (h : Searching g allowed start goal level next seen) : level = [] := by
  have hle := length_le_order h.nodup h.bounded
  exact henough.resolve_right (by omega)

theorem Enough.turn {seen' : List Nat} (h : Enough g (fuel + 1) level seen) (hlevel : level ≠ [])
    (hlength : seen'.length + ([] : List Route).length = seen.length + next.length) :
    Enough g fuel next.reverse seen' := by
  by_cases hnext : next = []
  · left
    rw [hnext, List.reverse_nil]
  · right
    have hpos := List.length_pos_of_ne_nil hnext
    have hmore := h.resolve_left hlevel
    rw [List.length_nil] at hlength
    omega

/-- Every round but the last sees a new vertex, so the rounds do not run out. -/
theorem rounds_cases (hclosed : g.Closed) (fuel : Nat)
    (h : Searching g allowed start goal level [] seen) (henough : Enough g fuel level seen) :
    (∃ v route, rounds g allowed goal fuel level seen = .ok (some (goal :: v :: route)) ∧
      Routed g allowed start (goal :: v :: route)) ∨
    (rounds g allowed goal fuel level seen = .ok none ∧
      ¬ Relation.TransGen (g.StepIn allowed) start goal) := by
  induction fuel generalizing level seen with
  | zero =>
    obtain rfl := henough.level_eq_nil h
    exact .inr ⟨rfl, h.no_walk⟩
  | succ fuel ih =>
    by_cases hlevel : level = []
    · subst hlevel
      exact .inr ⟨rfl, h.no_walk⟩
    · have hempty : level.isEmpty = false := List.isEmpty_eq_false_iff.2 hlevel
      rw [rounds, hempty]
      rcases advance_cases hclosed h with ⟨v, route, heq, hrouted⟩ | ⟨seen', next', heq, hnew, hlength⟩
      · rw [heq]
        exact .inl ⟨v, route, rfl, hrouted⟩
      · rw [heq]
        exact ih hnew.turn (henough.turn hlevel hlength)

/-- The search from a vertex of the graph gives a walk to the goal, or there is none. -/
theorem shortestPath_cases (hclosed : g.Closed) (hlt : start < g.order) (goal : Nat)
    (allowed : Nat → Bool) :
    (∃ v route, Routed g allowed start (goal :: v :: route) ∧
      g.shortestPath start goal allowed =
        .ok (some (if start = goal then (v :: route).reverse else (goal :: v :: route).reverse))) ∨
    (g.shortestPath start goal allowed = .ok none ∧
      ¬ Relation.TransGen (g.StepIn allowed) start goal) := by
  have hbegin : Searching g allowed start goal [[start]] [] [start] := Searching.begin hlt
  rw [shortestPath]
  rcases rounds_cases hclosed (g.order + 2) hbegin .begin with ⟨v, route, heq, hrouted⟩ | ⟨heq, hnone⟩
  · rw [heq]
    exact .inl ⟨v, route, hrouted, rfl⟩
  · rw [heq]
    exact .inr ⟨rfl, hnone⟩

end LayerGate.Digraph
