import Mathlib.Data.List.Nodup
import LayerGate.Proofs.LinkSearch

/-!
# Shortest paths

For every graph whose edges end at vertices the search gives a path that is simple and that no walk
undercuts, or there is no walk at all.
-/

namespace LayerGate.Digraph

variable {g : Digraph} {allowed : Nat → Bool} {start goal v : Nat} {route : Route} {path : List Nat}

/-- The vertices of a shortest walk in their order; a walk back to its start is given without the start
at its end. -/
def IsShortestPath (g : Digraph) (allowed : Nat → Bool) (start goal : Nat) (path : List Nat) : Prop :=
  ∃ walk, IsShortestWalk (g.StepIn allowed) start goal walk ∧
    start :: walk = if start = goal then path ++ [goal] else path

theorem Routed.exists_walk (h : Routed g allowed start (goal :: v :: route)) :
    ∃ walk, (goal :: v :: route).reverse = start :: walk ∧
      IsWalk (g.StepIn allowed) start goal walk := by
  obtain ⟨front, hfront⟩ := List.getLast?_eq_some_iff.1 (routed_iff.1 h).2
  have hreverse : (goal :: v :: route).reverse = start :: front.reverse := by
    rw [hfront, List.reverse_append]
    rfl
  exact ⟨_, hreverse, isWalk_iff_routed.2 ⟨v, route, h, hreverse⟩⟩

/-- A route to the goal that no other undercuts repeats no vertex, save that it may end where it
starts. -/
theorem Routed.nodup_of_shortest (h : Routed g allowed start (goal :: v :: route))
    (hmin : ∀ u r, Routed g allowed start (goal :: u :: r) → route.length ≤ r.length) :
    if start = goal then (v :: route).Nodup else (goal :: v :: route).Nodup := by
  split
  · cases h with
    | step hbefore hstep => exact hbefore.nodup_of_least fun r hr => hmin v r (.step hr hstep)
  · rename_i hne
    refine h.nodup_of_least fun r hr => ?_
    cases r with
    | nil =>
      cases hr
      exact absurd rfl hne
    | cons u r => exact Nat.succ_le_succ (hmin u r hr)

/-- What the search gives is a simple shortest path. -/
theorem isShortestPath_of_shortestPath (hclosed : g.Closed) (hlt : start < g.order)
    (h : g.shortestPath start goal allowed = .ok (some path)) :
    path.Nodup ∧ g.IsShortestPath allowed start goal path := by
  rcases shortestPath_cases hclosed hlt goal allowed with ⟨v, route, hrouted, heq⟩ | ⟨hnone, -⟩
  · rw [h] at heq
    obtain rfl := Option.some.inj (Except.ok.inj heq)
    obtain ⟨walk, hreverse, hwalk⟩ := hrouted.exists_walk
    have hmin : ∀ u r, Routed g allowed start (goal :: u :: r) → route.length ≤ r.length := by
      intro u r hr
      have hle := shortestPath_shortest hclosed hlt h u r hr
      split at hle
      · simpa using hle
      · simpa using hle
    refine ⟨?_, walk, ⟨hwalk, fun other hother => ?_⟩, ?_⟩
    · have hnodup := hrouted.nodup_of_shortest hmin
      split
      · rw [if_pos ‹_›] at hnodup
        exact List.nodup_reverse.2 hnodup
      · rw [if_neg ‹_›] at hnodup
        exact List.nodup_reverse.2 hnodup
    · obtain ⟨u, r, hr, hother⟩ := isWalk_iff_routed.1 hother
      have hle := hmin u r hr
      have hlength := congrArg List.length hreverse
      have hlength' := congrArg List.length hother
      simp only [List.length_reverse, List.length_cons] at hlength hlength'
      omega
    · split
      · rw [← hreverse, List.reverse_cons]
      · exact hreverse.symm
  · rw [h] at hnone
    cases hnone

/-- Whatever the goal and the vertices that are allowed, the search from a vertex answers, and so does the
loop that keeps a queue and links.  The answer is none just if there is no walk, and any path that is
given is simple and that of a shortest walk. -/
theorem shortestPath_correct (hclosed : g.Closed) (hlt : start < g.order) (goal : Nat)
    (allowed : Nat → Bool) :
    ∃ answer, g.shortestPath start goal allowed = .ok answer ∧
      Quest.Leads g allowed start goal (.pick [start] []) (.done answer) ∧
      (answer = none ↔ ¬ ∃ walk, IsWalk (g.StepIn allowed) start goal walk) ∧
      ∀ path, answer = some path → path.Nodup ∧ g.IsShortestPath allowed start goal path := by
  obtain ⟨answer, hanswer, hleads⟩ := Quest.leads_shortestPath hclosed hlt goal allowed
  refine ⟨answer, hanswer, hleads, ?_, ?_⟩
  · rcases shortestPath_cases hclosed hlt goal allowed with ⟨v, route, hrouted, heq⟩ | ⟨heq, hno⟩
    · obtain ⟨walk, -, hwalk⟩ := hrouted.exists_walk
      rw [hanswer] at heq
      obtain rfl := Except.ok.inj heq
      exact iff_of_false nofun fun hnone => hnone ⟨walk, hwalk⟩
    · rw [hanswer] at heq
      obtain rfl := Except.ok.inj heq
      exact iff_of_true rfl fun ⟨walk, hwalk⟩ => hno hwalk.transGen
  · rintro path rfl
    exact isShortestPath_of_shortestPath hclosed hlt hanswer

/-- Two ways from 0 to 4, one of them a step shorter and with a loop on it, and a way back to 0. -/
def detour : Digraph := .ofLists [[1, 3], [2], [4], [4, 3], [0]]

theorem shortestPath_correct_detour :
    detour.Closed ∧ 0 < detour.order ∧
      ([0, 3, 4].Nodup ∧ detour.IsShortestPath (fun _ => true) 0 4 [0, 3, 4]) ∧
      [0, 3, 4].Nodup ∧ detour.IsShortestPath (fun _ => true) 0 0 [0, 3, 4] := by
  have hclosed : detour.Closed := by decide +kernel
  have hlt : 0 < detour.order := by decide
  have hthere : detour.shortestPath 0 4 (fun _ => true) = .ok (some [0, 3, 4]) := by decide +kernel
  have hback : detour.shortestPath 0 0 (fun _ => true) = .ok (some [0, 3, 4]) := by decide +kernel
  refine ⟨hclosed, hlt, ?_, ?_⟩
  · obtain ⟨answer, heq, -, -, hpath⟩ := shortestPath_correct hclosed hlt 4 fun _ => true
    exact hpath _ (Except.ok.inj (heq.symm.trans hthere))
  · obtain ⟨answer, heq, -, -, hpath⟩ := shortestPath_correct hclosed hlt 0 fun _ => true
    exact hpath _ (Except.ok.inj (heq.symm.trans hback))

end LayerGate.Digraph
