import Mathlib.Data.List.Chain
import Mathlib.Data.List.Nodup
import LayerGate.Proofs.ShortestWalk

/-!
# Walks

Walks along any relation, and those that no other undercuts.  The routes of the search, read forwards, are
the walks along allowed vertices.  A route that repeats a vertex can be cut short, so one that is shortest
repeats none.
-/

namespace LayerGate

section

variable {α : Type} {r : α → α → Prop} {start goal : α} {walk : List α}

/-- What comes after `start` on a walk of one step or more from `start` to `goal`. -/
structure IsWalk (r : α → α → Prop) (start goal : α) (walk : List α) : Prop where
  steps : (start :: walk).IsChain r
  ends : walk.getLast? = some goal

theorem IsWalk.transGen (h : IsWalk r start goal walk) : Relation.TransGen r start goal := by
  induction walk generalizing start with
  | nil => cases h.ends
  | cons a walk ih =>
    obtain ⟨hstep, hrest⟩ := List.isChain_cons_cons.1 h.steps
    cases walk with
    | nil =>
      obtain rfl := Option.some.inj h.ends
      exact .single hstep
    | cons b walk =>
      have hends := h.ends
      rw [List.getLast?_cons_cons] at hends
      exact (ih ⟨hrest, hends⟩).head hstep

/-- No walk between the same ends has fewer steps. -/
structure IsShortestWalk (r : α → α → Prop) (start goal : α) (walk : List α) : Prop
    extends IsWalk r start goal walk where
  shortest : ∀ other, IsWalk r start goal other → walk.length ≤ other.length

/-- Of the shortest walks between the same ends none comes before it in lexicographic order. -/
structure IsLeastWalk [LT α] (r : α → α → Prop) (start goal : α) (walk : List α) : Prop
    extends IsShortestWalk r start goal walk where
  least : ∀ other, IsShortestWalk r start goal other → ¬ other < walk

end

namespace Digraph

variable {g : Digraph} {allowed : Nat → Bool} {start goal v w : Nat} {route : Route} {walk : List Nat}

/-! ## Routes -/

/-- A route is a chain of steps to allowed vertices, read backwards. -/
theorem routed_iff : Routed g allowed start route ↔
    route.IsChain (fun w v => g.StepIn allowed v w) ∧ route.getLast? = some start := by
  constructor
  · intro h
    induction h with
    | start => exact ⟨List.isChain_singleton _, rfl⟩
    | step _ hstep ih =>
      exact ⟨List.isChain_cons_cons.2 ⟨hstep, ih.1⟩, by rw [List.getLast?_cons_cons, ih.2]⟩
  · rintro ⟨hchain, hlast⟩
    induction route with
    | nil => cases hlast
    | cons w rest ih =>
      cases rest with
      | nil =>
        obtain rfl : w = start := Option.some.inj hlast
        exact .start
      | cons v rest =>
        rw [List.isChain_cons_cons] at hchain
        rw [List.getLast?_cons_cons] at hlast
        exact .step (ih hchain.2 hlast) hchain.1

/-- The part of a route up to one of its vertices is a route to that vertex. -/
theorem Routed.upTo (h : Routed g allowed start route) (hv : v ∈ route) :
    ∃ r, Routed g allowed start (v :: r) ∧ (v :: r) <:+ route := by
  induction h with
  | start =>
    obtain rfl := List.mem_singleton.1 hv
    exact ⟨[], .start, List.suffix_refl _⟩
  | step hroute hstep ih =>
    rcases List.mem_cons.1 hv with rfl | hv
    · exact ⟨_, .step hroute hstep, List.suffix_refl _⟩
    · obtain ⟨r, hr, hsuffix⟩ := ih hv
      exact ⟨r, hr, hsuffix.trans (List.suffix_cons ..)⟩

/-- Among the vertices of a route there is a route to its last vertex that repeats none. -/
theorem Routed.exists_nodup (h : Routed g allowed start (v :: route)) :
    ∃ r, Routed g allowed start (v :: r) ∧ (v :: r).Nodup ∧ r.Sublist route := by
  generalize he : v :: route = whole at h
  induction h generalizing v route with
  | start =>
    cases he
    exact ⟨[], .start, List.nodup_singleton _, List.Sublist.refl _⟩
  | @step u w rest hroute hstep ih =>
    obtain ⟨rfl, rfl⟩ := List.cons.inj he
    obtain ⟨r, hr, hnodup, hsub⟩ := ih rfl
    have hsub' : (u :: r).Sublist (u :: rest) := hsub.cons_cons u
    by_cases hmem : v ∈ u :: r
    · -- The route came by its last vertex before.
      obtain ⟨r', hr', hsuffix⟩ := hr.upTo hmem
      exact ⟨r', hr', hnodup.sublist hsuffix.sublist,
        ((List.sublist_cons_self v r').trans hsuffix.sublist).trans hsub'⟩
    · exact ⟨u :: r, .step hr hstep, List.nodup_cons.2 ⟨hmem, hnodup⟩, hsub'⟩

/-- A route that no other to the same vertex undercuts repeats no vertex. -/
theorem Routed.nodup_of_least (h : Routed g allowed start (v :: route))
    (hmin : ∀ r, Routed g allowed start (v :: r) → route.length ≤ r.length) : (v :: route).Nodup := by
  obtain ⟨r, hr, hnodup, hsub⟩ := h.exists_nodup
  obtain rfl := hsub.eq_of_length_le (hmin r hr)
  exact hnodup

/-- Only the vertices after the first have to be allowed. -/
theorem Routed.restrict {among : Nat → Bool} (h : Routed g allowed start route)
    (hall : ∀ v ∈ route, among v = true) : Routed g among start route := by
  induction h with
  | start => exact .start
  | step _ hstep ih =>
    exact .step (ih fun u hu => hall u (List.mem_cons_of_mem _ hu))
      ⟨hstep.1, hall _ (List.mem_cons_self ..)⟩

/-! ## Walks -/

/-- A walk is a route read forwards. -/
theorem isWalk_iff_routed : IsWalk (g.StepIn allowed) start goal walk ↔
    ∃ v r, Routed g allowed start (goal :: v :: r) ∧ (goal :: v :: r).reverse = start :: walk := by
  constructor
  · rintro ⟨hsteps, hends⟩
    obtain ⟨front, rfl⟩ := List.getLast?_eq_some_iff.1 hends
    have hreverse : (start :: (front ++ [goal])).reverse = goal :: (start :: front).reverse := by
      rw [← List.cons_append, List.reverse_append]
      rfl
    cases hrest : (start :: front).reverse with
    | nil => simp at hrest
    | cons v r =>
      rw [hrest] at hreverse
      refine ⟨v, r, routed_iff.2 ⟨?_, ?_⟩, ?_⟩
      · rw [← hreverse, List.isChain_reverse]
        exact hsteps
      · rw [← hreverse, List.getLast?_reverse]
        rfl
      · rw [← hreverse, List.reverse_reverse]
  · rintro ⟨v, r, hrouted, hreverse⟩
    obtain ⟨hchain, -⟩ := routed_iff.1 hrouted
    refine ⟨?_, ?_⟩
    · rw [← hreverse, List.isChain_reverse]
      exact hchain
    · have hlast : (start :: walk).getLast? = some goal := by
        rw [← hreverse, List.getLast?_reverse]
        rfl
      cases walk with
      | nil => simpa using congrArg List.length hreverse
      | cons w walk => rwa [List.getLast?_cons_cons] at hlast

end Digraph

end LayerGate
