import LayerGate.Proofs.BreadthFirst

/-!
# The walk that is found is shortest

Each round of the search has the routes of one length.  Before a round all vertices that shorter walks
come to were seen and none of these walks ended at the goal; so the first route to the goal has no more
edges than any walk there.
-/

namespace LayerGate.Digraph

variable {g : Digraph} {allowed : Nat → Bool} {start goal depth fuel v w : Nat} {route : Route}
  {level next : List Route} {seen : List Nat}

/-- The state of the round in which the routes have `depth` edges. -/
structure Deep (g : Digraph) (allowed : Nat → Bool) (start goal depth : Nat) (level next : List Route)
    (seen : List Nat) : Prop extends Searching g allowed start goal level next seen where
  level_length : ∀ route ∈ level, route.length = depth + 1
  next_length : ∀ route ∈ next, route.length = depth + 2
  /-- What is near was seen before the round. -/
  near : ∀ v route, Routed g allowed start (v :: route) → route.length ≤ depth →
    v ∈ seen ∧ ∀ route', v :: route' ∉ next
  far : ∀ v route, Routed g allowed start (goal :: v :: route) → depth ≤ route.length

namespace Deep

theorem begin (hlt : start < g.order) : Deep g allowed start goal 0 [[start]] [] [start] where
  toSearching := Searching.begin hlt
  level_length route h := by
    rw [List.mem_singleton.1 h]
    rfl
  next_length route h := by
    cases h
  near v route h hle := by
    -- A walk without an edge ends where it starts.
    cases h with
    | start => exact ⟨List.mem_cons_self .., fun _ => List.not_mem_nil⟩
    | step => simp at hle
  far v route h := Nat.zero_le _

theorem extend {fresh : List Nat} (h : Deep g allowed start goal depth ((v :: route) :: level) next seen)
    (hclosed : g.Closed) (hnodup : fresh.Nodup)
    (hfresh : ∀ w ∈ fresh, g.StepIn allowed v w ∧ w ∉ seen)
    (hall : ∀ w, g.StepIn allowed v w → w ≠ goal ∧ w ∈ fresh ++ seen) :
    Deep g allowed start goal depth level (fresh.map (· :: v :: route) ++ next) (fresh ++ seen) where
  toSearching := h.toSearching.extend hclosed hnodup hfresh hall
  level_length r hr := h.level_length r (List.mem_cons_of_mem _ hr)
  next_length r hr := by
    rcases List.mem_append.1 hr with hr | hr
    · obtain ⟨w, -, rfl⟩ := List.mem_map.1 hr
      have hlength := h.level_length _ (List.mem_cons_self ..)
      simp only [List.length_cons] at hlength ⊢
      omega
    · exact h.next_length r hr
  near w r hr hle := by
    obtain ⟨hseen, hnot⟩ := h.near w r hr hle
    refine ⟨List.mem_append_right _ hseen, fun r' hr' => ?_⟩
    rcases List.mem_append.1 hr' with hr' | hr'
    · -- The new vertices were not seen before.
      obtain ⟨x, hx, heq⟩ := List.mem_map.1 hr'
      cases heq
      exact (hfresh w hx).2 hseen
    · exact hnot r' hr'
  far := h.far

/-- At the end of a round all walks with one more edge have come to what was seen, and not to the
goal. -/
theorem past (h : Deep g allowed start goal depth [] next seen) {r : Route}
    (hr : Routed g allowed start (v :: r)) (hle : r.length ≤ depth) (hstep : g.StepIn allowed v w) :
    w ≠ goal ∧ w ∈ seen := by
  obtain ⟨hseen, hnot⟩ := h.near v r hr hle
  exact h.spent v hseen (fun r' => ⟨List.not_mem_nil, hnot r'⟩) w hstep

theorem turn (h : Deep g allowed start goal depth [] next seen) :
    Deep g allowed start goal (depth + 1) next.reverse [] seen where
  toSearching := h.toSearching.turn
  level_length r hr := h.next_length r (List.mem_reverse.1 hr)
  next_length r hr := by
    cases hr
  near w r hr hle := by
    refine ⟨?_, fun _ => List.not_mem_nil⟩
    cases hr with
    | start => exact h.start_mem
    | step hr hstep =>
      rw [List.length_cons] at hle
      exact (h.past hr (by omega) hstep).2
  far w r hr := by
    by_contra hlt
    cases hr with
    | step hr hstep => exact (h.past hr (by omega) hstep).1 rfl

end Deep

/-- The route that ends a round is one edge longer than those of its level. -/
theorem advance_deep (hclosed : g.Closed) (h : Deep g allowed start goal depth level next seen) :
    (∃ v route, advance g allowed goal level seen next = .ok (.reached (goal :: v :: route)) ∧
      route.length = depth) ∨
    ∃ seen' next', advance g allowed goal level seen next = .ok (.going seen' next') ∧
      Deep g allowed start goal depth [] next' seen' := by
  -- On the routes of the level, as for what is seen.
  induction level generalizing seen next with
  | nil => exact .inr ⟨seen, next, rfl, h⟩
  | cons route level ih =>
    cases route with
    | nil => exact absurd (h.level_length [] (List.mem_cons_self ..)) nofun
    | cons v route =>
      have hlt : v < g.order := h.bounded v (h.heads v route (.inl (List.mem_cons_self ..)))
      rcases advance_cons_cases hlt route level seen next with
        ⟨-, heq⟩ | ⟨fresh, heq, hnodup, hfresh, hall, -⟩
      · exact .inl ⟨v, route, heq, Nat.succ.inj (h.level_length _ (List.mem_cons_self ..))⟩
      · rw [heq]
        exact ih (h.extend hclosed hnodup hfresh hall)

theorem rounds_shortest (hclosed : g.Closed) (h : Deep g allowed start goal depth level [] seen)
    (hfound : rounds g allowed goal fuel level seen = .ok (some route)) :
    ∀ v r, Routed g allowed start (goal :: v :: r) → route.length ≤ r.length + 2 := by
  induction fuel generalizing depth level seen with
  | zero => cases hfound
  | succ fuel ih =>
    rw [rounds] at hfound
    split at hfound
    · cases hfound
    · rcases advance_deep hclosed h with ⟨v, r, heq, hlength⟩ | ⟨seen', next', heq, hdeep⟩
      · rw [heq] at hfound
        cases hfound
        intro v' r' hr'
        have hfar := h.far v' r' hr'
        simp only [List.length_cons]
        omega
      · rw [heq] at hfound
        exact ih hdeep.turn hfound

theorem shortestPath_eq_some_iff {found : List Nat} :
    g.shortestPath start goal allowed = .ok (some found) ↔
      ∃ route, rounds g allowed goal (g.order + 2) [[start]] [start] = .ok (some route) ∧
        found = if start = goal then (route.drop 1).reverse else route.reverse := by
  rw [shortestPath]
  cases rounds g allowed goal (g.order + 2) [[start]] [start] with
  | error f =>
    constructor
    · intro h
      cases h
    · rintro ⟨_, heq, -⟩
      cases heq
  | ok result =>
    cases result with
    | none =>
      constructor
      · intro h
        cases h
      · rintro ⟨_, heq, -⟩
        cases heq
    | some route =>
      constructor
      · intro h
        exact ⟨route, rfl, (Option.some.inj (Except.ok.inj h)).symm⟩
      · rintro ⟨_, heq, rfl⟩
        cases heq
        rfl

/-- A walk to the goal that the search gives has no more edges than any other. -/
theorem shortestPath_shortest (hclosed : g.Closed) (hlt : start < g.order) {found : List Nat}
    (hfound : g.shortestPath start goal allowed = .ok (some found)) :
    ∀ v r, Routed g allowed start (goal :: v :: r) →
      found.length ≤ r.length + if start = goal then 1 else 2 := by
  obtain ⟨route, hrounds, rfl⟩ := shortestPath_eq_some_iff.1 hfound
  intro v r hr
  have hle := rounds_shortest hclosed (Deep.begin hlt) hrounds v r hr
  -- The route back to its start is given without repeating the start.
  by_cases hsame : start = goal
  · rw [if_pos hsame, if_pos hsame, List.length_reverse, List.length_drop]
    omega
  · rw [if_neg hsame, if_neg hsame, List.length_reverse]
    exact hle

end LayerGate.Digraph
