import Mathlib.Data.Finset.Range
import Mathlib.Data.List.Lex
import LayerGate.Proofs.ShortestPaths

/-!
# The least of the shortest paths

Where all successors are listed in increasing order, each level of the search has its routes in the
lexicographic order of their vertices, and the route to a vertex is the least of the shortest ones.  So
the first route that comes to the goal is the least of all shortest routes there.
-/

namespace LayerGate.Digraph

variable {g : Digraph} {allowed : Nat → Bool} {start goal depth fuel n v w : Nat} {route : Route}
  {done level next : List Route} {seen fresh path : List Nat}

/-! ## Lexicographic order -/

/-- Lists of one length are compared before what is put behind them. -/
theorem concat_lt_concat_iff {as bs : List Nat} {x y : Nat} (h : as.length = bs.length) :
    as ++ [x] < bs ++ [y] ↔ as < bs ∨ as = bs ∧ x < y := by
  -- Where the lists differ first, the order is decided before the end is come to.
  induction as generalizing bs with
  | nil =>
    obtain rfl := List.length_eq_zero_iff.1 h.symm
    simp [List.cons_lt_cons_iff]
  | cons a as ih =>
    cases bs with
    | nil => cases h
    | cons b bs =>
      simp only [List.cons_append, List.cons_lt_cons_iff, ih (Nat.succ.inj h), List.cons.injEq]
      grind

theorem concat_le_concat_iff {as bs : List Nat} {x : Nat} (h : as.length = bs.length) :
    as ++ [x] ≤ bs ++ [x] ↔ as ≤ bs := by
  rw [← not_lt, ← not_lt, not_iff_not]
  refine (concat_lt_concat_iff h.symm).trans (or_iff_left fun hlt => ?_)
  exact Nat.lt_irrefl x hlt.2

/-- Read forwards, the one route comes before the other. -/
def Before (r s : Route) : Prop := r.reverse < s.reverse

theorem before_cons_iff {r s : Route} (h : r.length = s.length) :
    Before (v :: r) (w :: s) ↔ Before r s ∨ r = s ∧ v < w := by
  rw [Before, Before, List.reverse_cons, List.reverse_cons, concat_lt_concat_iff (by simpa using h),
    List.reverse_inj]

theorem not_before_trans {r s t : Route} (hrs : ¬ Before s r) (hst : ¬ Before t s) : ¬ Before t r :=
  not_lt.2 (le_trans (not_lt.1 hrs) (not_lt.1 hst))

/-! ## Levels in order -/

/-- A walk of fewer than `n` edges leads to `v`. -/
def Within (g : Digraph) (allowed : Nat → Bool) (start n v : Nat) : Prop :=
  ∃ route, Routed g allowed start (v :: route) ∧ route.length < n

theorem Within.step (h : Within g allowed start n v) (hstep : g.StepIn allowed v w) :
    Within g allowed start (n + 1) w := by
  obtain ⟨route, hroute, hlt⟩ := h
  exact ⟨v :: route, .step hroute hstep, Nat.succ_lt_succ hlt⟩

/-- The state of a round in which the routes `done` of the level were extended already. -/
structure Ranked (g : Digraph) (allowed : Nat → Bool) (start goal depth : Nat)
    (done level next : List Route) (seen : List Nat) : Prop
    extends Deep g allowed start goal depth level next seen where
  done_length : ∀ route ∈ done, route.length = depth + 1
  level_sorted : (done ++ level).Pairwise Before
  next_sorted : next.Pairwise fun r s => Before s r
  next_from : ∀ w route, w :: route ∈ next → route ∈ done
  known : ∀ v ∈ seen, Within g allowed start (depth + 1) v ∨ ∃ route, v :: route ∈ next
  /-- To a vertex that no shorter walk leads to, the level has the least route. -/
  level_least : ∀ v route, Routed g allowed start (v :: route) → route.length = depth →
    ¬ Within g allowed start depth v →
      ∃ r, v :: r ∈ done ++ level ∧ ¬ Before (v :: route) (v :: r)
  /-- What is stepped to from a route that was extended is reached by the next level, by that route or
  one before it. -/
  next_least : ∀ v route, v :: route ∈ done → ∀ w, g.StepIn allowed v w → w ≠ goal ∧
    (Within g allowed start (depth + 1) w ∨ ∃ r, w :: r ∈ next ∧ ¬ Before (v :: route) r)

namespace Ranked

theorem begin (hlt : start < g.order) : Ranked g allowed start goal 0 [] [[start]] [] [start] where
  toDeep := Deep.begin hlt
  done_length r hr := by cases hr
  level_sorted := List.pairwise_singleton _ _
  next_sorted := List.Pairwise.nil
  next_from w r hr := by cases hr
  known v hv := by
    rw [List.mem_singleton.1 hv]
    exact .inl ⟨[], .start, Nat.zero_lt_one⟩
  level_least v r hr hlength _ := by
    obtain rfl := List.length_eq_zero_iff.1 hlength
    cases hr
    exact ⟨[], List.mem_singleton.2 rfl, List.lt_irrefl _⟩
  next_least v r hr := by cases hr

/-- The new vertices extend the route in increasing order, behind all routes that were extended before. -/
theorem extend (h : Ranked g allowed start goal depth done ((v :: route) :: level) next seen)
    (hclosed : g.Closed) (hsorted : (g.next v).Pairwise (· ≤ ·)) (hnodup : fresh.Nodup)
    (hfresh : ∀ w ∈ fresh, g.StepIn allowed v w ∧ w ∉ seen)
    (hall : ∀ w, g.StepIn allowed v w → w ≠ goal ∧ w ∈ fresh ++ seen)
    (hsub : fresh.reverse.Sublist (g.next v)) :
    Ranked g allowed start goal depth (done ++ [v :: route]) level
      (fresh.map (· :: v :: route) ++ next) (fresh ++ seen) where
  toDeep := h.toDeep.extend hclosed hnodup hfresh hall
  done_length r hr := by
    rcases List.mem_append.1 hr with hr | hr
    · exact h.done_length r hr
    · rw [List.mem_singleton.1 hr]
      exact h.level_length _ (List.mem_cons_self ..)
  level_sorted := by simpa using h.level_sorted
  next_sorted := by
    -- `next` is collected backwards, so the new vertices stand in it from the greatest on.
    have hdescending : fresh.Pairwise fun w w' => w' < w := by
      have hle := List.pairwise_reverse.1 (hsorted.sublist hsub)
      exact (hle.and hnodup).imp fun hlt => Nat.lt_of_le_of_ne hlt.1 hlt.2.symm
    refine List.pairwise_append.2 ⟨?_, h.next_sorted, ?_⟩
    · rw [List.pairwise_map]
      exact hdescending.imp fun hlt => (before_cons_iff rfl).2 (.inr ⟨rfl, hlt⟩)
    · intro r hr s hs
      obtain ⟨w, -, rfl⟩ := List.mem_map.1 hr
      -- A route of the next level extends one that stands before `v :: route`.
      cases s with
      | nil => exact absurd (h.next_length _ hs) nofun
      | cons w' s =>
        have hmem := h.next_from w' s hs
        have hlength := h.level_length _ (List.mem_cons_self ..)
        rw [before_cons_iff ((h.done_length s hmem).trans hlength.symm)]
        exact .inl ((List.pairwise_append.1 h.level_sorted).2.2 s hmem _ (List.mem_cons_self ..))
  next_from w r hr := by
    rcases List.mem_append.1 hr with hr | hr
    · obtain ⟨x, -, heq⟩ := List.mem_map.1 hr
      cases heq
      exact List.mem_append_right _ (List.mem_singleton.2 rfl)
    · exact List.mem_append_left _ (h.next_from w r hr)
  known x hx := by
    rcases List.mem_append.1 hx with hx | hx
    · exact .inr ⟨_, List.mem_append_left _ (List.mem_map_of_mem hx)⟩
    · exact (h.known x hx).imp_right fun ⟨r, hr⟩ => ⟨r, List.mem_append_right _ hr⟩
  level_least := by simpa using h.level_least
  next_least x r hr w hstep := by
    rcases List.mem_append.1 hr with hr | hr
    · obtain ⟨hgoal, hor⟩ := h.next_least x r hr w hstep
      exact ⟨hgoal, hor.imp_right fun ⟨r', hr', hle⟩ => ⟨r', List.mem_append_right _ hr', hle⟩⟩
    · cases List.mem_singleton.1 hr
      obtain ⟨hgoal, hmem⟩ := hall w hstep
      refine ⟨hgoal, ?_⟩
      rcases List.mem_append.1 hmem with hmem | hmem
      · exact .inr ⟨_, List.mem_append_left _ (List.mem_map_of_mem hmem), List.lt_irrefl _⟩
      · refine (h.known w hmem).imp_right fun ⟨r', hr'⟩ => ⟨r', List.mem_append_right _ hr', ?_⟩
        -- Whoever saw the vertex first stands before `v :: route`.
        have hbefore := (List.pairwise_append.1 h.level_sorted).2.2 r' (h.next_from w r' hr') _
          (List.mem_cons_self ..)
        exact fun hafter => List.lt_asymm hbefore hafter

theorem turn (h : Ranked g allowed start goal depth done [] next seen) :
    Ranked g allowed start goal (depth + 1) [] next.reverse [] seen where
  toDeep := h.toDeep.turn
  done_length r hr := by cases hr
  level_sorted := by
    rw [List.nil_append, List.pairwise_reverse]
    exact h.next_sorted
  next_sorted := List.Pairwise.nil
  next_from w r hr := by cases hr
  known x hx := by
    left
    rcases h.known x hx with ⟨r, hr, hlt⟩ | ⟨r, hr⟩
    · exact ⟨r, hr, Nat.lt_succ_of_lt hlt⟩
    · have hlength := h.next_length _ hr
      exact ⟨r, h.routed _ (.inr hr), Nat.lt_succ_of_le (Nat.succ.inj hlength).le⟩
  level_least w r hr hlength hfar := by
    cases hr with
    | start => cases hlength
    | @step u _ r hr hstep =>
      -- The walk up to `u` is no better than the route of the level, and its last step no better than
      -- the route of the next level.
      have hu : ¬ Within g allowed start depth u := fun hnear => hfar (hnear.step hstep)
      obtain ⟨r', hr', hle⟩ := h.level_least u r hr (Nat.succ.inj hlength) hu
      rw [List.append_nil] at hr'
      obtain ⟨r'', hr'', hle'⟩ := ((h.next_least u r' hr' w hstep).2).resolve_left hfar
      refine ⟨r'', by simpa using hr'', fun hbefore => ?_⟩
      have hlength' := h.done_length r'' (h.next_from w r'' hr'')
      rcases (before_cons_iff (by rw [hlength, hlength'])).1 hbefore with hlt | ⟨-, hlt⟩
      · exact not_before_trans hle' hle hlt
      · exact Nat.lt_irrefl w hlt
  next_least x r hr := by cases hr

/-- The first route that comes to the goal is the least of the routes of its length. -/
theorem reached_least (h : Ranked g allowed start goal depth done ((v :: route) :: level) next seen)
    {u : Nat} {r : Route} (hr : Routed g allowed start (goal :: u :: r)) (hlength : r.length = depth) :
    ¬ Before (goal :: u :: r) (goal :: v :: route) := by
  have hroute : (v :: route).length = depth + 1 := h.level_length _ (List.mem_cons_self ..)
  cases hr with
  | step hr hstep =>
    -- No shorter walk leads to `u`, or one would lead to the goal.
    have hu : ¬ Within g allowed start depth u := by
      rintro ⟨r', hr', hlt⟩
      have hle := h.far u r' (.step hr' hstep)
      omega
    obtain ⟨r', hr', hle⟩ := h.level_least u r hr hlength hu
    have hfirst : ¬ Before (u :: r') (v :: route) := by
      rcases List.mem_append.1 hr' with hr' | hr'
      · -- What was extended before does not step to the goal.
        exact absurd rfl (h.next_least u r' hr' goal hstep).1
      · rcases List.mem_cons.1 hr' with heq | hr'
        · rw [heq]
          exact List.lt_irrefl _
        · have hsorted := (List.pairwise_append.1 h.level_sorted).2.1
          exact fun hafter => List.lt_asymm ((List.pairwise_cons.1 hsorted).1 _ hr') hafter
    rw [before_cons_iff (by rw [hroute, List.length_cons, hlength])]
    rintro (hlt | ⟨-, hlt⟩)
    · exact not_before_trans hfirst hle hlt
    · exact Nat.lt_irrefl goal hlt

end Ranked

/-! ## The route that is found -/

/-- Each vertex has its successors in increasing order. -/
def Sorted (g : Digraph) : Prop := ∀ v, (g.next v).Pairwise (· ≤ ·)

theorem advance_ranked (hclosed : g.Closed) (hsorted : g.Sorted)
    (h : Ranked g allowed start goal depth done level next seen) :
    (∃ v route, advance g allowed goal level seen next = .ok (.reached (goal :: v :: route)) ∧
      route.length = depth ∧ ∀ u r, Routed g allowed start (goal :: u :: r) → r.length = depth →
        ¬ Before (goal :: u :: r) (goal :: v :: route)) ∨
    ∃ done' seen' next', advance g allowed goal level seen next = .ok (.going seen' next') ∧
      Ranked g allowed start goal depth done' [] next' seen' := by
  -- The first route of the level that steps to the goal ends the round; the others are extended.
  induction level generalizing done seen next with
  | nil => exact .inr ⟨done, seen, next, rfl, h⟩
  | cons route level ih =>
    cases route with
    | nil => exact absurd (h.level_length [] (List.mem_cons_self ..)) nofun
    | cons v route =>
      have hlt : v < g.order := h.bounded v (h.heads v route (.inl (List.mem_cons_self ..)))
      rcases advance_cons_cases hlt route level seen next with
        ⟨-, heq⟩ | ⟨fresh, heq, hnodup, hfresh, hall, hsub⟩
      · refine .inl ⟨v, route, heq, Nat.succ.inj (h.level_length _ (List.mem_cons_self ..)), ?_⟩
        exact fun u r hr hlength => h.reached_least hr hlength
      · rw [heq]
        exact ih (h.extend hclosed (hsorted v) hnodup hfresh hall hsub)

theorem rounds_least (hclosed : g.Closed) (hsorted : g.Sorted)
    (h : Ranked g allowed start goal depth done level [] seen)
    (hfound : rounds g allowed goal fuel level seen = .ok (some route)) :
    ∀ v r, Routed g allowed start (goal :: v :: r) → (goal :: v :: r).length = route.length →
      ¬ Before (goal :: v :: r) route := by
  -- A round that does not end the search leaves the next level ranked.
  induction fuel generalizing depth done level seen with
  | zero => cases hfound
  | succ fuel ih =>
    rw [rounds] at hfound
    split at hfound
    · cases hfound
    · rcases advance_ranked hclosed hsorted h with
        ⟨v, r, heq, hlength, hleast⟩ | ⟨done', seen', next', heq, hranked⟩
      · rw [heq] at hfound
        cases hfound
        intro u r' hr' hsame
        refine hleast u r' hr' ?_
        simp only [List.length_cons] at hsame
        omega
      · rw [heq] at hfound
        exact ih hranked.turn hfound

/-! ## Edges that end nowhere -/

/-- The graph with `n` more vertices that have no successors. -/
def padded (g : Digraph) (n : Nat) : Digraph := ⟨g.successors ++ Array.replicate n []⟩

theorem next_padded (g : Digraph) (n v : Nat) : (g.padded n).next v = g.next v := by
  by_cases hv : v < g.successors.size
  · rw [next, next, padded, Array.getElem?_append_left hv]
  · rw [next_of_le (g := g) (Nat.le_of_not_lt hv), next, padded,
      Array.getElem?_append_right (Nat.le_of_not_lt hv), Array.getElem?_replicate]
    split
    · rfl
    · rfl

theorem stepIn_padded : (g.padded n).StepIn allowed = g.StepIn allowed := by
  funext v w
  simp only [StepIn, Step, next_padded]

/-- What a round comes to is found among more vertices too. -/
theorem advance_padded {result : Round}
    (h : advance g allowed goal level seen next = .ok result) :
    advance (g.padded n) allowed goal level seen next = .ok result := by
  induction level generalizing seen next with
  | nil => exact h
  | cons route level ih =>
    cases route with
    | nil => exact ih h
    | cons v route =>
      rw [advance] at h ⊢
      split at h
      · cases h
      · rename_i ws hws
        have hsome : (g.padded n).successors[v]? = some ws := by
          obtain ⟨hlt, -⟩ := Array.getElem?_eq_some_iff.1 hws
          rw [padded, Array.getElem?_append_left hlt, hws]
        rw [hsome]
        cases hextend : extend allowed goal (v :: route) ws seen next with
        | reached r =>
          rw [hextend] at h
          simpa only [hextend] using h
        | going seen' next' =>
          rw [hextend] at h
          simpa only [hextend] using ih h

theorem rounds_padded {fuel' : Nat} (h : rounds g allowed goal fuel level seen = .ok (some route))
    (hle : fuel ≤ fuel') : rounds (g.padded n) allowed goal fuel' level seen = .ok (some route) := by
  induction fuel generalizing level seen fuel' with
  | zero => cases h
  | succ fuel ih =>
    cases fuel' with
    | zero => omega
    | succ fuel' =>
      rw [rounds] at h ⊢
      split at h
      · cases h
      · rw [if_neg ‹_›]
        cases hadvance : advance g allowed goal level seen [] with
        | error f =>
          rw [hadvance] at h
          cases h
        | ok result =>
          rw [hadvance] at h
          rw [advance_padded hadvance]
          cases result with
          | reached r => exact h
          | going seen' next' => exact ih h (Nat.le_of_succ_le_succ hle)

theorem shortestPath_padded (h : g.shortestPath start goal allowed = .ok (some path)) :
    (g.padded n).shortestPath start goal allowed = .ok (some path) := by
  obtain ⟨route, hroute, hpath⟩ := shortestPath_eq_some_iff.1 h
  refine shortestPath_eq_some_iff.2 ⟨route, rounds_padded hroute ?_, hpath⟩
  simp [padded, order]

/-- Enough more vertices make an end of every edge, and of the start. -/
theorem exists_closed_padded (g : Digraph) (start : Nat) :
    ∃ n, (g.padded n).Closed ∧ start < (g.padded n).order := by
  obtain ⟨n, hn⟩ := Finset.exists_nat_subset_range (start :: g.successors.toList.flatten).toFinset
  have hbound : ∀ v ∈ start :: g.successors.toList.flatten, v < n := fun v hv =>
    Finset.mem_range.1 (hn (List.mem_toFinset.2 hv))
  have horder : n ≤ (g.padded n).order := by simp [padded, order]
  refine ⟨n, fun v w hw => ?_, ?_⟩
  · rw [next_padded] at hw
    refine Nat.lt_of_lt_of_le (hbound w (List.mem_cons_of_mem _ (List.mem_flatten.2 ?_))) horder
    -- The successors of `v` are among all that are listed.
    by_cases hv : v < g.successors.size
    · rw [next, Array.getElem?_eq_getElem hv] at hw
      exact ⟨_, Array.getElem_mem_toList hv, hw⟩
    · rw [next_of_le (Nat.le_of_not_lt hv)] at hw
      cases hw
  · exact Nat.lt_of_lt_of_le (hbound start (List.mem_cons_self ..)) horder

/-! ## The path that is found -/

/-- In a graph whose edges end at vertices the walk that is found is the least of the shortest ones. -/
theorem exists_least_walk_of_closed (hclosed : g.Closed) (hlt : start < g.order) (hsorted : g.Sorted)
    (h : g.shortestPath start goal allowed = .ok (some path)) :
    ∃ walk, IsLeastWalk (g.StepIn allowed) start goal walk ∧
      start :: walk = if start = goal then path ++ [goal] else path := by
  obtain ⟨-, walk, hshortest, hwalk⟩ := isShortestPath_of_shortestPath hclosed hlt h
  refine ⟨walk, ⟨hshortest, fun walk' hshortest' => ?_⟩, hwalk⟩
  obtain ⟨u, r, hrouted, hreverse'⟩ := isWalk_iff_routed.1 hshortest'.toIsWalk
  obtain ⟨route, hroute, hpath⟩ := shortestPath_eq_some_iff.1 h
  have hreverse : route.reverse = start :: walk := by
    rcases rounds_cases hclosed (g.order + 2) (Searching.begin hlt) .begin with ⟨v, r₀, heq, -⟩ | ⟨heq, -⟩
    · rw [hroute] at heq
      obtain rfl := Option.some.inj (Except.ok.inj heq)
      rw [hwalk, hpath]
      split
      · exact List.reverse_cons
      · rfl
    · rw [hroute] at heq
      cases heq
  -- Both walks have the same length, so their routes can be compared.
  have hlength : walk.length = walk'.length :=
    Nat.le_antisymm (hshortest.shortest walk' hshortest'.toIsWalk)
      (hshortest'.shortest walk hshortest.toIsWalk)
  have hroutes : (goal :: u :: r).length = route.length := by
    have hone := congrArg List.length hreverse
    have hother := congrArg List.length hreverse'
    rw [List.length_reverse] at hone hother
    rw [hone, hother, List.length_cons, List.length_cons, hlength]
  have hle : start :: walk ≤ start :: walk' := by
    rw [← hreverse, ← hreverse']
    exact not_lt.1 (rounds_least hclosed hsorted (Ranked.begin hlt) hroute u r hrouted hroutes)
  rw [← not_lt, List.cons_lt_cons_iff] at hle
  exact fun hbefore => hle (.inr ⟨rfl, hbefore⟩)

/-- Where all successors are in increasing order, the walk that is found is the least of the shortest
ones, whatever vertices the edges name. -/
theorem exists_least_walk (hsorted : g.Sorted)
    (h : g.shortestPath start goal allowed = .ok (some path)) :
    ∃ walk, IsLeastWalk (g.StepIn allowed) start goal walk ∧
      start :: walk = if start = goal then path ++ [goal] else path := by
  obtain ⟨n, hclosed, hlt⟩ := exists_closed_padded g start
  have hsorted' : (g.padded n).Sorted := fun v => by
    rw [next_padded]
    exact hsorted v
  have hfound := exists_least_walk_of_closed hclosed hlt hsorted' (shortestPath_padded h)
  rwa [stepIn_padded] at hfound

/-- A path that is found is the least of the shortest ones. -/
theorem least_of_shortestPath (hsorted : g.Sorted)
    (h : g.shortestPath start goal allowed = .ok (some path)) :
    g.IsShortestPath allowed start goal path ∧
      ∀ other, g.IsShortestPath allowed start goal other → path ≤ other := by
  obtain ⟨walk, hleast, hwalk⟩ := exists_least_walk hsorted h
  refine ⟨⟨walk, hleast.toIsShortestWalk, hwalk⟩, ?_⟩
  rintro other ⟨walk', hshortest', hwalk'⟩
  have hle : start :: walk ≤ start :: walk' := by
    rw [← not_lt, List.cons_lt_cons_iff]
    rintro (hlt | ⟨-, hlt⟩)
    · exact Nat.lt_irrefl start hlt
    · exact hleast.least walk' hshortest' hlt
  have hlength : walk.length = walk'.length :=
    Nat.le_antisymm (hleast.shortest walk' hshortest'.toIsWalk)
      (hshortest'.shortest walk hleast.toIsWalk)
  rw [hwalk, hwalk'] at hle
  split at hle
  · refine (concat_le_concat_iff ?_).1 hle
    have hsame := congrArg List.length hwalk
    have hsame' := congrArg List.length hwalk'
    simp only [if_pos ‹start = goal›, List.length_cons, List.length_append, List.length_nil]
      at hsame hsame'
    omega
  · exact hle

end LayerGate.Digraph
