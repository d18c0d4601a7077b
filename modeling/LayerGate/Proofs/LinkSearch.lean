import LayerGate.Proofs.Walks

/-!
# The breadth-first search as a loop

The search can be done with one queue of vertices and a link from each vertex to the one it was reached
from.  Once the goal is met, the links lead back to the start.  The loop comes to an end, with the
answer of the search that carries whole routes.
-/

namespace LayerGate.Digraph

/-! ## The loop -/

/-- What the loop does next. -/
inductive Quest where
  /-- It takes a vertex from the front of the queue. -/
  | pick (queue : List Nat) (links : List (Nat × Nat))
  /-- It looks at the successors of a vertex that are left. -/
  | scan (vertex : Nat) (unmet queue : List Nat) (links : List (Nat × Nat))
  /-- It follows the link of the first vertex of a path to the goal. -/
  | goBack (path : List Nat) (links : List (Nat × Nat))
  | done (answer : Option (List Nat))

namespace Quest

/-- One round.  A queue that names no vertex and a vertex without a link end the loop without an
answer. -/
def step (g : Digraph) (allowed : Nat → Bool) (start goal : Nat) : Quest → Option Quest
  | pick [] _ => some (done none)
  | pick (v :: queue) links => (g.successors[v]?).map fun ws => scan v ws queue links
  | scan _ [] queue links => some (pick queue links)
  | scan v (w :: ws) queue links =>
    if !allowed w then some (scan v ws queue links)
    else if w = goal then some (goBack [v] links)
    else if w = start ∨ (links.lookup w).isSome then some (scan v ws queue links)
    else some (scan v ws (queue ++ [w]) ((w, v) :: links))
  | goBack [] _ => none
  | goBack (v :: path) links =>
    if v = start then
      some (done (some (if start = goal then v :: path else v :: path ++ [goal])))
    else (links.lookup v).map fun u => goBack (u :: v :: path) links
  | done _ => none

/-- Some rounds lead from the one to the other. -/
def Leads (g : Digraph) (allowed : Nat → Bool) (start goal : Nat) : Quest → Quest → Prop :=
  Relation.ReflTransGen fun q q' => step g allowed start goal q = some q'

end Quest

variable {g : Digraph} {allowed : Nat → Bool} {start goal fuel u v w : Nat} {route : Route}
  {level next : List Route} {seen queue path ws : List Nat} {links : List (Nat × Nat)}
  {q q' q'' : Quest}

namespace Quest

theorem Leads.of_step (h : step g allowed start goal q = some q') : Leads g allowed start goal q q' :=
  Relation.ReflTransGen.single h

theorem Leads.trans (h : Leads g allowed start goal q q') (h' : Leads g allowed start goal q' q'') :
    Leads g allowed start goal q q'' := Relation.ReflTransGen.trans h h'

/-! ## Links -/

/-- Each vertex of the route is linked to the one behind it, and the last one is the start. -/
inductive Linked (start : Nat) (links : List (Nat × Nat)) : Route → Prop
  | start : Linked start links [start]
  | link {v u : Nat} {route : Route} : v ≠ start → links.lookup v = some u →
      Linked start links (u :: route) → Linked start links (v :: u :: route)

/-- A link from a vertex that had none changes no linked route. -/
theorem Linked.add (h : Linked start links route) (hnew : links.lookup w = none) :
    Linked start ((w, u) :: links) route := by
  induction h with
  | start => exact .start
  | @link v x route hne hlink _ ih =>
    -- The vertices of the route have links already, so the new one is none of them.
    refine .link hne ?_ ih
    have hvw : v ≠ w := by
      rintro rfl
      rw [hnew] at hlink
      cases hlink
    rw [List.lookup_cons, beq_false_of_ne hvw]
    exact hlink

/-- The links lead back to the start. -/
theorem leads_goBack (h : Linked start links (v :: route)) (path : List Nat) :
    Leads g allowed start goal (.goBack (v :: path) links)
      (.done (some (if start = goal then (v :: route).reverse ++ path
        else (v :: route).reverse ++ path ++ [goal]))) := by
  -- On the part of the route that is not followed yet; `path` is what was followed.
  generalize he : v :: route = whole at h
  induction h generalizing v route path with
  | start =>
    cases he
    exact .of_step (by rw [step, if_pos rfl]; rfl)
  | @link x u rest hne hlink _ ih =>
    obtain ⟨rfl, rfl⟩ := List.cons.inj he
    have hback := ih (v :: path) rfl
    refine .trans (.of_step ?_) (by simpa using hback)
    rw [step, if_neg hne, hlink]
    rfl

/-! ## The loop does what the rounds do -/

/-- The state of a round as the loop keeps it: the queue has the heads of the routes that are to be
extended, and then of those of the next level. -/
structure Mirrors (start : Nat) (level next : List Route) (seen queue : List Nat)
    (links : List (Nat × Nat)) : Prop where
  queue_eq : queue = (level ++ next.reverse).filterMap List.head?
  linked : ∀ route, route ∈ level ∨ route ∈ next → Linked start links route
  seen_iff : ∀ v, v ∈ seen ↔ v = start ∨ (links.lookup v).isSome

theorem Mirrors.begin (start : Nat) : Mirrors start [[start]] [] [start] [start] [] where
  queue_eq := rfl
  linked route h := by
    rcases h with h | h
    · rw [List.mem_singleton.1 h]
      exact .start
    · cases h
  seen_iff v := by simp

/-- A vertex that was not seen is not linked yet. -/
theorem Mirrors.free (h : Mirrors start level next seen queue links) (hnew : w ∉ seen) :
    w ≠ start ∧ links.lookup w = none := by
  rw [h.seen_iff, not_or, Option.not_isSome_iff_eq_none] at hnew
  exact hnew

theorem Mirrors.add (h : Mirrors start level next seen queue links) (hnew : w ∉ seen)
    (hroute : Linked start links (v :: route)) :
    Mirrors start level ((w :: v :: route) :: next) (w :: seen) (queue ++ [w]) ((w, v) :: links) := by
  obtain ⟨hne, hfree⟩ := h.free hnew
  refine ⟨?_, fun r hr => ?_, fun x => ?_⟩
  · rw [List.reverse_cons, ← List.append_assoc, List.filterMap_append, ← h.queue_eq]
    rfl
  · rcases hr with hr | hr
    · exact (h.linked r (.inl hr)).add hfree
    · rcases List.mem_cons.1 hr with rfl | hr
      · exact .link hne List.lookup_cons_self (hroute.add hfree)
      · exact (h.linked r (.inr hr)).add hfree
  · by_cases hx : x = w
    · simp [hx]
    · rw [List.mem_cons, List.lookup_cons, beq_false_of_ne hx, h.seen_iff]
      simp [hx]

theorem Mirrors.turn (h : Mirrors start [] next seen queue links) :
    Mirrors start next.reverse [] seen queue links where
  queue_eq := by simpa using h.queue_eq
  linked r hr := by
    rcases hr with hr | hr
    · exact h.linked r (.inr (List.mem_reverse.1 hr))
    · cases hr
  seen_iff := h.seen_iff

/-- What the loop comes to when a round ends in `result` after the route to `v` is extended: it goes back
from `v`, or picks the next vertex. -/
def Scanned (g : Digraph) (allowed : Nat → Bool) (start goal : Nat) (level : List Route) (v : Nat)
    (route : Route) (q : Quest) (result : Round) : Prop :=
  (∃ links, result = .reached (goal :: v :: route) ∧ Linked start links (v :: route) ∧
    Leads g allowed start goal q (.goBack [v] links)) ∨
  ∃ seen next queue links, result = .going seen next ∧ Mirrors start level next seen queue links ∧
    Leads g allowed start goal q (.pick queue links)

theorem Scanned.of_step {result : Round} (hstep : step g allowed start goal q = some q')
    (h : Scanned g allowed start goal level v route q' result) :
    Scanned g allowed start goal level v route q result := by
  rcases h with ⟨links, heq, hlinked, hleads⟩ | ⟨seen, next, queue, links, heq, hmirrors, hleads⟩
  · exact .inl ⟨links, heq, hlinked, .trans (.of_step hstep) hleads⟩
  · exact .inr ⟨seen, next, queue, links, heq, hmirrors, .trans (.of_step hstep) hleads⟩

/-- Looking at the successors of a vertex extends the route to it. -/
theorem scanned_extend (hroute : Linked start links (v :: route))
    (h : Mirrors start level next seen queue links) :
    Scanned g allowed start goal level v route (.scan v ws queue links)
      (extend allowed goal (v :: route) ws seen next) := by
  -- Each round deals with one successor, as `extend` does.
  induction ws generalizing seen next queue links with
  | nil => exact .inr ⟨seen, next, queue, links, rfl, h, .of_step rfl⟩
  | cons w ws ih =>
    rw [extend]
    by_cases hallowed : allowed w = true
    · have hnot : ¬ (!allowed w) = true := by simp [hallowed]
      rw [if_neg hnot]
      by_cases hgoal : w = goal
      · rw [if_pos hgoal, hgoal]
        refine .inl ⟨links, rfl, hroute, .of_step ?_⟩
        rw [step, if_neg (hgoal ▸ hnot), if_pos rfl]
      · rw [if_neg hgoal]
        by_cases hseen : w ∈ seen
        · -- What was seen has a link or is the start, so the loop passes it over too.
          rw [if_pos (List.contains_iff_mem.2 hseen)]
          refine (ih hroute h).of_step ?_
          rw [step, if_neg hnot, if_neg hgoal, if_pos ((h.seen_iff w).1 hseen)]
        · rw [if_neg fun hin => hseen (List.contains_iff_mem.1 hin)]
          refine (ih (hroute.add (h.free hseen).2) (h.add hseen hroute)).of_step ?_
          rw [step, if_neg hnot, if_neg hgoal, if_neg fun hin => hseen ((h.seen_iff w).2 hin)]
    · have hnot : (!allowed w) = true := by simp [hallowed]
      rw [if_pos hnot]
      refine (ih hroute h).of_step ?_
      rw [step, if_pos hnot]

/-- The answer that a route to the goal gives. -/
def answer (start goal : Nat) (route : Route) : List Nat :=
  if start = goal then (route.drop 1).reverse else route.reverse

theorem leads_answer (h : Linked start links (v :: route)) :
    Leads g allowed start goal (.goBack [v] links)
      (.done (some (answer start goal (goal :: v :: route)))) := by
  have hback : Leads g allowed start goal (.goBack [v] links)
      (.done (some (if start = goal then (v :: route).reverse ++ []
        else (v :: route).reverse ++ [] ++ [goal]))) := leads_goBack h []
  rw [List.append_nil] at hback
  rw [answer, List.reverse_cons]
  exact hback

/-- Picking the vertices of a level one after the other does what a round does. -/
theorem leads_advance {result : Round} (h : Mirrors start level next seen queue links)
    (hresult : advance g allowed goal level seen next = .ok result) :
    (∃ route, result = .reached route ∧
      Leads g allowed start goal (.pick queue links) (.done (some (answer start goal route)))) ∨
    ∃ seen' next' queue' links', result = .going seen' next' ∧
      Mirrors start [] next' seen' queue' links' ∧
        Leads g allowed start goal (.pick queue links) (.pick queue' links') := by
  induction level generalizing seen next queue links with
  | nil =>
    obtain rfl := Except.ok.inj hresult
    exact .inr ⟨seen, next, queue, links, rfl, h, .refl⟩
  | cons route level ih =>
    have hroute := h.linked route (.inl (List.mem_cons_self ..))
    cases route with
    | nil => cases hroute
    | cons v route =>
      rw [advance] at hresult
      split at hresult
      · cases hresult
      · rename_i ws hws
        -- The vertex at the front of the queue is the head of the first route.
        obtain ⟨rest, rfl, hrest⟩ : ∃ rest, queue = v :: rest ∧
            Mirrors start level next seen rest links :=
          ⟨_, h.queue_eq, rfl, fun r hr => h.linked r (hr.imp_left (List.mem_cons_of_mem _)),
            h.seen_iff⟩
        have hpick : step g allowed start goal (.pick (v :: rest) links) =
            some (.scan v ws rest links) := by
          rw [step, hws]
          rfl
        rcases (scanned_extend hroute hrest).of_step hpick with
          ⟨links', heq, hlinked, hleads⟩ | ⟨seen', next', queue', links', heq, hmirrors, hleads⟩
        · rw [heq] at hresult
          obtain rfl := Except.ok.inj hresult
          exact .inl ⟨_, rfl, hleads.trans (leads_answer hlinked)⟩
        · rw [heq] at hresult
          rcases ih hmirrors hresult with
            ⟨r, rfl, hdone⟩ | ⟨seen'', next'', queue'', links'', rfl, hmirrors', hpicks⟩
          · exact .inl ⟨r, rfl, hleads.trans hdone⟩
          · exact .inr ⟨seen'', next'', queue'', links'', rfl, hmirrors', hleads.trans hpicks⟩

/-- The loop comes to an end after the rounds of the search, with their answer. -/
theorem leads_rounds (hclosed : g.Closed) (fuel : Nat)
    (hs : Searching g allowed start goal level [] seen)
    (h : Mirrors start level [] seen queue links)
    (henough : Enough g fuel level seen) :
    ∃ found, rounds g allowed goal fuel level seen = .ok found ∧
      Leads g allowed start goal (.pick queue links) (.done (found.map (answer start goal))) := by
  -- The queue and the level run empty together, and a round of the one is a stretch of the other.
  induction fuel generalizing level seen queue links with
  | zero =>
    obtain rfl := henough.level_eq_nil hs
    obtain rfl := h.queue_eq
    exact ⟨none, rfl, .of_step rfl⟩
  | succ fuel ih =>
    rw [rounds]
    by_cases hlevel : level = []
    · subst hlevel
      obtain rfl := h.queue_eq
      exact ⟨none, rfl, .of_step rfl⟩
    · rw [List.isEmpty_eq_false_iff.2 hlevel]
      rcases advance_cases hclosed hs with
        ⟨v, route, heq, -⟩ | ⟨seen', next', heq, hnew, hlength⟩
      · rcases leads_advance h heq with ⟨r, hr, hdone⟩ | ⟨_, _, _, _, hr, -, -⟩
        · cases hr
          rw [heq]
          exact ⟨_, rfl, hdone⟩
        · cases hr
      · rcases leads_advance h heq with ⟨r, hr, -⟩ | ⟨s, n, q, l, hr, hmirrors, hpicks⟩
        · cases hr
        · cases hr
          rw [heq]
          obtain ⟨found, hfound, hdone⟩ :=
            ih hnew.turn hmirrors.turn (henough.turn hlevel hlength)
          exact ⟨found, hfound, hpicks.trans hdone⟩

/-- From every vertex of the graph the loop comes to an end, with the answer of the search that carries
routes. -/
theorem leads_shortestPath (hclosed : g.Closed) (hlt : start < g.order) (goal : Nat)
    (allowed : Nat → Bool) :
    ∃ found, g.shortestPath start goal allowed = .ok found ∧
      Leads g allowed start goal (.pick [start] []) (.done found) := by
  have hbegin : Searching g allowed start goal [[start]] [] [start] := Searching.begin hlt
  obtain ⟨found, hfound, hleads⟩ :=
    leads_rounds hclosed (g.order + 2) hbegin (Mirrors.begin start) .begin
  refine ⟨_, ?_, hleads⟩
  rw [shortestPath, hfound]
  cases found with
  | none => rfl
  | some route => rfl

end Quest

end LayerGate.Digraph
