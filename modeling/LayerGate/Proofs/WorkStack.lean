import Mathlib
import LayerGate.Proofs.ComponentSearch

/-!
# The component search as a loop

The search can be done without recursion: what is still to be done stands on a work stack, one frame
for each vertex whose successors are being looked at.  Each round of the loop leaves less to do, so it
comes to an end, and what it has then found are the components.
-/

namespace LayerGate.Digraph

open Search

/-! ## The loop -/

/-- A vertex whose successors are being looked at: its rank, the lowest rank met so far, and the
successors that are left. -/
structure Frame where
  vertex : Nat
  rank : Nat
  low : Nat
  unmet : List Nat

/-- What the loop works on, the frame of the vertex entered last on top. -/
structure Work where
  frames : List Frame
  search : Search
  /-- The vertices that a search is still to be started from. -/
  roots : List Nat

namespace Work

def start (g : Digraph) : Work := ⟨[], Search.start g.order, List.range g.order⟩

/-- The top frame learns of a rank that was met. -/
def lower (low : Nat) : List Frame → List Frame
  | [] => []
  | f :: fs => { f with low := min f.low low } :: fs

/-- Enters a vertex and puts its frame on top. -/
def push (g : Digraph) (v : Nat) (frames : List Frame) (s : Search) (roots : List Nat) : Work :=
  ⟨⟨v, s.entered, s.entered, g.next v⟩ :: frames, s.enter v, roots⟩

/-- One round: the top frame meets its next successor, or is done and tells the frame below; without
frames, the next search begins. -/
def step (g : Digraph) : Work → Option Work
  | ⟨[], _, []⟩ => none
  | ⟨[], s, v :: roots⟩ =>
    match s.mark v with
    | .fresh => some (push g v [] s roots)
    | _ => some ⟨[], s, roots⟩
  | ⟨f :: fs, s, roots⟩ =>
    match f.unmet with
    | [] => some ⟨lower f.low fs, if f.low = f.rank then s.settle f.vertex else s, roots⟩
    | w :: ws =>
      match s.mark w with
      | .fresh => some (push g w ({ f with unmet := ws } :: fs) s roots)
      | .active r => some ⟨{ f with low := min f.low r, unmet := ws } :: fs, s, roots⟩
      | .settled => some ⟨{ f with unmet := ws } :: fs, s, roots⟩

/-- The loop after so many rounds, or after fewer if it has come to an end. -/
def after (g : Digraph) : Nat → Work → Work
  | 0, m => m
  | n + 1, m =>
    match step g m with
    | none => m
    | some m' => after g n m'

end Work

variable {g : Digraph} {s : Search} {v w fuel n : Nat} {m m' m'' : Work}

/-! ## Fresh vertices -/

namespace Search

/-- The vertices that have not been entered. -/
def freshSet (s : Search) : Finset Nat := (Finset.range s.marks.size).filter fun v => s.mark v = .fresh

theorem lt_size_of_fresh (h : s.mark v = .fresh) : v < s.marks.size := by
  by_contra hle
  rw [mark, Array.getElem?_eq_none (Nat.le_of_not_lt hle)] at h
  cases h

theorem mem_freshSet : v ∈ s.freshSet ↔ s.mark v = .fresh := by
  rw [freshSet, Finset.mem_filter, Finset.mem_range]
  exact ⟨fun h => h.2, fun h => ⟨lt_size_of_fresh h, h⟩⟩

theorem freshSet_enter (h : s.mark v = .fresh) : (s.enter v).freshSet = s.freshSet.erase v := by
  ext w
  rw [mem_freshSet, Finset.mem_erase, mem_freshSet, mark_enter (lt_size_of_fresh h)]
  by_cases hw : w = v
  · simp [hw]
  · simp [hw]

theorem freshSet_settle : (s.settle v).freshSet ⊆ s.freshSet := by
  intro w hw
  rw [mem_freshSet, mark, settle, getD_settled] at hw
  rw [mem_freshSet]
  split at hw
  · cases hw
  · exact hw

end Search

/-- A search leaves no more vertices fresh than there were. -/
theorem freshSet_visit (h : s.mark v = .fresh) : (visit g fuel v s).2.freshSet ⊆ s.freshSet := by
  induction fuel generalizing v s with
  | zero => exact Finset.Subset.refl _
  | succ fuel ih =>
    have hmeet : ∀ (ws : List Nat) (x : Nat × Search), x.2.freshSet ⊆ s.freshSet →
        (ws.foldl (meet g fuel) x).2.freshSet ⊆ s.freshSet := by
      intro ws
      induction ws with
      | nil => exact fun x hx => hx
      | cons w ws ih' =>
        intro x hx
        apply ih'
        cases hw : x.2.mark w with
        | fresh =>
          rw [meet_fresh hw]
          exact (ih hw).trans hx
        | active r =>
          rw [meet_active hw]
          exact hx
        | settled =>
          rw [meet_settled hw]
          exact hx
    have hscan := hmeet (g.next v) (s.entered, s.enter v) <| by
      rw [freshSet_enter h]
      exact Finset.erase_subset ..
    rw [visit_succ]
    split
    · exact freshSet_settle.trans hscan
    · exact hscan

/-! ## The loop comes to an end -/

namespace Work

/-- How many rounds are left at most: one for each root, one for each successor that is to be met,
and one to leave each vertex. -/
def left (g : Digraph) (m : Work) : Nat :=
  m.roots.length + (m.frames.map fun f => 1 + f.unmet.length).sum +
    ∑ v ∈ m.search.freshSet, (1 + (g.next v).length)

theorem left_push {frames : List Frame} {roots : List Nat} (h : s.mark v = .fresh) :
    left g (push g v frames s roots) = left g ⟨frames, s, roots⟩ := by
  have hsum := Finset.add_sum_erase s.freshSet (fun v => 1 + (g.next v).length) (mem_freshSet.2 h)
  simp only [left, push, List.map_cons, List.sum_cons, freshSet_enter h]
  omega

theorem sum_lower (low : Nat) (frames : List Frame) :
    ((lower low frames).map fun f => 1 + f.unmet.length).sum =
      (frames.map fun f => 1 + f.unmet.length).sum := by
  cases frames <;> rfl

/-- Each round leaves less to do. -/
theorem left_step (h : step g m = some m') : left g m' < left g m := by
  obtain ⟨frames, s, roots⟩ := m
  cases frames with
  | nil =>
    cases roots with
    | nil => cases h
    | cons v roots =>
      rw [step] at h
      split at h
      · rename_i hfresh
        cases h
        rw [left_push hfresh]
        simp [left]
      · cases h
        simp [left]
  | cons f fs =>
    obtain ⟨u, rank, low, unmet⟩ := f
    cases unmet with
    | nil =>
      cases h
      have hsettle : ∑ v ∈ (if low = rank then s.settle u else s).freshSet, (1 + (g.next v).length) ≤
          ∑ v ∈ s.freshSet, (1 + (g.next v).length) := by
        split
        · exact Finset.sum_le_sum_of_subset freshSet_settle
        · exact Nat.le_refl _
      simp only [left, sum_lower, List.map_cons, List.sum_cons, List.length_nil]
      omega
    | cons w ws =>
      simp only [step] at h
      split at h
      · rename_i hfresh
        cases h
        rw [left_push hfresh]
        simp only [left, List.map_cons, List.sum_cons, List.length_cons]
        omega
      · cases h
        simp only [left, List.map_cons, List.sum_cons, List.length_cons]
        omega
      · cases h
        simp only [left, List.map_cons, List.sum_cons, List.length_cons]
        omega

theorem after_of_step (h : step g m = some m') : after g (n + 1) m = after g n m' := by
  rw [after, h]

theorem after_of_done (h : step g m = none) : after g n m = m := by
  cases n with
  | zero => rfl
  | succ n => rw [after, h]

theorem after_add (n k : Nat) (m : Work) : after g (n + k) m = after g k (after g n m) := by
  induction n generalizing m with
  | zero => rw [Nat.zero_add, after]
  | succ n ih =>
    cases h : step g m with
    | none => rw [after_of_done h, after_of_done h, after_of_done h]
    | some m' => rw [Nat.succ_add, after_of_step h, after_of_step h, ih]

/-- After as many rounds as there are left, nothing is left to do. -/
theorem step_after (h : left g m ≤ n) : step g (after g n m) = none := by
  induction n generalizing m with
  | zero =>
    cases hm : step g m with
    | none => exact hm
    | some m' =>
      have hlt := left_step hm
      omega
  | succ n ih =>
    cases hm : step g m with
    | none => rwa [after_of_done hm]
    | some m' =>
      have hlt := left_step hm
      rw [after_of_step hm]
      exact ih (by omega)

/-! ## The loop does what the recursion does -/

/-- Some rounds lead from the one to the other. -/
def Leads (g : Digraph) (m m' : Work) : Prop := ∃ n, after g n m = m'

theorem Leads.refl (m : Work) : Leads g m m := ⟨0, rfl⟩

theorem Leads.trans (h : Leads g m m') (h' : Leads g m' m'') : Leads g m m'' := by
  obtain ⟨n, rfl⟩ := h
  obtain ⟨k, rfl⟩ := h'
  exact ⟨n + k, after_add n k m⟩

theorem Leads.of_step (h : step g m = some m') : Leads g m m' := ⟨1, after_of_step h⟩

/-- Where the loop ends does not depend on how long one waits for it. -/
theorem Leads.eq_after (h : Leads g m m') (hdone : step g m' = none) (hn : left g m ≤ n) :
    after g n m = m' := by
  obtain ⟨k, rfl⟩ := h
  have hstop := step_after hn
  rw [← after_of_done (n := k) hstop, ← after_add, Nat.add_comm, after_add, after_of_done hdone]

/-- Looking at the successors one round each, given that the loop does what searches with less fuel
do. -/
theorem leads_scan {u rank : Nat} {fs : List Frame} {roots : List Nat}
    (hvisit : ∀ (w : Nat) (t : Search) (fs : List Frame), t.mark w = .fresh →
      t.freshSet.card ≤ fuel →
        Leads g (push g w fs t roots)
          ⟨lower (visit g fuel w t).1 fs, (visit g fuel w t).2, roots⟩)
    (ws : List Nat) (x : Nat × Search) (hx : x.2.freshSet.card ≤ fuel) :
    Leads g ⟨⟨u, rank, x.1, ws⟩ :: fs, x.2, roots⟩
      ⟨⟨u, rank, (ws.foldl (meet g fuel) x).1, []⟩ :: fs, (ws.foldl (meet g fuel) x).2, roots⟩ := by
  induction ws generalizing x with
  | nil => exact Leads.refl _
  | cons w ws ih =>
    -- The rounds until the next successor is on top do what `meet` does.
    have hmeet : Leads g ⟨⟨u, rank, x.1, w :: ws⟩ :: fs, x.2, roots⟩
        ⟨⟨u, rank, (meet g fuel x w).1, ws⟩ :: fs, (meet g fuel x w).2, roots⟩ ∧
          (meet g fuel x w).2.freshSet.card ≤ fuel := by
      cases hw : x.2.mark w with
      | fresh =>
        rw [meet_fresh hw]
        refine ⟨.trans (.of_step ?_) (hvisit w x.2 (⟨u, rank, x.1, ws⟩ :: fs) hw hx),
          (Finset.card_le_card (freshSet_visit hw)).trans hx⟩
        simp only [step, hw]
      | active r =>
        rw [meet_active hw]
        refine ⟨.of_step ?_, hx⟩
        simp only [step, hw]
      | settled =>
        rw [meet_settled hw]
        refine ⟨.of_step ?_, hx⟩
        simp only [step, hw]
    exact hmeet.1.trans (ih _ hmeet.2)

/-- From entering a vertex the loop comes to where the search from that vertex does, and the frame
below learns of the lowest rank. -/
theorem leads_visit {fs : List Frame} {roots : List Nat} (h : s.mark v = .fresh)
    (hfuel : s.freshSet.card ≤ fuel) :
    Leads g (push g v fs s roots) ⟨lower (visit g fuel v s).1 fs, (visit g fuel v s).2, roots⟩ := by
  -- Each search below this one has one fresh vertex less.
  induction fuel generalizing v s fs with
  | zero =>
    have hpos := Finset.card_pos.2 ⟨v, mem_freshSet.2 h⟩
    omega
  | succ fuel ih =>
    have hless : (s.enter v).freshSet.card ≤ fuel := by
      rw [freshSet_enter h, Finset.card_erase_of_mem (mem_freshSet.2 h)]
      omega
    refine (leads_scan (fun w t fs hw ht => ih hw ht) (g.next v) (s.entered, s.enter v) hless).trans
      (.of_step ?_)
    rw [visit_succ]
    simp only [step]
    split <;> rfl

theorem leads_roots (roots : List Nat) (s : Search) (h : s.freshSet.card ≤ g.order) :
    Leads g ⟨[], s, roots⟩ ⟨[], roots.foldl (advanceTo g) s, []⟩ := by
  induction roots generalizing s with
  | nil => exact Leads.refl _
  | cons v roots ih =>
    have hadvance : Leads g ⟨[], s, v :: roots⟩ ⟨[], advanceTo g s v, roots⟩ ∧
        (advanceTo g s v).freshSet.card ≤ g.order := by
      rw [advanceTo]
      cases hv : s.mark v with
      | fresh =>
        have hvisit : Leads g (push g v [] s roots) ⟨[], (visit g g.order v s).2, roots⟩ :=
          leads_visit hv h
        refine ⟨.trans (.of_step ?_) hvisit, (Finset.card_le_card (freshSet_visit hv)).trans h⟩
        simp only [step, hv]
      | active r =>
        refine ⟨.of_step ?_, h⟩
        simp only [step, hv]
      | settled =>
        refine ⟨.of_step ?_, h⟩
        simp only [step, hv]
    exact hadvance.1.trans (ih _ hadvance.2)

theorem freshSet_start (order : Nat) : (Search.start order).freshSet ⊆ Finset.range order := by
  intro v hv
  have hlt := lt_size_of_fresh (mem_freshSet.1 hv)
  rw [Search.start, Array.size_replicate] at hlt
  exact Finset.mem_range.2 hlt

/-- Two rounds for each vertex and one for each edge. -/
def rounds (g : Digraph) : Nat := 2 * g.order + ∑ v ∈ Finset.range g.order, (g.next v).length

theorem left_start (g : Digraph) : left g (start g) ≤ rounds g := by
  have hle := Finset.sum_le_sum_of_subset (f := fun v => 1 + (g.next v).length)
    (freshSet_start g.order)
  simp only [Finset.sum_add_distrib, ← Finset.card_eq_sum_ones, Finset.card_range] at hle
  simp only [left, rounds, start, List.length_range, List.map_nil, List.sum_nil,
    Finset.sum_add_distrib, ← Finset.card_eq_sum_ones]
  omega

/-- For every graph the loop has come to an end after that many rounds, and has found the
components. -/
theorem after_start (hn : rounds g ≤ n) :
    step g (after g n (start g)) = none ∧
      (after g n (start g)).search.found.reverse = g.components := by
  have hcard := Finset.card_le_card (freshSet_start g.order)
  rw [Finset.card_range] at hcard
  have hleads := leads_roots (List.range g.order) (Search.start g.order) hcard
  have hafter : after g n (start g) = _ := hleads.eq_after rfl ((left_start g).trans hn)
  rw [hafter, components_eq]
  exact ⟨rfl, rfl⟩

end Work

end LayerGate.Digraph
