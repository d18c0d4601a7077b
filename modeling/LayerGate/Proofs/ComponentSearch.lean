import LayerGate.Proofs.SearchState

/-!
# The component search

A search from a fresh vertex keeps the invariant.  Either it settles the component of the vertex and
leaves the path as it was, or the vertex stays on the path, because it reaches one below it: the
lowest rank that the search gives back is the rank of such a vertex.
-/

namespace LayerGate.Digraph

open Search

/-- What the search does with the next successor. -/
def meet (g : Digraph) (fuel : Nat) (x : Nat × Search) (w : Nat) : Nat × Search :=
  match x.2.mark w with
  | .fresh => (min x.1 (visit g fuel w x.2).1, (visit g fuel w x.2).2)
  | .active r => (min x.1 r, x.2)
  | .settled => x

variable {g : Digraph} {grey met : List Nat} {s t : Search} {v w low fuel : Nat}

theorem visit_succ (g : Digraph) (fuel v : Nat) (s : Search) :
    visit g (fuel + 1) v s =
      if ((g.next v).foldl (meet g fuel) (s.entered, s.enter v)).1 = s.entered then
        (((g.next v).foldl (meet g fuel) (s.entered, s.enter v)).1,
          ((g.next v).foldl (meet g fuel) (s.entered, s.enter v)).2.settle v)
      else (g.next v).foldl (meet g fuel) (s.entered, s.enter v) := rfl

theorem meet_fresh {x : Nat × Search} (h : x.2.mark w = .fresh) :
    meet g fuel x w = (min x.1 (visit g fuel w x.2).1, (visit g fuel w x.2).2) := by
  rw [meet, h]

theorem meet_active {x : Nat × Search} {r : Nat} (h : x.2.mark w = .active r) :
    meet g fuel x w = (min x.1 r, x.2) := by
  rw [meet, h]

theorem meet_settled {x : Nat × Search} (h : x.2.mark w = .settled) : meet g fuel x w = x := by
  rw [meet, h]

/-- What a search from `v` in the state `s` comes back with. -/
structure Visited (g : Digraph) (grey : List Nat) (v : Nat) (s : Search) (low : Nat) (t : Search) :
    Prop where
  sound : Sound g grey t
  kept : Kept s t
  seen : t.mark v ≠ .fresh
  answer : t.path = s.path ∧ low = s.entered ∨
    low < s.entered ∧ ∃ y ∈ s.path, s.rank y = low ∧ g.Reaches v y
  least : ∀ x ∈ t.path, x ∉ s.path → ∀ y ∈ s.path, g.Step x y → low ≤ s.rank y

/-- What holds while the successors of `v` are looked at, after those in `met`; the search from `v`
began in the state `s`. -/
structure Scanning (g : Digraph) (grey : List Nat) (v : Nat) (s : Search) (met : List Nat) (low : Nat)
    (t : Search) : Prop where
  sound : Sound g (v :: grey) t
  kept : Kept (s.enter v) t
  seen : ∀ w ∈ met, t.mark w ≠ .fresh
  low_le : low ≤ s.entered
  answer : low < s.entered → ∃ y ∈ s.path, s.rank y = low ∧ g.Reaches v y
  least : ∀ x ∈ t.path, x ∉ s.path → x ≠ v → ∀ y ∈ s.path, g.Step x y → low ≤ s.rank y
  least_met : ∀ y ∈ met, y ∈ s.path → low ≤ s.rank y

section

variable (hs : Sound g grey s) (hfresh : s.mark v = .fresh)
include hs hfresh

theorem lt_size : v < s.marks.size := by
  rw [hs.size]
  exact hs.lt_order (by rw [hfresh]; exact Mark.noConfusion)

theorem Scanning.begin (hgrey : ∀ x ∈ grey, g.Reaches x v) :
    Scanning g grey v s [] s.entered (s.enter v) where
  sound := hs.enter hfresh hgrey
  kept := Kept.refl _
  seen := by simp
  low_le := Nat.le_refl _
  answer hlt := absurd hlt (Nat.lt_irrefl _)
  least x hx hnot hne := by
    rcases List.mem_cons.1 hx with he | hpath
    · exact absurd he hne
    · exact absurd hpath hnot
  least_met := by simp

namespace Scanning

theorem kept_start (h : Scanning g grey v s met low t) : Kept s t :=
  (kept_enter hfresh (lt_size hs hfresh)).trans h.kept

theorem mark_self (h : Scanning g grey v s met low t) : t.mark v = .active s.entered := by
  have hself : (s.enter v).mark v = .active s.entered := by
    rw [mark_enter (lt_size hs hfresh), if_pos rfl]
  rw [h.kept.mark v (by rw [hself]; exact Mark.noConfusion), hself]

theorem rank_path (h : Scanning g grey v s met low t) {y : Nat} (hy : y ∈ s.path) :
    t.rank y = s.rank y :=
  (h.kept_start hs hfresh).rank (hs.seen hy)

omit hs hfresh in
theorem exists_path (h : Scanning g grey v s met low t) : ∃ new, t.path = new ++ v :: s.path := by
  obtain ⟨new, hnew⟩ := h.kept.path
  exact ⟨new, hnew.symm⟩

omit hs hfresh in
theorem not_mem_new (h : Scanning g grey v s met low t) {new : List Nat}
    (hpath : t.path = new ++ v :: s.path) : v ∉ new := by
  have hnodup := h.sound.path_nodup
  rw [hpath, List.nodup_append] at hnodup
  exact fun hv => hnodup.2.2 v hv v (List.mem_cons_self ..) rfl

/-- What was entered since the search from `v` began. -/
theorem mem_block (h : Scanning g grey v s met low t) {new : List Nat}
    (hpath : t.path = new ++ v :: s.path) {x : Nat} :
    x ∈ new ++ [v] ↔ x ∈ t.path ∧ x ∉ s.path := by
  have hnodup := h.sound.path_nodup
  rw [hpath, List.nodup_append] at hnodup
  rw [hpath, List.mem_append, List.mem_append, List.mem_singleton, List.mem_cons]
  constructor
  · rintro (hx | rfl)
    · exact ⟨.inl hx, fun hold => hnodup.2.2 x hx x (List.mem_cons_of_mem _ hold) rfl⟩
    · exact ⟨.inr (.inl rfl), fun hold => hs.seen hold hfresh⟩
  · rintro ⟨hx | rfl | hx, hnot⟩
    · exact .inl hx
    · exact .inr rfl
    · exact absurd hx hnot

theorem le_rank (h : Scanning g grey v s met low t) {x : Nat} (hx : x ∈ t.path) (hnot : x ∉ s.path) :
    s.entered ≤ t.rank x := by
  obtain ⟨new, hpath⟩ := h.exists_path
  have hself : t.rank v = s.entered := rank_of_mark (h.mark_self hs hfresh)
  have hordered := h.sound.ordered
  rw [hpath, List.pairwise_append] at hordered
  have hblock := (h.mem_block hs hfresh hpath).2 ⟨hx, hnot⟩
  rw [List.mem_append, List.mem_singleton] at hblock
  rcases hblock with hnew | rfl
  · have hlt := hordered.2.2 x hnew v (List.mem_cons_self ..)
    omega
  · omega

/-- The ranks tell what was on the path before. -/
theorem mem_of_rank_lt (h : Scanning g grey v s met low t) {y : Nat} (hy : y ∈ t.path)
    (hlt : t.rank y < s.entered) : y ∈ s.path := by
  by_contra hnot
  have hle := h.le_rank hs hfresh hy hnot
  omega

/-! ### Meeting a successor -/

theorem meet_active (h : Scanning g grey v s met low t) (hstep : g.Step v w) {r : Nat}
    (hw : t.mark w = .active r) : Scanning g grey v s (w :: met) (min low r) t where
  sound := h.sound
  kept := h.kept
  seen x hx := by
    rcases List.mem_cons.1 hx with rfl | hx
    · rw [hw]
      exact Mark.noConfusion
    · exact h.seen x hx
  low_le := Nat.le_trans (Nat.min_le_left ..) h.low_le
  answer hlt := by
    -- The lower of the two ranks is the old one, or that of the successor.
    have hpath : w ∈ t.path := (h.sound.path_iff w).2 ⟨r, hw⟩
    have hrank : t.rank w = r := rank_of_mark hw
    by_cases hle : low ≤ r
    · rw [Nat.min_eq_left hle] at hlt ⊢
      exact h.answer hlt
    · rw [Nat.min_eq_right (by omega)] at hlt ⊢
      have hmem : w ∈ s.path := h.mem_of_rank_lt hs hfresh hpath (by omega)
      refine ⟨w, hmem, ?_, hstep.reaches⟩
      rw [← h.rank_path hs hfresh hmem]
      exact hrank
  least x hx hnot hne y hy hxy :=
    Nat.le_trans (Nat.min_le_left ..) (h.least x hx hnot hne y hy hxy)
  least_met y hy hpath := by
    rcases List.mem_cons.1 hy with rfl | hy
    · rw [← h.rank_path hs hfresh hpath, rank_of_mark hw]
      exact Nat.min_le_right ..
    · exact Nat.le_trans (Nat.min_le_left ..) (h.least_met y hy hpath)

theorem meet_settled (h : Scanning g grey v s met low t) (hw : t.mark w = .settled) :
    Scanning g grey v s (w :: met) low t where
  sound := h.sound
  kept := h.kept
  seen x hx := by
    rcases List.mem_cons.1 hx with rfl | hx
    · rw [hw]
      exact Mark.noConfusion
    · exact h.seen x hx
  low_le := h.low_le
  answer := h.answer
  least := h.least
  least_met y hy hpath := by
    rcases List.mem_cons.1 hy with rfl | hy
    · -- What is on the path is not settled.
      obtain ⟨r, hr⟩ := (h.sound.path_iff y).1 ((h.kept_start hs hfresh).path.subset hpath)
      rw [hr] at hw
      cases hw
    · exact h.least_met y hy hpath

theorem meet_visited (h : Scanning g grey v s met low t) (hstep : g.Step v w)
    (hw : t.mark w = .fresh) {low' : Nat} {u : Search} (hu : Visited g (v :: grey) w t low' u) :
    Scanning g grey v s (w :: met) (min low low') u where
  sound := hu.sound
  kept := h.kept.trans hu.kept
  seen x hx := by
    rcases List.mem_cons.1 hx with rfl | hx
    · exact hu.seen
    · exact hu.kept.seen (h.seen x hx)
  low_le := Nat.le_trans (Nat.min_le_left ..) h.low_le
  answer hlt := by
    by_cases hle : low ≤ low'
    · rw [Nat.min_eq_left hle] at hlt ⊢
      exact h.answer hlt
    · rw [Nat.min_eq_right (by omega)] at hlt ⊢
      have hentered : s.entered + 1 ≤ t.entered := h.kept.entered
      rcases hu.answer with ⟨-, he⟩ | ⟨-, y, hy, hrank, hreach⟩
      · omega
      · -- The rank that came back is low, so it belongs to the path of before.
        have hmem : y ∈ s.path := h.mem_of_rank_lt hs hfresh hy (by omega)
        refine ⟨y, hmem, ?_, hstep.reaches.trans hreach⟩
        rw [← h.rank_path hs hfresh hmem]
        exact hrank
  least x hx hnot hne y hy hxy := by
    -- A new vertex was entered before the search from `w`, or by it.
    by_cases hold : x ∈ t.path
    · exact Nat.le_trans (Nat.min_le_left ..) (h.least x hold hnot hne y hy hxy)
    · have hpath : y ∈ t.path := (h.kept_start hs hfresh).path.subset hy
      have hle := hu.least x hx hold y hpath hxy
      rw [h.rank_path hs hfresh hy] at hle
      exact Nat.le_trans (Nat.min_le_right ..) hle
  least_met y hy hpath := by
    rcases List.mem_cons.1 hy with rfl | hy
    · exact absurd hw ((h.kept_start hs hfresh).seen (hs.seen hpath))
    · exact Nat.le_trans (Nat.min_le_left ..) (h.least_met y hy hpath)

/-! ### After the last successor -/

omit hs hfresh in
theorem least_all (h : Scanning g grey v s met low t) (hall : ∀ w, g.Step v w → w ∈ met) {x y : Nat}
    (hx : x ∈ t.path) (hnot : x ∉ s.path) (hy : y ∈ s.path) (hxy : g.Step x y) :
    low ≤ s.rank y := by
  by_cases hne : x = v
  · exact h.least_met y (hall y (hne ▸ hxy)) hy
  · exact h.least x hx hnot hne y hy hxy

omit hs hfresh in
theorem scanned_all (h : Scanning g grey v s met low t) (hall : ∀ w, g.Step v w → w ∈ met) {x : Nat}
    (hx : x ∈ t.path) (hgrey : x ∉ grey) {y : Nat} (hxy : g.Step x y) : t.mark y ≠ .fresh := by
  by_cases hne : x = v
  · exact h.seen y (hall y (hne ▸ hxy))
  · exact h.sound.scanned x hx (fun hmem => (List.mem_cons.1 hmem).elim hne hgrey) y hxy

/-- A vertex that reaches a lower one stays on the path. -/
theorem finish_keep (h : Scanning g grey v s met low t) (hall : ∀ w, g.Step v w → w ∈ met)
    (hlow : low < s.entered) : Visited g grey v s low t where
  sound := by
    obtain ⟨y, hy, hrank, hreach⟩ := h.answer hlow
    have hpath := (h.kept_start hs hfresh).path.subset
    refine ⟨h.sound.size, h.sound.entered, h.sound.path_iff, h.sound.ordered, h.sound.below,
      h.sound.found_iff, h.sound.condensed, fun x hx => hpath (hs.grey_path x hx),
      fun x hx => h.sound.down x (List.mem_cons_of_mem _ hx), ?_,
      fun x hx hgrey z => h.scanned_all hall hx hgrey⟩
    intro z hz
    obtain ⟨x, hx, hle, hzx⟩ := h.sound.up z hz
    rcases List.mem_cons.1 hx with rfl | hx
    · -- What reaches `v` reaches the lower vertex, and a grey one from there.
      obtain ⟨x', hx', hle', hyx'⟩ := hs.up y hy
      refine ⟨x', hx', ?_, hzx.trans (hreach.trans hyx')⟩
      rw [h.rank_path hs hfresh (hs.grey_path x' hx')]
      rw [rank_of_mark (h.mark_self hs hfresh)] at hle
      omega
    · exact ⟨x, hx, hle, hzx⟩
  kept := h.kept_start hs hfresh
  seen := by
    rw [h.mark_self hs hfresh]
    exact Mark.noConfusion
  answer := .inr ⟨hlow, h.answer hlow⟩
  least x hx hnot y hy hxy := h.least_all hall hx hnot hy hxy

/-- When no lower rank was met, no edge leads from the new part of the path to the old. -/
theorem block_step (h : Scanning g grey v s met s.entered t) (hclosed : g.Closed)
    (hall : ∀ w, g.Step v w → w ∈ met) {new : List Nat} (hpath : t.path = new ++ v :: s.path)
    {x y : Nat} (hx : x ∈ new ++ [v]) (hxy : g.Step x y) :
    y ∈ new ++ [v] ∨ y ∈ t.found.flatten := by
  rw [h.mem_block hs hfresh hpath] at hx ⊢
  have hgrey : x ∉ grey := fun hmem => hx.2 (hs.grey_path x hmem)
  rcases h.sound.path_or_found (hclosed x y hxy) (h.scanned_all hall hx.1 hgrey hxy) with hy | hy
  · refine .inl ⟨hy, fun hold => ?_⟩
    have hle := h.least_all hall hx.1 hx.2 hold hxy
    have hlt := hs.below y hold
    omega
  · exact .inr hy

theorem condensed_block (h : Scanning g grey v s met s.entered t) (hclosed : g.Closed)
    (hall : ∀ w, g.Step v w → w ∈ met) {new : List Nat} (hpath : t.path = new ++ v :: s.path) :
    Condensed g ((new ++ [v]).mergeSort :: t.found) := by
  have hmem : ∀ x, x ∈ new ++ [v] ↔ x ∈ t.path ∧ x ∉ s.path := fun x => h.mem_block hs hfresh hpath
  have hstep : ∀ x ∈ new ++ [v], ∀ y, g.Step x y → y ∈ new ++ [v] ∨ y ∈ t.found.flatten :=
    fun x hx y hxy => h.block_step hs hfresh hclosed hall hpath hx hxy
  have hback : ∀ x ∈ new ++ [v], g.Reaches x v := by
    intro x hx
    obtain ⟨y, hy, -, hxy⟩ := h.sound.up x ((hmem x).1 hx).1
    rcases List.mem_cons.1 hy with rfl | hy
    · exact hxy
    · -- A walk from the block stays in it until it is among the settled, where no older grey
      -- vertex is.
      exfalso
      have hold := hs.grey_path y hy
      have hstay : y ∈ new ++ [v] ∨ y ∈ t.found.flatten := by
        refine hxy.mem (p := fun z => z ∈ new ++ [v] ∨ z ∈ t.found.flatten) ?_ (.inl hx)
        rintro z (hz | hz) w hzw
        · exact hstep z hz w hzw
        · exact .inr (h.sound.condensed.closed _ (List.suffix_refl _) z hz w hzw)
      rcases hstay with hblock | hfound
      · exact ((hmem y).1 hblock).2 hold
      · exact h.sound.not_found ((h.kept_start hs hfresh).path.subset hold) hfound
  have hforth : ∀ x ∈ new ++ [v], g.Reaches v x := by
    intro x hx
    obtain ⟨hx, hnot⟩ := (hmem x).1 hx
    refine h.sound.down v (List.mem_cons_self ..) x hx ?_
    rw [rank_of_mark (h.mark_self hs hfresh)]
    exact h.le_rank hs hfresh hx hnot
  have hnodup : (new ++ [v]).Nodup := by
    have hpath' := h.sound.path_nodup
    rw [hpath, List.append_cons, List.nodup_append] at hpath'
    exact hpath'.1
  exact h.sound.condensed.cons (by simp) hnodup (fun x hx => h.sound.not_found ((hmem x).1 hx).1)
    (fun x hx y hy => (hback x hx).trans (hforth y hy)) hstep

theorem kept_settle (h : Scanning g grey v s met low t) {new : List Nat}
    (hpath : t.path = new ++ v :: s.path) : Kept s (t.settle v) := by
  have hkept := h.kept_start hs hfresh
  refine ⟨?_, ?_, fun w hw => ?_⟩
  · refine ⟨[], ?_⟩
    rw [List.nil_append, settle_eq hpath (h.not_mem_new hpath)]
  · rw [settle_eq hpath (h.not_mem_new hpath)]
    exact hkept.entered
  · rw [mark_settle hpath (h.not_mem_new hpath), if_neg, hkept.mark w hw]
    rw [h.mem_block hs hfresh hpath]
    rintro ⟨hmem, hnot⟩
    obtain ⟨r, hr⟩ := (h.sound.path_iff w).1 hmem
    rw [hkept.mark w hw] at hr
    exact hnot ((hs.path_iff w).2 ⟨r, hr⟩)

/-- A vertex that reaches no lower one is the lowest of its component, and the component is what the
path holds down to it. -/
theorem finish_settle (h : Scanning g grey v s met s.entered t) (hclosed : g.Closed)
    (hall : ∀ w, g.Step v w → w ∈ met) : Visited g grey v s s.entered (t.settle v) := by
  obtain ⟨new, hpath⟩ := h.exists_path
  have heq := settle_eq hpath (h.not_mem_new hpath)
  have hmem : ∀ x, x ∈ new ++ [v] ↔ x ∈ t.path ∧ x ∉ s.path := fun x => h.mem_block hs hfresh hpath
  have hmark : ∀ w, (t.settle v).mark w = if w ∈ new ++ [v] then .settled else t.mark w :=
    fun w => mark_settle hpath (h.not_mem_new hpath)
  have hkept := h.kept_settle hs hfresh hpath
  have hpath' : (t.settle v).path = s.path := by rw [heq]
  have hfound' : (t.settle v).found = (new ++ [v]).mergeSort :: t.found := by rw [heq]
  refine ⟨hs.restore hkept hpath' ?_ ?_ ?_ ?_ ?_, hkept, ?_, .inl ⟨hpath', rfl⟩, ?_⟩
  · rw [heq, size_settled]
    exact h.sound.size
  · have hentered := h.sound.entered
    rw [hpath, List.append_cons, List.length_append] at hentered
    rw [heq, List.flatten_cons, List.length_append, List.length_mergeSort]
    show t.entered = _
    omega
  · intro x r hr
    rw [hmark] at hr
    split at hr
    · cases hr
    · rename_i hnot
      have hpathx := (h.sound.path_iff x).2 ⟨r, hr⟩
      by_contra hold
      exact hnot ((hmem x).2 ⟨hpathx, hold⟩)
  · intro x
    rw [hfound', List.flatten_cons, List.mem_append, List.mem_mergeSort, hmark]
    by_cases hx : x ∈ new ++ [v]
    · rw [if_pos hx]
      exact ⟨fun _ => ⟨h.sound.path_lt_order ((hmem x).1 hx).1, rfl⟩, fun _ => .inl hx⟩
    · rw [if_neg hx, or_iff_right hx]
      exact h.sound.found_iff x
  · rw [hfound']
    exact h.condensed_block hs hfresh hclosed hall hpath
  · rw [hmark, if_pos (by simp)]
    exact Mark.noConfusion
  · intro x hx hnot
    rw [hpath'] at hx
    exact absurd hx hnot

end Scanning

end

/-! ## The whole search -/

/-- Looking at the successors keeps what holds of the scan, given that searches with less fuel do
what they should. -/
theorem Scanning.foldl (hs : Sound g grey s) (hfresh : s.mark v = .fresh)
    (hvisit : ∀ w t, g.Step v w → Sound g (v :: grey) t → t.mark w = .fresh → s.entered < t.entered →
      Visited g (v :: grey) w t (visit g fuel w t).1 (visit g fuel w t).2)
    (ws : List Nat) (hws : ∀ w ∈ ws, g.Step v w) (h : Scanning g grey v s met low t) :
    ∃ met', (∀ w, w ∈ met ∨ w ∈ ws → w ∈ met') ∧
      Scanning g grey v s met' (ws.foldl (meet g fuel) (low, t)).1
        (ws.foldl (meet g fuel) (low, t)).2 := by
  -- On the successors that are left; those that were met are collected in `met`.
  induction ws generalizing met low t with
  | nil => exact ⟨met, by simp, h⟩
  | cons w ws ih =>
    have hstep : g.Step v w := hws w (List.mem_cons_self ..)
    have hnext : Scanning g grey v s (w :: met) (meet g fuel (low, t) w).1
        (meet g fuel (low, t) w).2 := by
      cases hw : t.mark w with
      | fresh =>
        rw [Digraph.meet_fresh hw]
        exact h.meet_visited hs hfresh hstep hw (hvisit w t hstep h.sound hw h.kept.entered)
      | active r =>
        rw [Digraph.meet_active hw]
        exact h.meet_active hs hfresh hstep hw
      | settled =>
        rw [Digraph.meet_settled hw]
        exact h.meet_settled hs hfresh hw
    obtain ⟨met', hmet, hlast⟩ := ih (fun x hx => hws x (List.mem_cons_of_mem _ hx)) hnext
    refine ⟨met', fun x hx => hmet x ?_, hlast⟩
    rw [List.mem_cons] at hx ⊢
    rcases hx with hx | rfl | hx
    · exact .inl (.inr hx)
    · exact .inl (.inl rfl)
    · exact .inr hx

/-- Every search from a fresh vertex has fuel enough, as each one below it has entered one vertex
more. -/
theorem visit_visited (hclosed : g.Closed) (fuel : Nat) (hs : Sound g grey s)
    (hfresh : s.mark v = .fresh) (hgrey : ∀ x ∈ grey, g.Reaches x v)
    (hfuel : g.order ≤ fuel + s.entered) :
    Visited g grey v s (visit g fuel v s).1 (visit g fuel v s).2 := by
  -- Without fuel every vertex would have been entered, and `v` is fresh.
  induction fuel generalizing grey v s with
  | zero =>
    have hlt := hs.entered_lt hfresh
    omega
  | succ fuel ih =>
    have hvisit : ∀ w t, g.Step v w → Sound g (v :: grey) t → t.mark w = .fresh →
        s.entered < t.entered →
        Visited g (v :: grey) w t (visit g fuel w t).1 (visit g fuel w t).2 := by
      intro w t hstep ht hw hentered
      refine ih ht hw (fun x hx => ?_) (by omega)
      rcases List.mem_cons.1 hx with rfl | hx
      · exact hstep.reaches
      · exact (hgrey x hx).trans hstep.reaches
    obtain ⟨met, hmet, hscan⟩ := Scanning.foldl hs hfresh hvisit (g.next v) (fun w hw => hw)
      (Scanning.begin hs hfresh hgrey)
    have hall : ∀ w, g.Step v w → w ∈ met := fun w hw => hmet w (.inr hw)
    rw [visit_succ]
    split
    · rename_i hlow
      rw [hlow] at hscan
      rw [hlow]
      exact hscan.finish_settle hs hfresh hclosed hall
    · rename_i hlow
      refine hscan.finish_keep hs hfresh hall ?_
      have hle := hscan.low_le
      omega

/-! ## The components -/

/-- What the outer loop does with the next vertex. -/
def advanceTo (g : Digraph) (s : Search) (v : Nat) : Search :=
  match s.mark v with
  | .fresh => (visit g g.order v s).2
  | _ => s

theorem components_eq (g : Digraph) :
    g.components = ((List.range g.order).foldl (advanceTo g) (Search.start g.order)).found.reverse :=
  rfl

theorem advanceTo_sound (hclosed : g.Closed) (hs : Sound g [] s) (v : Nat) :
    Sound g [] (advanceTo g s v) ∧ Kept s (advanceTo g s v) ∧ (advanceTo g s v).mark v ≠ .fresh := by
  rw [advanceTo]
  cases hv : s.mark v with
  | fresh =>
    have hvisited := visit_visited hclosed g.order hs hv (by simp) (Nat.le_add_right ..)
    exact ⟨hvisited.sound, hvisited.kept, hvisited.seen⟩
  | active r =>
    refine ⟨hs, Kept.refl s, ?_⟩
    rw [hv]
    exact Mark.noConfusion
  | settled =>
    refine ⟨hs, Kept.refl s, ?_⟩
    rw [hv]
    exact Mark.noConfusion

theorem foldl_advanceTo_sound (hclosed : g.Closed) (hs : Sound g [] s) (vs : List Nat) :
    Sound g [] (vs.foldl (advanceTo g) s) ∧ Kept s (vs.foldl (advanceTo g) s) ∧
      ∀ v ∈ vs, (vs.foldl (advanceTo g) s).mark v ≠ .fresh := by
  -- Between two searches from the outer loop no vertex is grey.
  induction vs generalizing s with
  | nil => exact ⟨hs, Kept.refl s, by simp⟩
  | cons v vs ih =>
    obtain ⟨hsound, hkept, hseen⟩ := advanceTo_sound hclosed hs v
    obtain ⟨hsound', hkept', hseen'⟩ := ih hsound
    refine ⟨hsound', hkept.trans hkept', fun w hw => ?_⟩
    rcases List.mem_cons.1 hw with rfl | hw
    · exact hkept'.seen hseen
    · exact hseen' w hw

/-- The lists that the search gives are the components of the graph, and every vertex is in one. -/
theorem components_condensed (hclosed : g.Closed) :
    Condensed g g.components.reverse ∧ ∀ v, v ∈ g.components.flatten ↔ v < g.order := by
  obtain ⟨hsound, -, hseen⟩ :=
    foldl_advanceTo_sound hclosed (Sound.start g) (List.range g.order)
  rw [components_eq, List.reverse_reverse]
  refine ⟨hsound.condensed, fun v => ?_⟩
  rw [List.mem_flatten]
  simp only [List.mem_reverse]
  rw [← List.mem_flatten, hsound.found_iff]
  refine ⟨fun h => h.1, fun hv => ⟨hv, ?_⟩⟩
  -- Nothing is left on the path, as no vertex is grey any more.
  rcases hsound.path_or_found hv (hseen v (List.mem_range.2 hv)) with hpath | hfound
  · rw [hsound.path_eq_nil] at hpath
    cases hpath
  · exact ((hsound.found_iff v).1 hfound).2

end LayerGate.Digraph
