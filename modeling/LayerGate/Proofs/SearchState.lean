import LayerGate.Graph.Components
import LayerGate.Proofs.Reachability

/-!
# The state of the component search

What holds of the marks, the path and the settled components between two moves of the search.  The
vertices whose successors are being looked at are called grey; they stand on the path, and each vertex
of the path belongs to one of them.
-/

namespace LayerGate.Digraph

/-! ## Components that are settled -/

/-- The lists are components of the graph, each whole, and no edge leads from an earlier settled
one to a later one. -/
structure Condensed (g : Digraph) (found : List (List Nat)) : Prop where
  nodup : found.flatten.Nodup
  nonempty : ∀ c ∈ found, c ≠ []
  ordered : ∀ c ∈ found, c.Pairwise (· ≤ ·)
  whole : ∀ c ∈ found, ∀ v ∈ c, ∀ w, w ∈ c ↔ g.Together v w
  closed : ∀ part, part <:+ found → ∀ v ∈ part.flatten, ∀ w, g.Step v w → w ∈ part.flatten

namespace Condensed

variable {g : Digraph} {found : List (List Nat)} {block : List Nat}

theorem nil (g : Digraph) : Condensed g [] where
  nodup := List.nodup_nil
  nonempty := by simp
  ordered := by simp
  whole := by simp
  closed := by
    intro part hpart v hv
    rw [List.suffix_nil.1 hpart] at hv
    cases hv

theorem not_mem_of_reaches (h : Condensed g found) {v w : Nat} (hvw : g.Reaches v w)
    (hw : w ∉ found.flatten) : v ∉ found.flatten := fun hv =>
  hw (hvw.mem (p := fun x => x ∈ found.flatten) (h.closed found (List.suffix_refl _)) hv)

/-- Vertices that reach each other, with no edge to anywhere but themselves and what is settled, are
the next component. -/
theorem cons (h : Condensed g found) (hne : block ≠ []) (hnodup : block.Nodup)
    (hnew : ∀ v ∈ block, v ∉ found.flatten) (hreach : ∀ v ∈ block, ∀ w ∈ block, g.Reaches v w)
    (hstep : ∀ v ∈ block, ∀ w, g.Step v w → w ∈ block ∨ w ∈ found.flatten) :
    Condensed g (block.mergeSort :: found) := by
  have hmem : ∀ v, v ∈ block.mergeSort ↔ v ∈ block := fun v => List.mem_mergeSort
  have hclosed : ∀ v, (v ∈ block ∨ v ∈ found.flatten) → ∀ w, g.Step v w →
      w ∈ block ∨ w ∈ found.flatten := by
    rintro v (hv | hv) w hw
    · exact hstep v hv w hw
    · exact .inr (h.closed found (List.suffix_refl _) v hv w hw)
  -- Sorting the block changes none of this but its order.
  refine ⟨?_, ?_, ?_, ?_, ?_⟩
  · rw [List.flatten_cons, List.nodup_append]
    refine ⟨(List.mergeSort_perm block _).nodup_iff.2 hnodup, h.nodup, ?_⟩
    rintro v hv w hw rfl
    exact hnew v ((hmem v).1 hv) hw
  · intro c hc
    rcases List.mem_cons.1 hc with rfl | hc
    · intro hnil
      have hlength : block.mergeSort.length = block.length := List.length_mergeSort block
      rw [hnil] at hlength
      exact hne (List.length_eq_zero_iff.1 hlength.symm)
    · exact h.nonempty c hc
  · intro c hc
    rcases List.mem_cons.1 hc with rfl | hc
    · have hsorted : block.mergeSort.Pairwise fun a b => decide (a ≤ b) = true :=
        List.pairwise_mergeSort (by intro a b c; simp; omega) (by intro a b; simp; omega) block
      exact hsorted.imp of_decide_eq_true
    · exact h.ordered c hc
  · intro c hc v hv w
    rcases List.mem_cons.1 hc with rfl | hc
    · rw [hmem] at hv ⊢
      constructor
      · intro hw
        exact ⟨hreach v hv w hw, hreach w hw v hv⟩
      · intro htogether
        -- Whatever a vertex of the block reaches and is reached by cannot be settled yet.
        rcases htogether.1.mem (p := fun x => x ∈ block ∨ x ∈ found.flatten) hclosed (.inl hv) with
          hw | hw
        · exact hw
        · exact absurd hw (h.not_mem_of_reaches htogether.2 (hnew v hv))
    · exact h.whole c hc v hv w
  · intro part hpart v hv w hw
    rcases List.suffix_cons_iff.1 hpart with rfl | hpart
    · rw [List.flatten_cons, List.mem_append, hmem] at hv ⊢
      exact hclosed v hv w hw
    · exact h.closed part hpart v hv w hw

end Condensed

/-! ## Marks and ranks -/

namespace Search

variable {s : Search} {v w r : Nat} {new rest : List Nat}

/-- The rank of a vertex on the path. -/
def rank (s : Search) (v : Nat) : Nat :=
  match s.mark v with
  | .active r => r
  | _ => 0

theorem rank_of_mark (h : s.mark v = .active r) : s.rank v = r := by rw [rank, h]

theorem mark_enter (hv : v < s.marks.size) :
    (s.enter v).mark w = if w = v then .active s.entered else s.mark w := by
  rw [mark, mark, enter, Array.getElem?_setIfInBounds]
  by_cases h : v = w
  · subst h
    rw [if_pos rfl, if_pos hv, if_pos rfl, Option.getD_some]
  · rw [if_neg h, if_neg (Ne.symm h)]

theorem rank_enter_self (hv : v < s.marks.size) : (s.enter v).rank v = s.entered := by
  apply rank_of_mark
  rw [mark_enter hv, if_pos rfl]

theorem rank_enter_of_ne (hv : v < s.marks.size) (h : w ≠ v) : (s.enter v).rank w = s.rank w := by
  rw [rank, rank, mark_enter hv, if_neg h]

theorem size_settled (block : List Nat) (marks : Array Mark) :
    (block.foldl (fun marks w => marks.setIfInBounds w .settled) marks).size = marks.size := by
  induction block generalizing marks with
  | nil => rfl
  | cons u block ih => rw [List.foldl_cons, ih, Array.size_setIfInBounds]

theorem getD_settled (block : List Nat) (marks : Array Mark) (w : Nat) :
    (block.foldl (fun marks w => marks.setIfInBounds w .settled) marks)[w]?.getD .settled =
      if w ∈ block then .settled else marks[w]?.getD .settled := by
  -- A vertex outside of the array counts as settled before and after.
  induction block generalizing marks with
  | nil => rfl
  | cons u block ih =>
    rw [List.foldl_cons, ih, Array.getElem?_setIfInBounds]
    by_cases hw : w ∈ block
    · rw [if_pos hw, if_pos (List.mem_cons_of_mem _ hw)]
    · rw [if_neg hw]
      by_cases hu : u = w
      · subst hu
        rw [if_pos rfl, if_pos (List.mem_cons_self ..)]
        split <;> rfl
      · rw [if_neg hu, if_neg (by simp [hw, Ne.symm hu])]

/-- Settling `v` takes it from the path with all that stands above it. -/
theorem settle_eq (hpath : s.path = new ++ v :: rest) (hv : v ∉ new) :
    s.settle v =
      { marks := (new ++ [v]).foldl (fun marks w => marks.setIfInBounds w .settled) s.marks
        entered := s.entered
        path := rest
        found := (new ++ [v]).mergeSort :: s.found } := by
  have hnew : ∀ x ∈ new, decide (x ≠ v) = true := by
    intro x hx
    exact decide_eq_true fun he => hv (he ▸ hx)
  have htake : s.path.takeWhile (fun x => decide (x ≠ v)) = new := by
    rw [hpath, List.takeWhile_append_of_pos hnew, List.takeWhile_cons_of_neg (by simp),
      List.append_nil]
  have hdrop : s.path.dropWhile (fun x => decide (x ≠ v)) = v :: rest := by
    rw [hpath, List.dropWhile_append_of_pos hnew, List.dropWhile_cons_of_neg (by simp)]
  rw [settle, htake, hdrop]
  rfl

theorem mark_settle (hpath : s.path = new ++ v :: rest) (hv : v ∉ new) :
    (s.settle v).mark w = if w ∈ new ++ [v] then .settled else s.mark w := by
  rw [settle_eq hpath hv, mark, getD_settled, mark]

/-! ## Moves that keep what is known -/

/-- From `s` to `t` vertices are entered, and what `s` says of a vertex that is not fresh is kept. -/
structure Kept (s t : Search) : Prop where
  path : s.path <:+ t.path
  entered : s.entered ≤ t.entered
  mark : ∀ w, s.mark w ≠ .fresh → t.mark w = s.mark w

namespace Kept

variable {t u : Search}

theorem refl (s : Search) : Kept s s := ⟨List.suffix_refl _, Nat.le_refl _, fun _ _ => rfl⟩

theorem trans (hst : Kept s t) (htu : Kept t u) : Kept s u where
  path := hst.path.trans htu.path
  entered := Nat.le_trans hst.entered htu.entered
  mark w hw := by
    have ht := hst.mark w hw
    rw [htu.mark w (ht ▸ hw), ht]

theorem seen (h : Kept s t) (hw : s.mark w ≠ .fresh) : t.mark w ≠ .fresh := by
  rw [h.mark w hw]
  exact hw

theorem rank (h : Kept s t) (hw : s.mark w ≠ .fresh) : t.rank w = s.rank w := by
  rw [Search.rank, Search.rank, h.mark w hw]

end Kept

theorem kept_enter (hfresh : s.mark v = .fresh) (hv : v < s.marks.size) : Kept s (s.enter v) where
  path := List.suffix_cons ..
  entered := Nat.le_succ _
  mark w hw := by
    rw [mark_enter hv, if_neg]
    rintro rfl
    exact hw hfresh

/-! ## The invariant -/

/-- Between two moves the path holds the entered vertices in the order of their ranks, what is settled
is components, and a vertex of the path is reached from the grey vertices below it and reaches one
of them. -/
structure Sound (g : Digraph) (grey : List Nat) (s : Search) : Prop where
  size : s.marks.size = g.order
  entered : s.entered = s.path.length + s.found.flatten.length
  path_iff : ∀ v, v ∈ s.path ↔ ∃ r, s.mark v = .active r
  ordered : s.path.Pairwise fun x y => s.rank y < s.rank x
  below : ∀ v ∈ s.path, s.rank v < s.entered
  found_iff : ∀ v, v ∈ s.found.flatten ↔ v < g.order ∧ s.mark v = .settled
  condensed : Condensed g s.found
  grey_path : ∀ x ∈ grey, x ∈ s.path
  down : ∀ x ∈ grey, ∀ y ∈ s.path, s.rank x ≤ s.rank y → g.Reaches x y
  up : ∀ y ∈ s.path, ∃ x ∈ grey, s.rank x ≤ s.rank y ∧ g.Reaches y x
  scanned : ∀ y ∈ s.path, y ∉ grey → ∀ z, g.Step y z → s.mark z ≠ .fresh

namespace Sound

variable {g : Digraph} {grey : List Nat}

theorem seen (h : Sound g grey s) (hv : v ∈ s.path) : s.mark v ≠ .fresh := by
  obtain ⟨r, hr⟩ := (h.path_iff v).1 hv
  rw [hr]
  exact Mark.noConfusion

theorem not_found (h : Sound g grey s) (hv : v ∈ s.path) : v ∉ s.found.flatten := by
  intro hfound
  obtain ⟨r, hr⟩ := (h.path_iff v).1 hv
  rw [((h.found_iff v).1 hfound).2] at hr
  cases hr

theorem lt_order (h : Sound g grey s) (hv : s.mark v ≠ .settled) : v < g.order := by
  by_contra hle
  apply hv
  rw [mark, Array.getElem?_eq_none (by rw [h.size]; omega), Option.getD_none]

theorem path_lt_order (h : Sound g grey s) (hv : v ∈ s.path) : v < g.order := by
  obtain ⟨r, hr⟩ := (h.path_iff v).1 hv
  apply h.lt_order
  rw [hr]
  exact Mark.noConfusion

theorem path_nodup (h : Sound g grey s) : s.path.Nodup := by
  refine h.ordered.imp ?_
  rintro x y hlt rfl
  exact Nat.lt_irrefl _ hlt

/-- A vertex is fresh, on the path or settled. -/
theorem path_or_found (h : Sound g grey s) (hlt : v < g.order) (hv : s.mark v ≠ .fresh) :
    v ∈ s.path ∨ v ∈ s.found.flatten := by
  cases hmark : s.mark v with
  | fresh => exact absurd hmark hv
  | active r => exact .inl ((h.path_iff v).2 ⟨r, hmark⟩)
  | settled => exact .inr ((h.found_iff v).2 ⟨hlt, hmark⟩)

/-- As long as a vertex is fresh, not all have been entered. -/
theorem entered_lt (h : Sound g grey s) (hv : s.mark v = .fresh) : s.entered < g.order := by
  have hlt : v < g.order := h.lt_order (by rw [hv]; exact Mark.noConfusion)
  -- The fresh vertex and all that have been entered are different vertices.
  have hnodup : (v :: (s.path ++ s.found.flatten)).Nodup := by
    rw [List.nodup_cons, List.nodup_append, List.mem_append]
    refine ⟨?_, h.path_nodup, h.condensed.nodup, ?_⟩
    · rintro (hpath | hfound)
      · exact h.seen hpath hv
      · rw [((h.found_iff v).1 hfound).2] at hv
        cases hv
    · rintro x hx y hy rfl
      exact h.not_found hx hy
  have hbound : ∀ x ∈ v :: (s.path ++ s.found.flatten), x < g.order := by
    intro x hx
    rcases List.mem_cons.1 hx with rfl | hx
    · exact hlt
    · rcases List.mem_append.1 hx with hpath | hfound
      · exact h.path_lt_order hpath
      · exact ((h.found_iff x).1 hfound).1
  have hlength := length_le_order hnodup hbound
  rw [List.length_cons, List.length_append, ← h.entered] at hlength
  exact hlength

/-- With no grey vertex the path is empty. -/
theorem path_eq_nil (h : Sound g [] s) : s.path = [] := by
  rw [List.eq_nil_iff_forall_not_mem]
  intro y hy
  obtain ⟨x, hx, -⟩ := h.up y hy
  cases hx

theorem start (g : Digraph) : Sound g [] (Search.start g.order) := by
  have hmark : ∀ v, (Search.start g.order).mark v = if v < g.order then .fresh else .settled := by
    intro v
    rw [mark, Search.start, Array.getElem?_replicate]
    split <;> rfl
  refine ⟨Array.size_replicate .., rfl, ?_, List.Pairwise.nil, ?_, ?_, Condensed.nil g, ?_, ?_, ?_,
    ?_⟩
  · intro v
    rw [hmark]
    constructor
    · intro hv
      cases hv
    · rintro ⟨r, hr⟩
      split at hr <;> cases hr
  · intro v hv
    cases hv
  · intro v
    rw [hmark]
    constructor
    · intro hv
      cases hv
    · rintro ⟨hlt, hv⟩
      rw [if_pos hlt] at hv
      cases hv
  · intro x hx
    cases hx
  · intro x hx
    cases hx
  · intro y hy
    cases hy
  · intro y hy
    cases hy

/-- Entering a fresh vertex that all grey ones reach makes it grey. -/
theorem enter (h : Sound g grey s) (hfresh : s.mark v = .fresh)
    (hgrey : ∀ x ∈ grey, g.Reaches x v) : Sound g (v :: grey) (s.enter v) := by
  have hv : v < s.marks.size := by
    rw [h.size]
    exact h.lt_order (by rw [hfresh]; exact Mark.noConfusion)
  -- What stands on the path already keeps its rank.
  have hnot : ∀ x ∈ s.path, x ≠ v := fun x hx he => h.seen hx (he ▸ hfresh)
  have hrank : ∀ x ∈ s.path, (s.enter v).rank x = s.rank x := fun x hx =>
    rank_enter_of_ne hv (hnot x hx)
  have hself : (s.enter v).rank v = s.entered := rank_enter_self hv
  refine ⟨?_, ?_, ?_, ?_, ?_, ?_, h.condensed, ?_, ?_, ?_, ?_⟩
  · rw [← h.size]
    exact Array.size_setIfInBounds
  · show s.entered + 1 = s.path.length + 1 + s.found.flatten.length
    have hentered := h.entered
    omega
  · intro x
    rw [mark_enter hv]
    show x ∈ v :: s.path ↔ _
    by_cases hx : x = v
    · rw [if_pos hx, hx]
      exact ⟨fun _ => ⟨s.entered, rfl⟩, fun _ => List.mem_cons_self ..⟩
    · rw [if_neg hx, List.mem_cons, or_iff_right hx]
      exact h.path_iff x
  · refine List.pairwise_cons.2 ⟨fun x hx => ?_, ?_⟩
    · rw [hself, hrank x hx]
      exact h.below x hx
    · refine h.ordered.imp_of_mem fun hx hy hlt => ?_
      rw [hrank _ hx, hrank _ hy]
      exact hlt
  · intro x hx
    show _ < s.entered + 1
    rcases List.mem_cons.1 hx with rfl | hx
    · rw [hself]
      exact Nat.lt_succ_self _
    · rw [hrank x hx]
      exact Nat.lt_succ_of_lt (h.below x hx)
  · intro x
    rw [mark_enter hv]
    show x ∈ s.found.flatten ↔ _
    rw [h.found_iff]
    by_cases hx : x = v
    · rw [if_pos hx, hx, hfresh]
      simp
    · rw [if_neg hx]
  · intro x hx
    rcases List.mem_cons.1 hx with rfl | hx
    · exact List.mem_cons_self ..
    · exact List.mem_cons_of_mem _ (h.grey_path x hx)
  · intro x hx y hy hle
    rcases List.mem_cons.1 hy with rfl | hpath
    · rcases List.mem_cons.1 hx with rfl | hx
      · exact Reaches.refl _
      · exact hgrey x hx
    · rw [hrank y hpath] at hle
      rcases List.mem_cons.1 hx with rfl | hx
      · -- The entered vertex has the highest rank.
        have hbelow := h.below y hpath
        omega
      · rw [hrank x (h.grey_path x hx)] at hle
        exact h.down x hx y hpath hle
  · intro y hy
    rcases List.mem_cons.1 hy with rfl | hy
    · exact ⟨y, List.mem_cons_self .., Nat.le_refl _, Reaches.refl _⟩
    · obtain ⟨x, hx, hle, hreach⟩ := h.up y hy
      refine ⟨x, List.mem_cons_of_mem _ hx, ?_, hreach⟩
      rw [hrank y hy, hrank x (h.grey_path x hx)]
      exact hle
  · intro y hy hnotgrey z hz
    rw [List.mem_cons, not_or] at hnotgrey
    rcases List.mem_cons.1 hy with rfl | hy
    · exact absurd rfl hnotgrey.1
    · exact (kept_enter hfresh hv).seen (h.scanned y hy hnotgrey.2 z hz)

/-- The invariant holds again with the path as it was, when what has been entered since is settled. -/
theorem restore {t : Search} (h : Sound g grey s) (hkept : Kept s t) (hpath : t.path = s.path)
    (hsize : t.marks.size = g.order) (hentered : t.entered = s.path.length + t.found.flatten.length)
    (hactive : ∀ v r, t.mark v = .active r → v ∈ s.path)
    (hfound : ∀ v, v ∈ t.found.flatten ↔ v < g.order ∧ t.mark v = .settled)
    (hcondensed : Condensed g t.found) : Sound g grey t := by
  have hrank : ∀ x ∈ s.path, t.rank x = s.rank x := fun x hx => hkept.rank (h.seen hx)
  refine ⟨hsize, ?_, ?_, ?_, ?_, hfound, hcondensed, ?_, ?_, ?_, ?_⟩ <;> rw [hpath]
  · exact hentered
  · intro x
    constructor
    · intro hx
      rw [hkept.mark x (h.seen hx)]
      exact (h.path_iff x).1 hx
    · rintro ⟨r, hr⟩
      exact hactive x r hr
  · refine h.ordered.imp_of_mem fun hx hy hlt => ?_
    rw [hrank _ hx, hrank _ hy]
    exact hlt
  · intro x hx
    rw [hrank x hx]
    exact Nat.lt_of_lt_of_le (h.below x hx) hkept.entered
  · exact h.grey_path
  · intro x hx y hy hle
    rw [hrank x (h.grey_path x hx), hrank y hy] at hle
    exact h.down x hx y hy hle
  · intro y hy
    obtain ⟨x, hx, hle, hreach⟩ := h.up y hy
    refine ⟨x, hx, ?_, hreach⟩
    rw [hrank x (h.grey_path x hx), hrank y hy]
    exact hle
  · intro y hy hgrey z hz
    exact hkept.seen (h.scanned y hy hgrey z hz)

end Sound

end Search

end LayerGate.Digraph
