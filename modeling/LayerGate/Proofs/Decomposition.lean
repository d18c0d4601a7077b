import LayerGate.Proofs.CycleCover
import LayerGate.Proofs.WorkStack

/-!
# Decomposition into components

For every graph whose edges end at vertices, the components that the search gives are the classes of
vertices that reach each other, and an edge between two of them leads to the one that was found first.
-/

namespace LayerGate.Digraph

variable {g : Digraph} {lists : List (List Nat)} {c d : List Nat} {i j v n : Nat}

/-- The lists take the graph apart into the classes of vertices that reach each other. -/
structure Decomposes (g : Digraph) (lists : List (List Nat)) : Prop where
  nonempty : ∀ c ∈ lists, c ≠ []
  increasing : ∀ c ∈ lists, c.Pairwise (· < ·)
  /-- Each vertex stands in one of the lists once, -/
  partition : lists.flatten.Perm (List.range g.order)
  /-- two of them in the same just if each reaches the other, -/
  together : ∀ v w, v < g.order → w < g.order →
    ((∃ c ∈ lists, v ∈ c ∧ w ∈ c) ↔ g.Reaches v w ∧ g.Reaches w v)
  /-- and an edge between two lists leads to the earlier one. -/
  reverseTopological : ∀ (i j : Nat) (c d : List Nat), lists[i]? = some c → lists[j]? = some d →
    i ≠ j → ∀ v ∈ c, ∀ w ∈ d, g.Step v w → j < i

/-- Lists without a common element tell by an element which of them it is. -/
theorem index_eq_of_mem (hnodup : lists.flatten.Nodup) (hc : lists[i]? = some c)
    (hd : lists[j]? = some d) (hvc : v ∈ c) (hvd : v ∈ d) : i = j := by
  have hdisjoint := List.pairwise_iff_getElem.1 (List.nodup_flatten.1 hnodup).2
  obtain ⟨hi, rfl⟩ := List.getElem?_eq_some_iff.1 hc
  obtain ⟨hj, rfl⟩ := List.getElem?_eq_some_iff.1 hd
  rcases Nat.lt_trichotomy i j with hlt | heq | hlt
  · exact absurd hvd (hdisjoint i j hi hj hlt hvc)
  · exact heq
  · exact absurd hvc (hdisjoint j i hj hi hlt hvd)

namespace Condensed

theorem increasing (h : Condensed g lists) (hc : c ∈ lists) : c.Pairwise (· < ·) := by
  have hnodup := (h.isComponent hc).nodup
  exact ((h.ordered c hc).and hnodup).imp fun hle => Nat.lt_of_le_of_ne hle.1 hle.2

/-- An edge from a component leads to it or to one that was found before. -/
theorem reverseTopological (h : Condensed g lists.reverse) (hnodup : lists.flatten.Nodup)
    (hc : lists[i]? = some c) (hd : lists[j]? = some d) (hne : i ≠ j) (hv : v ∈ c) {w : Nat}
    (hw : w ∈ d) (hstep : g.Step v w) : j < i := by
  -- What was found up to `c` is left by no edge.
  have hpart : (lists.take (i + 1)).reverse <:+ lists.reverse :=
    List.reverse_suffix.2 (List.take_prefix ..)
  have hin : c ∈ lists.take (i + 1) := by
    rw [List.mem_iff_getElem?]
    exact ⟨i, by rw [List.getElem?_take_of_lt (Nat.lt_succ_self i), hc]⟩
  have hvpart : v ∈ (lists.take (i + 1)).reverse.flatten :=
    List.mem_flatten.2 ⟨c, List.mem_reverse.2 hin, hv⟩
  obtain ⟨d', hd', hw'⟩ := List.mem_flatten.1 (h.closed _ hpart v hvpart w hstep)
  obtain ⟨k, hk⟩ := List.mem_iff_getElem?.1 (List.mem_reverse.1 hd')
  rw [List.getElem?_take] at hk
  split at hk
  · obtain rfl := index_eq_of_mem hnodup hd hk hw hw'
    omega
  · cases hk

theorem decomposes (h : Condensed g lists.reverse)
    (hall : ∀ v, v ∈ lists.flatten ↔ v < g.order) : Decomposes g lists := by
  have hnodup : lists.flatten.Nodup :=
    (List.Perm.flatten (List.reverse_perm lists)).nodup_iff.1 h.nodup
  refine ⟨fun c hc => h.nonempty c (List.mem_reverse.2 hc),
    fun c hc => h.increasing (List.mem_reverse.2 hc), ?_, fun v w hv hw => ⟨?_, ?_⟩,
    fun i j c d hc hd hne v hv w hw => h.reverseTopological hnodup hc hd hne hv hw⟩
  · rw [List.perm_ext_iff_of_nodup hnodup List.nodup_range]
    intro v
    rw [hall, List.mem_range]
  · rintro ⟨c, hc, hvc, hwc⟩
    exact (h.whole c (List.mem_reverse.2 hc) v hvc w).1 hwc
  · intro htogether
    obtain ⟨c, hc, hvc⟩ := List.mem_flatten.1 ((hall v).2 hv)
    exact ⟨c, hc, hvc, (h.whole c (List.mem_reverse.2 hc) v hvc w).2 htogether⟩

end Condensed

/-- Whatever its loops and repeated edges, a graph is taken apart by its components; and the loop that
does the search with a work stack comes to an end with just these, after two rounds for each vertex
and one for each edge at most. -/
theorem components_decompose (hclosed : g.Closed) :
    Decomposes g g.components ∧ ∀ n, Work.rounds g ≤ n →
      Work.step g (Work.after g n (Work.start g)) = none ∧
        (Work.after g n (Work.start g)).search.found.reverse = g.components := by
  obtain ⟨hcondensed, hall⟩ := components_condensed hclosed
  exact ⟨hcondensed.decomposes hall, fun n hn => Work.after_start hn⟩

theorem components_decompose_ringWithTail :
    ringWithTail.Closed ∧ Decomposes ringWithTail ringWithTail.components ∧
      Work.step ringWithTail (Work.after ringWithTail 11 (Work.start ringWithTail)) = none ∧
        (Work.after ringWithTail 11 (Work.start ringWithTail)).search.found.reverse =
          ringWithTail.components := by
  have hclosed : ringWithTail.Closed := by decide +kernel
  have hrounds : Work.rounds ringWithTail ≤ 11 := by decide
  obtain ⟨hdecomposes, hloop⟩ := components_decompose hclosed
  exact ⟨hclosed, hdecomposes, hloop 11 hrounds⟩

end LayerGate.Digraph
