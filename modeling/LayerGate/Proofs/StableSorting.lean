import Mathlib.Tactic.Common
import Mathlib.Data.List.Basic

/-!
# Stable sorting

Sorting moves nothing past what it compares equal to.  A sorted list is therefore known from its ties,
the parts whose elements compare equal, and sorting what is left of a list leaves as much of the
sorted list.
-/

namespace LayerGate

variable {α : Type} {cmp : α → α → Ordering} {xs ys : List α} {a b : α}

/-- The elements that compare equal to `a`, in their order. -/
def ties (cmp : α → α → Ordering) (a : α) (xs : List α) : List α := xs.filter fun b => cmp a b = .eq

theorem mem_ties_iff : b ∈ ties cmp a xs ↔ b ∈ xs ∧ cmp a b = .eq := by
  rw [ties, List.mem_filter, decide_eq_true_eq]

theorem ties_cons_of_eq (h : cmp a b = .eq) : ties cmp a (b :: xs) = b :: ties cmp a xs :=
  List.filter_cons_of_pos (decide_eq_true h)

theorem ties_cons_of_ne (h : cmp a b ≠ .eq) : ties cmp a (b :: xs) = ties cmp a xs :=
  List.filter_cons_of_neg (by simpa using h)

/-- To leave out what does not tie changes no ties. -/
theorem ties_filter {p : α → Bool} (h : ∀ b, cmp a b = .eq → p b = true) :
    ties cmp a (xs.filter p) = ties cmp a xs := by
  rw [ties, ties, List.filter_filter]
  refine List.filter_congr fun b _ => ?_
  rw [Bool.and_eq_left_iff_imp]
  exact fun hb => h b (of_decide_eq_true hb)

variable [Std.TransCmp cmp]

/-! ## Sorted lists -/

theorem isLE_total (a b : α) : ((cmp a b).isLE || (cmp b a).isLE) = true := by
  have hswap : cmp b a = (cmp a b).swap := Std.OrientedCmp.eq_swap
  rw [hswap]
  cases cmp a b <;> rfl

theorem pairwise_mergeSort_isLE (xs : List α) :
    (xs.mergeSort fun a b => (cmp a b).isLE).Pairwise fun a b => (cmp a b).isLE = true :=
  List.pairwise_mergeSort (fun _ _ _ => Std.TransCmp.isLE_trans) isLE_total xs

/-- Sorted lists with the same ties are one. -/
theorem eq_of_ties_eq (hx : xs.Pairwise fun a b => (cmp a b).isLE = true)
    (hy : ys.Pairwise fun a b => (cmp a b).isLE = true)
    (h : ∀ a, ties cmp a xs = ties cmp a ys) : xs = ys := by
  have hself : ∀ a, cmp a a = .eq := fun _ => Std.ReflCmp.compare_self
  -- Every element is in its own ties, so both lists have the same elements.
  have hmem : ∀ {xs ys : List α}, (∀ a, ties cmp a xs = ties cmp a ys) → ∀ a ∈ xs, a ∈ ys := by
    intro xs ys h a ha
    have hties : a ∈ ties cmp a xs := mem_ties_iff.2 ⟨ha, hself a⟩
    rw [h] at hties
    exact (mem_ties_iff.1 hties).1
  induction xs generalizing ys with
  | nil =>
    symm
    exact List.eq_nil_iff_forall_not_mem.2 fun a ha =>
      List.not_mem_nil (hmem (fun a => (h a).symm) a ha)
  | cons x xs ih =>
    cases ys with
    | nil => exact absurd (hmem h x (List.mem_cons_self ..)) List.not_mem_nil
    | cons y ys =>
      obtain ⟨hxs, hxs'⟩ := List.pairwise_cons.1 hx
      obtain ⟨hys, hys'⟩ := List.pairwise_cons.1 hy
      -- Neither head is above the other, so they tie, and they are the first of their ties.
      have hxy : (cmp x y).isLE = true := by
        rcases List.mem_cons.1 (hmem (fun a => (h a).symm) y (List.mem_cons_self ..)) with rfl | hin
        · rw [hself]
          rfl
        · exact hxs y hin
      have hyx : (cmp y x).isLE = true := by
        rcases List.mem_cons.1 (hmem h x (List.mem_cons_self ..)) with rfl | hin
        · rw [hself]
          rfl
        · exact hys x hin
      have htie : cmp x y = .eq := Std.OrientedCmp.isLE_antisymm hxy hyx
      have hheads := h x
      rw [ties_cons_of_eq (hself x), ties_cons_of_eq htie] at hheads
      obtain ⟨rfl, -⟩ := List.cons.inj hheads
      congr 1
      refine ih hxs' hys' fun a => ?_
      have hrest := h a
      by_cases ha : cmp a x = .eq
      · rw [ties_cons_of_eq ha, ties_cons_of_eq ha] at hrest
        exact (List.cons.inj hrest).2
      · rwa [ties_cons_of_ne ha, ties_cons_of_ne ha] at hrest

/-! ## Sorting -/

theorem isLE_of_ties (hb : cmp a b = .eq) {c : α} (hc : cmp a c = .eq) :
    (cmp b c).isLE = true := by
  have hswap : cmp b a = (cmp a b).swap := Std.OrientedCmp.eq_swap
  refine Std.TransCmp.isLE_trans (b := a) ?_ ?_
  · rw [hswap, hb]
    rfl
  · rw [hc]
    rfl

/-- Sorting keeps the order of what ties. -/
theorem ties_mergeSort (a : α) (xs : List α) :
    ties cmp a (xs.mergeSort fun a b => (cmp a b).isLE) = ties cmp a xs := by
  have hpairwise : (ties cmp a xs).Pairwise fun b c => (cmp b c).isLE = true :=
    List.pairwise_of_forall_mem_list fun b hb c hc =>
      isLE_of_ties (mem_ties_iff.1 hb).2 (mem_ties_iff.1 hc).2
  have hsub : (ties cmp a xs).Sublist (xs.mergeSort fun a b => (cmp a b).isLE) :=
    List.sublist_mergeSort (fun _ _ _ => Std.TransCmp.isLE_trans) isLE_total hpairwise
      List.filter_sublist
  have hfilter := hsub.filter fun b => decide (cmp a b = .eq)
  have hidem : (ties cmp a xs).filter (fun b => decide (cmp a b = .eq)) = ties cmp a xs :=
    List.filter_eq_self.2 fun b hb => decide_eq_true (mem_ties_iff.1 hb).2
  rw [hidem] at hfilter
  symm
  exact hfilter.eq_of_length ((List.mergeSort_perm ..).filter _).length_eq.symm

/-- Lists with the same ties sort alike. -/
theorem mergeSort_eq_of_ties_eq (h : ∀ a, ties cmp a xs = ties cmp a ys) :
    (xs.mergeSort fun a b => (cmp a b).isLE) = ys.mergeSort fun a b => (cmp a b).isLE := by
  refine eq_of_ties_eq (pairwise_mergeSort_isLE xs) (pairwise_mergeSort_isLE ys) fun a => ?_
  rw [ties_mergeSort, ties_mergeSort, h]

/-- Leaving elements out of a sorted list is sorting the list without them. -/
theorem filter_mergeSort (p : α → Bool) (xs : List α) :
    (xs.mergeSort fun a b => (cmp a b).isLE).filter p =
      (xs.filter p).mergeSort fun a b => (cmp a b).isLE := by
  refine eq_of_ties_eq ((pairwise_mergeSort_isLE xs).filter p) (pairwise_mergeSort_isLE _)
    fun a => ?_
  have hcomm : ∀ ys : List α, ties cmp a (ys.filter p) = (ties cmp a ys).filter p := by
    intro ys
    rw [ties, ties, List.filter_filter, List.filter_filter]
    exact List.filter_congr fun b _ => Bool.and_comm ..
  rw [hcomm, ties_mergeSort, ties_mergeSort, hcomm]

end LayerGate
