import LayerGate.Order
import LayerGate.Proofs.StableSorting

/-!
# Strictly sorted lists

Sorting and dropping equal neighbours leaves the elements of a list, each once and in increasing
order, whenever the order is total and only equal elements compare equal.
-/

namespace LayerGate

/-- Each element is below all that follow it. -/
def StrictlySorted {α : Type} [Ord α] (xs : List α) : Prop :=
  xs.Pairwise fun a b => compare a b = .lt

section

variable {α : Type} [Ord α] [Std.TransOrd α] [Std.LawfulEqOrd α] {xs ys : List α}

omit [Std.LawfulEqOrd α] in
theorem StrictlySorted.nodup (h : StrictlySorted xs) : xs.Nodup := by
  refine h.imp fun hlt he => ?_
  rw [he, Std.ReflOrd.compare_self] at hlt
  cases hlt

omit [Std.LawfulEqOrd α] in
/-- The elements determine a strictly sorted list. -/
theorem StrictlySorted.eq_of_mem_iff (hx : StrictlySorted xs) (hy : StrictlySorted ys)
    (h : ∀ a, a ∈ xs ↔ a ∈ ys) : xs = ys := by
  induction xs generalizing ys with
  | nil =>
    symm
    exact List.eq_nil_iff_forall_not_mem.2 fun a ha => List.not_mem_nil ((h a).2 ha)
  | cons a xs ih =>
    cases ys with
    | nil => exact absurd ((h a).1 (List.mem_cons_self ..)) List.not_mem_nil
    | cons b ys =>
      obtain ⟨hax, hxs⟩ := List.pairwise_cons.1 hx
      obtain ⟨hby, hys⟩ := List.pairwise_cons.1 hy
      -- Neither head can stand behind the other, so they are one.
      have hab : a = b := by
        rcases List.mem_cons.1 ((h a).1 (List.mem_cons_self ..)) with he | ha
        · exact he
        · rcases List.mem_cons.1 ((h b).2 (List.mem_cons_self ..)) with he | hb
          · exact he.symm
          · have h₁ := hby a ha
            have h₂ := hax b hb
            rw [Std.OrientedOrd.eq_swap, h₂] at h₁
            cases h₁
      subst hab
      have hnodup := StrictlySorted.nodup hx
      have hnodup' := StrictlySorted.nodup hy
      rw [List.nodup_cons] at hnodup hnodup'
      rw [ih hxs hys]
      intro c
      constructor
      · intro hc
        rcases List.mem_cons.1 ((h c).1 (List.mem_cons_of_mem _ hc)) with rfl | hc'
        · exact absurd hc hnodup.1
        · exact hc'
      · intro hc
        rcases List.mem_cons.1 ((h c).2 (List.mem_cons_of_mem _ hc)) with rfl | hc'
        · exact absurd hc hnodup'.1
        · exact hc'

variable [DecidableEq α]

theorem strictlySorted_mergeEqual (h : xs.Pairwise fun a b => (compare a b).isLE = true) :
    StrictlySorted (mergeEqual xs) := by
  fun_induction mergeEqual xs with
  | case1 => exact List.Pairwise.nil
  | case2 => exact List.pairwise_singleton ..
  | case3 b rest ih => exact ih (List.pairwise_cons.1 h).2
  | case4 a b rest hne ih =>
    obtain ⟨ha, hb⟩ := List.pairwise_cons.1 h
    refine List.pairwise_cons.2 ⟨fun c hc => ?_, ih hb⟩
    have hc : c ∈ b :: rest := (mem_mergeEqual _).1 hc
    have hac := ha c hc
    rcases Ordering.isLE_iff_eq_lt_or_eq_eq.1 hac with hlt | heq
    · exact hlt
    · -- An equal element further on would make `b` equal too.
      exfalso
      obtain rfl : a = c := Std.LawfulEqOrd.eq_of_compare heq
      have hba : (compare b a).isLE = true := by
        rcases List.mem_cons.1 hc with rfl | hmem
        · exact absurd rfl hne
        · exact (List.pairwise_cons.1 hb).1 a hmem
      have hab := ha b (List.mem_cons_self ..)
      exact hne (Std.LawfulEqOrd.eq_of_compare (Std.OrientedCmp.isLE_antisymm hab hba))

theorem strictlySorted_sortedDistinct (xs : List α) : StrictlySorted (sortedDistinct xs) :=
  strictlySorted_mergeEqual (pairwise_mergeSort_isLE xs)

/-- The strictly sorted list of the same elements is what sorting gives. -/
theorem StrictlySorted.eq_sortedDistinct (hy : StrictlySorted ys) (h : ∀ a, a ∈ xs ↔ a ∈ ys) :
    sortedDistinct xs = ys :=
  (strictlySorted_sortedDistinct xs).eq_of_mem_iff hy fun a => mem_sortedDistinct.trans (h a)

/-- Sorting changes nothing in a list that is strictly sorted. -/
theorem StrictlySorted.sortedDistinct_eq (h : StrictlySorted xs) : sortedDistinct xs = xs :=
  h.eq_sortedDistinct fun _ => Iff.rfl

/-- Neither the order of the elements nor their repetition matters. -/
theorem sortedDistinct_congr (h : ∀ a, a ∈ xs ↔ a ∈ ys) : sortedDistinct xs = sortedDistinct ys :=
  (strictlySorted_sortedDistinct ys).eq_sortedDistinct fun a => (h a).trans mem_sortedDistinct.symm

end

end LayerGate
