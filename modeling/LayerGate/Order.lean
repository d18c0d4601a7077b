/-!
# Sorted lists without repetition

Answers are given in increasing order; text is ordered by code point.
-/

namespace LayerGate

/-- Of neighbours that are equal, one stays. -/
def mergeEqual {α : Type} [DecidableEq α] : List α → List α
  | [] => []
  | [a] => [a]
  | a :: b :: rest => if a = b then mergeEqual (b :: rest) else a :: mergeEqual (b :: rest)

theorem mem_mergeEqual {α : Type} [DecidableEq α] {x : α} (xs : List α) :
    x ∈ mergeEqual xs ↔ x ∈ xs := by
  fun_induction mergeEqual xs with
  | case1 => simp
  | case2 => simp
  | case3 b rest ih => simp [ih]
  | case4 a b rest h ih => simp [ih]

/-- The distinct elements in increasing order. -/
def sortedDistinct {α : Type} [DecidableEq α] [Ord α] (xs : List α) : List α :=
  mergeEqual (xs.mergeSort fun a b => (compare a b).isLE)

theorem mem_sortedDistinct {α : Type} [DecidableEq α] [Ord α] {x : α} {xs : List α} :
    x ∈ sortedDistinct xs ↔ x ∈ xs := by
  simp [sortedDistinct, mem_mergeEqual]

end LayerGate
