/-!
# Directed graphs

Vertices are the numbers below `order`; each has a list of successors, in which order and repetition
are kept as given.
-/

namespace LayerGate

structure Digraph where
  successors : Array (List Nat)
  deriving Repr

/-- What goes wrong when a graph is asked about a vertex that it does not have, or when a component
that must hold a cycle does not. -/
inductive Digraph.Fault where
  | noSuchVertex
  | noCycleThrough (v : Nat)
  deriving DecidableEq, Repr

namespace Digraph

def ofLists (lists : List (List Nat)) : Digraph := ⟨lists.toArray⟩

def order (g : Digraph) : Nat := g.successors.size

/-- The successors of `v`; a vertex outside the graph has none. -/
def next (g : Digraph) (v : Nat) : List Nat := g.successors[v]?.getD []

/-- Every successor is a vertex. -/
def Closed (g : Digraph) : Prop := ∀ v, ∀ w ∈ g.next v, w < g.order

/-- A graph whose successor lists name only vertices. -/
def isClosed (g : Digraph) : Bool := g.successors.all fun ws => ws.all (· < g.order)

theorem next_of_le {g : Digraph} {v : Nat} (h : g.order ≤ v) : g.next v = [] := by
  simp [next, Array.getElem?_eq_none (by simpa [order] using h)]

theorem isClosed_iff (g : Digraph) : g.isClosed = true ↔ g.Closed := by
  simp only [isClosed, Closed, Array.all_eq_true, List.all_eq_true, decide_eq_true_eq]
  constructor
  · intro h v w hw
    by_cases hv : v < g.successors.size
    · rw [next, Array.getElem?_eq_getElem hv] at hw
      exact h v hv w hw
    · rw [next_of_le (by simpa [order] using hv)] at hw
      cases hw
  · intro h v hv w hw
    exact h v w (by rw [next, Array.getElem?_eq_getElem hv]; exact hw)

instance (g : Digraph) : Decidable g.Closed := decidable_of_iff _ g.isClosed_iff

end Digraph

end LayerGate
