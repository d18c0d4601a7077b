import Mathlib.Data.List.Perm.Subperm
import Mathlib.Tactic.Common
import Mathlib.Logic.Relation
import LayerGate.Graph.Digraph

/-!
# Reachability

Walks along the edges of a graph, and the vertices that lie on a cycle.
-/

namespace LayerGate.Digraph

/-- `w` is a successor of `v`. -/
def Step (g : Digraph) (v w : Nat) : Prop := w ∈ g.next v

instance (g : Digraph) : DecidableRel g.Step := fun v w => inferInstanceAs (Decidable (w ∈ g.next v))

/-- There is a walk from `v` to `w`, perhaps without an edge. -/
def Reaches (g : Digraph) (v w : Nat) : Prop := Relation.ReflTransGen g.Step v w

/-- Each of the vertices reaches the other. -/
def Together (g : Digraph) (v w : Nat) : Prop := g.Reaches v w ∧ g.Reaches w v

/-- There is a walk of one edge or more from `v` back to `v`. -/
def OnCycle (g : Digraph) (v : Nat) : Prop := Relation.TransGen g.Step v v

variable {g : Digraph} {u v w : Nat}

theorem Reaches.refl (v : Nat) : g.Reaches v v := Relation.ReflTransGen.refl

theorem Step.reaches (h : g.Step v w) : g.Reaches v w := Relation.ReflTransGen.single h

theorem Reaches.trans (huv : g.Reaches u v) (hvw : g.Reaches v w) : g.Reaches u w :=
  Relation.ReflTransGen.trans huv hvw

/-- A walk does not leave a set of vertices that no edge leaves. -/
theorem Reaches.mem {p : Nat → Prop} (hp : ∀ v, p v → ∀ w, g.Step v w → p w) (h : g.Reaches v w)
    (hv : p v) : p w := by
  induction h with
  | refl => exact hv
  | tail _ hstep ih => exact hp _ ih _ hstep

theorem Step.source_lt (h : g.Step v w) : v < g.order := by
  by_contra hv
  rw [Step, next_of_le (by omega)] at h
  cases h

theorem length_le_order {vs : List Nat} (hnodup : vs.Nodup) (hlt : ∀ v ∈ vs, v < g.order) :
    vs.length ≤ g.order := by
  have hsub : vs ⊆ List.range g.order := fun v hv => List.mem_range.2 (hlt v hv)
  have hle := (hnodup.subperm hsub).length_le
  rw [List.length_range] at hle
  exact hle

theorem onCycle_iff : g.OnCycle v ↔ ∃ w, g.Step v w ∧ g.Reaches w v := Relation.TransGen.head'_iff

theorem OnCycle.lt_order (h : g.OnCycle v) : v < g.order := by
  obtain ⟨w, hstep, -⟩ := onCycle_iff.1 h
  exact hstep.source_lt

/-- Two vertices that reach each other are on a cycle. -/
theorem Together.onCycle (h : g.Together v w) (hne : v ≠ w) : g.OnCycle v := by
  rcases Relation.ReflTransGen.cases_head h.1 with he | ⟨u, hstep, hu⟩
  · exact absurd he hne
  · exact onCycle_iff.2 ⟨u, hstep, Reaches.trans hu h.2⟩

end LayerGate.Digraph
