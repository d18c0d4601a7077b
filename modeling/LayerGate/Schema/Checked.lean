import LayerGate.Schema.Complaint

/-!
# Checked values

A value that a schema has accepted, or everything that it has against it: checking two parts keeps
the complaints of both, in their order.
-/

namespace LayerGate.Schema

inductive Checked (α : Type) where
  | valid (a : α)
  | invalid (complaints : List Complaint)

namespace Checked

protected def map {α β : Type} (f : α → β) : Checked α → Checked β
  | .valid a => .valid (f a)
  | .invalid cs => .invalid cs

/-- Both parts; the complaints of the first come first. -/
def both {α β γ : Type} (f : α → β → γ) : Checked α → Checked β → Checked γ
  | .valid a, .valid b => .valid (f a b)
  | .valid _, .invalid cs => .invalid cs
  | .invalid cs, .valid _ => .invalid cs
  | .invalid cs, .invalid ds => .invalid (cs ++ ds)

instance : Applicative Checked where
  pure := .valid
  map := Checked.map
  seq f a := both (· ·) f (a ())

def complain {α : Type} (t : Trouble) : Checked α := .invalid [⟨[], t⟩]

/-- The part at `step`: its complaints are told from outside. -/
def inside {α : Type} (step : Step) : Checked α → Checked α
  | .valid a => .valid a
  | .invalid cs => .invalid (cs.map fun c => { c with path := step :: c.path })

/-- A rule is asked only about a value that is otherwise accepted. -/
def obeying {α : Type} (broken? : α → Option Trouble) : Checked α → Checked α
  | .valid a =>
    match broken? a with
    | none => .valid a
    | some t => complain t
  | .invalid cs => .invalid cs

/-- All elements, each told by its position. -/
def elements {α : Type} (i : Nat) : List (Checked α) → Checked (List α)
  | [] => .valid []
  | c :: cs => both List.cons (c.inside (.index i)) (elements (i + 1) cs)

theorem obeying_eq_valid_iff {α : Type} {broken? : α → Option Trouble} {c : Checked α} {a : α} :
    c.obeying broken? = .valid a ↔ c = .valid a ∧ broken? a = none := by
  cases c with
  | invalid cs => simp [obeying]
  | valid b =>
    cases hb : broken? b with
    | none => simp [obeying, hb]; rintro rfl; exact hb
    | some t => simp [obeying, hb, complain]; rintro rfl; simp [hb]

end Checked

end LayerGate.Schema
