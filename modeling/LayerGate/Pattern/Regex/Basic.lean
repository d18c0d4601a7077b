import LayerGate.Pattern.CharSet

/-!
# Regular expressions

Expressions over characters, with marks for the two ends of a text.  A search computes with sets of
positions: from each set an expression leads to the positions where a match may end.
-/

namespace LayerGate.Pattern

inductive Regex where
  | empty
  | one (set : CharSet)
  /-- The beginning of the text. -/
  | start
  /-- The end of the text, or the place before a line break that ends it. -/
  | finish
  | seq (first second : Regex)
  | either (first second : Regex)
  | star (inner : Regex)
  | maybe (inner : Regex)
  deriving Repr

namespace Regex

/-- A text with random access. -/
abbrev Subject := Array Char

def atFinish (text : Subject) (i : Nat) : Bool :=
  i = text.size || (i + 1 = text.size && text[i]? = some '\n')

/-- Adds what a step reaches until nothing is new; `fuel` bounds the rounds. -/
def closure (step : List Nat → List Nat) : Nat → List Nat → List Nat → List Nat
  | 0, seen, _ => seen
  | fuel + 1, seen, frontier =>
    match ((step frontier).filter (!seen.contains ·)).eraseDups with
    | [] => seen
    | new => closure step fuel (seen ++ new) new

/-- Where matches end that begin at one of the positions. -/
def ends (text : Subject) : Regex → List Nat → List Nat
  | .empty, ps => ps
  | .one set, ps =>
    (ps.filter fun i => match text[i]? with
      | some c => set.contains c
      | none => false).map (· + 1)
  | .start, ps => ps.filter (· = 0)
  | .finish, ps => ps.filter (atFinish text)
  | .seq a b, ps => ends text b (ends text a ps)
  | .either a b, ps => (ends text a ps ++ ends text b ps).eraseDups
  | .star a, ps => closure (ends text a) (text.size + 1) ps ps
  | .maybe a, ps => (ps ++ ends text a ps).eraseDups

/-- Some part of the text matches. -/
def occursIn (r : Regex) (text : String) : Bool :=
  let subject := text.toList.toArray
  !(r.ends subject (List.range (subject.size + 1))).isEmpty

end Regex

end LayerGate.Pattern
