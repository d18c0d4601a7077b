import LayerGate.Pattern.CharSet

/-!
# Wildcards

Patterns for whole paths: `*` stands for any text, `?` for any character, `[…]` for one of a set and
`[!…]` for one outside of it.  Slashes and line breaks are characters like any other.
-/

namespace LayerGate.Pattern

inductive Wildcard.Item where
  | anyText
  | one (set : CharSet)
  deriving DecidableEq, Repr

structure Wildcard where
  items : List Wildcard.Item
  deriving DecidableEq, Repr

namespace Wildcard

/-! ## Reading -/

/-- Cuts at the first hyphen that has `skip` characters before it. -/
def cutAtHyphen? (skip : Nat) (cs : List Char) : Option (List Char × List Char) :=
  match (cs.drop skip).span (· ≠ '-') with
  | (_, []) => none
  | (before, _ :: after) => some (cs.take skip ++ before, after)

/-- The pieces between hyphens that make a range: the hyphen joins the last character of one piece
and the first of the next, so each later piece takes two characters at least.  `fuel` bounds the
number of hyphens. -/
def rangePieces (fuel skip : Nat) (cs : List Char) : List (List Char) :=
  match fuel with
  | 0 => [cs]
  | fuel + 1 =>
    match cutAtHyphen? skip cs with
    | none => [cs]
    | some (piece, []) => [piece ++ ['-']]
    | some (piece, after) => piece :: rangePieces fuel 2 after

/-- A range that runs backwards is dropped with both its ends. -/
def withoutBackwardRanges : List (List Char) → List (List Char)
  | [] => []
  | piece :: rest =>
    match withoutBackwardRanges rest with
    | [] => [piece]
    | next :: others =>
      match piece.getLast?, next with
      | some low, high :: more =>
        if low > high then (piece.dropLast ++ more) :: others else piece :: next :: others
      | _, _ => piece :: next :: others

/-- The ranges at the hyphens; a hyphen with nothing before it is an element. -/
def joints : List (List Char) → List (Char × Char)
  | piece :: next :: rest =>
    (match piece.getLast?, next.head? with
      | some low, some high => (low, high)
      | _, _ => ('-', '-')) :: joints (next :: rest)
  | _ => []

def setOfPieces (negated : Bool) (pieces : List (List Char)) : CharSet :=
  ⟨negated, pieces.flatten.map (fun c => (c, c)) ++ joints pieces⟩

/-- The set that stands between brackets: nothing is no character, a lone `!` is any. -/
def setOf (inner : List Char) : CharSet :=
  let skip := if inner.head? = some '!' then 2 else 1
  match withoutBackwardRanges (rangePieces inner.length skip inner) with
  | [] | [[]] => .never
  | ('!' :: piece) :: rest => setOfPieces true (piece :: rest)
  | pieces => setOfPieces false pieces

/-- The items of a pattern; a bracket that is never closed stands for itself.  `fuel` bounds the
number of items. -/
def itemsOf (fuel : Nat) (cs : List Char) : List Item :=
  match fuel, cs with
  | 0, _ | _, [] => []
  | fuel + 1, '*' :: rest => .anyText :: itemsOf fuel rest
  | fuel + 1, '?' :: rest => .one .all :: itemsOf fuel rest
  | fuel + 1, '[' :: rest =>
    match bracket? rest with
    | some (inner, after) => .one (setOf inner) :: itemsOf fuel after
    | none => .one (.single '[') :: itemsOf fuel rest
  | fuel + 1, c :: rest => .one (.single c) :: itemsOf fuel rest

def ofString (s : String) : Wildcard := ⟨itemsOf s.length s.toList⟩

/-! ## Matching -/

/-- Whether some tail of what is left is matched, for each tail in turn. -/
def anyLater : List Bool → List Bool
  | [] => []
  | b :: bs =>
    let later := anyLater bs
    (b || later.headD false) :: later

/-- One character, then what the shorter tail answers. -/
def oneThen (set : CharSet) : List Char → List Bool → List Bool
  | c :: cs, _ :: bs => (set.contains c && bs.headD false) :: oneThen set cs bs
  | _, _ => [false]

/-- For the text and each of its tails, longest first, whether the items match the whole of it. -/
def answers : List Item → List Char → List Bool
  | [], cs => List.replicate cs.length false ++ [true]
  | .anyText :: items, cs => anyLater (answers items cs)
  | .one set :: items, cs => oneThen set cs (answers items cs)

def accepts (w : Wildcard) (text : String) : Bool := (answers w.items text.toList).headD false

end Wildcard

/-- Some pattern of the list matches the path. -/
def anyMatches (patterns : List String) (path : String) : Bool :=
  patterns.any fun p => (Wildcard.ofString p).accepts path

end LayerGate.Pattern
