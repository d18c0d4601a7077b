import LayerGate.Pattern.Regex.Basic

/-!
# Reading regular expressions

The notation: `.` for any character but a line break, sets in square brackets, groups with `|`, the
marks `^` and `$`, the repetitions `*` and `?`, and a backslash before a character that stands for
itself.
-/

namespace LayerGate.Pattern.Regex

inductive Fault where
  | unterminatedSet (position : Nat)
  | badRange (low high : String) (position : Nat)
  | nothingToRepeat (position : Nat)
  | unbalanced (position : Nat)
  | unterminatedGroup (position : Nat)
  deriving DecidableEq, Repr

def Fault.message : Fault → String
  | .unterminatedSet p => "unterminated character set at position " ++ toString p
  | .badRange low high p =>
    "bad character range " ++ low ++ "-" ++ high ++ " at position " ++ toString p
  | .nothingToRepeat p => "nothing to repeat at position " ++ toString p
  | .unbalanced p => "unbalanced parenthesis at position " ++ toString p
  | .unterminatedGroup p => "missing ), unterminated subpattern at position " ++ toString p

/-- A character with the text that spells it, and how many characters that takes. -/
structure Spelled where
  char : Char
  text : String
  width : Nat

def spelled? : List Char → Option (Spelled × List Char)
  | [] => none
  | '\\' :: c :: rest => some (⟨c, String.ofList ['\\', c], 2⟩, rest)
  | c :: rest => some (⟨c, String.ofList [c], 1⟩, rest)

/-- The ranges of a set up to its closing bracket, which is an element if nothing stands before it.
`opened` is the position of the opening bracket, `at_` the one that is read. -/
def setRanges (opened : Nat) :
    (fuel at_ : Nat) → List (Char × Char) → List Char → Except Fault (List (Char × Char) × List Char)
  | 0, _, _, _ => .error (.unterminatedSet opened)
  | fuel + 1, at_, ranges, cs =>
    match cs with
    | [] => .error (.unterminatedSet opened)
    | ']' :: rest =>
      if ranges.isEmpty then element fuel at_ ranges ⟨']', "]", 1⟩ rest else .ok (ranges, rest)
    | cs =>
      match spelled? cs with
      | none => .error (.unterminatedSet opened)
      | some (low, rest) => element fuel at_ ranges low rest
where
  /-- One element, or a range that begins with it. -/
  element (fuel at_ : Nat) (ranges : List (Char × Char)) (low : Spelled) (rest : List Char) :
      Except Fault (List (Char × Char) × List Char) :=
    match rest with
    | '-' :: ']' :: rest => .ok (ranges ++ [(low.char, low.char), ('-', '-')], rest)
    | '-' :: rest =>
      match spelled? rest with
      | none => .error (.unterminatedSet opened)
      | some (high, rest) =>
        if high.char < low.char then .error (.badRange low.text high.text at_)
        else setRanges opened fuel (at_ + low.width + 1 + high.width)
          (ranges ++ [(low.char, high.char)]) rest
    | rest =>
      setRanges opened fuel (at_ + low.width) (ranges ++ [(low.char, low.char)]) rest

/-- The set behind an opening bracket. -/
def charSet (opened : Nat) (cs : List Char) : Except Fault (CharSet × List Char) :=
  match cs with
  | '^' :: rest =>
    (setRanges opened (rest.length + 1) (opened + 2) [] rest).map fun (ranges, rest) =>
      (⟨true, ranges⟩, rest)
  | rest =>
    (setRanges opened (rest.length + 1) (opened + 1) [] rest).map fun (ranges, rest) =>
      (⟨false, ranges⟩, rest)

/-- The expression with the repetition that follows it. -/
def repeated (r : Regex) : List Char → Regex × List Char
  | '*' :: rest => (.star r, rest)
  | '?' :: rest => (.maybe r, rest)
  | rest => (r, rest)

mutual

/-- Alternatives up to a closing bracket or the end; `size` is the length of the whole text. -/
def alternatives (size : Nat) : Nat → List Char → Except Fault (Regex × List Char)
  | 0, cs => .ok (.empty, cs)
  | fuel + 1, cs => do
    match ← sequence size fuel cs with
    | (first, '|' :: rest) =>
      let (second, rest) ← alternatives size fuel rest
      return (.either first second, rest)
    | (first, rest) => return (first, rest)

/-- Parts up to a bar, a closing bracket or the end. -/
def sequence (size : Nat) : Nat → List Char → Except Fault (Regex × List Char)
  | 0, cs => .ok (.empty, cs)
  | fuel + 1, cs => do
    let position := size - cs.length
    match cs with
    | [] | '|' :: _ | ')' :: _ => return (.empty, cs)
    | '*' :: _ | '?' :: _ => throw (.nothingToRepeat position)
    | '^' :: rest =>
      let (more, rest) ← sequence size fuel rest
      return (.seq .start more, rest)
    | '$' :: rest =>
      let (more, rest) ← sequence size fuel rest
      return (.seq .finish more, rest)
    | '(' :: rest =>
      match ← alternatives size fuel rest with
      | (inner, ')' :: rest) =>
        let (part, rest) := repeated inner rest
        let (more, rest) ← sequence size fuel rest
        return (.seq part more, rest)
      | _ => throw (.unterminatedGroup position)
    | '[' :: rest =>
      let (set, rest) ← charSet position rest
      let (part, rest) := repeated (.one set) rest
      let (more, rest) ← sequence size fuel rest
      return (.seq part more, rest)
    | '.' :: rest =>
      let (part, rest) := repeated (.one (.except '\n')) rest
      let (more, rest) ← sequence size fuel rest
      return (.seq part more, rest)
    | '\\' :: c :: rest | c :: rest =>
      let (part, rest) := repeated (.one (.single c)) rest
      let (more, rest) ← sequence size fuel rest
      return (.seq part more, rest)

end

def ofString (s : String) : Except Fault Regex := do
  let cs := s.toList
  match ← alternatives cs.length (2 * cs.length + 2) cs with
  | (r, []) => return r
  | (_, rest) => throw (.unbalanced (cs.length - rest.length))

end LayerGate.Pattern.Regex
