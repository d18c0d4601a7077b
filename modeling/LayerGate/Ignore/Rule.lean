import LayerGate.Pattern.Regex.Reader
import LayerGate.Text.Blank
import LayerGate.Text.Utf8

/-!
# Ignore rules

One line of an ignore file.  A rule says which paths it speaks of, counted from the directory of its
file, and whether it ignores them or takes them back.
-/

namespace LayerGate.Ignore

inductive Fault where
  /-- A pattern of which nothing is left where a character is needed. -/
  | emptyPattern
  | badPattern (fault : Pattern.Regex.Fault)
  | undecodable (fault : Text.Utf8.Fault)
  deriving DecidableEq, Repr

def Fault.message : Fault → String
  | .emptyPattern => "string index out of range"
  | .badPattern f => f.message
  | .undecodable f => f.message

/-- A rule whose pattern cannot be read is a fault only when a path is held against it. -/
structure Rule where
  negated : Bool
  pattern : Except Pattern.Regex.Fault Pattern.Regex

/-! ## The shape of a line -/

/-- Of the stars behind a character other than a slash, one stays where there are two or more. -/
def mergeStarsAfter (fuel : Nat) : List Char → List Char
  | [] => []
  | c :: rest =>
    match fuel, rest with
    | fuel + 1, '*' :: '*' :: more =>
      if c = '/' then c :: mergeStarsAfter fuel rest
      else c :: '*' :: mergeStarsAfter fuel (more.dropWhile (· = '*'))
    | fuel + 1, _ => c :: mergeStarsAfter fuel rest
    | 0, _ => c :: rest

/-- Of two or more stars in front of a character other than a slash, one stays; a star is such a
character itself, so that three or more in front of a slash become two. -/
def mergeStarsBefore (fuel : Nat) : List Char → List Char
  | [] => []
  | c :: rest =>
    match fuel with
    | 0 => c :: rest
    | fuel + 1 =>
      if c ≠ '*' then c :: mergeStarsBefore fuel rest
      else
        let stars := (rest.takeWhile (· = '*')).length + 1
        match stars, rest.dropWhile (· = '*') with
        | 1, after => '*' :: mergeStarsBefore fuel after
        | _, [] => ['*', '*']
        | _, '/' :: after => '*' :: '*' :: mergeStarsBefore fuel ('/' :: after)
        | _, d :: after => '*' :: d :: mergeStarsBefore fuel after

def mergeStars (cs : List Char) : List Char :=
  let once := mergeStarsAfter cs.length cs
  mergeStarsBefore once.length once

/-- Drops blanks from a position back to the third place.  A backslash before a blank is dropped
instead, and from there on every blank stays. -/
def trimBlanks (dropping : Bool) : Nat → List Char → List Char
  | i + 2, cs =>
    if cs[i + 2]? ≠ some ' ' then cs
    else if cs[i + 1]? = some '\\' then trimBlanks false i (cs.take (i + 1) ++ cs.drop (i + 2))
    else trimBlanks dropping (i + 1) (if dropping then cs.take (i + 2) else cs)
  | _, cs => cs

/-- Without one slash at the front; there must be a character there. -/
def dropSlash : List Char → Except Fault (List Char)
  | [] => .error .emptyPattern
  | '/' :: rest => .ok rest
  | cs => .ok cs

/-- Without one slash at the end; there must be a character there. -/
def dropLastSlash (cs : List Char) : Except Fault (List Char) :=
  match cs.getLast? with
  | none => .error .emptyPattern
  | some '/' => .ok cs.dropLast
  | some _ => .ok cs

/-- Without the backslash that protects a mark at the front. -/
def dropEscape : List Char → Except Fault (List Char)
  | [] | ['\\'] => .error .emptyPattern
  | '\\' :: c :: rest => .ok (if c = '#' ∨ c = '!' then c :: rest else '\\' :: c :: rest)
  | cs => .ok cs

/-! ## From a pattern to an expression -/

/-- The characters that stand for themselves behind a backslash only. -/
def special : List Char :=
  ['(', ')', '[', ']', '\x7b', '\x7d', '?', '*', '+', '-', '|', '^', '$', '\\', '.', '&', '~', '#',
    ' ', '\t', '\n', '\r', '\x0b', '\x0c']

def literal (c : Char) : List Char := if special.contains c then ['\\', c] else [c]

/-- The set in the notation of expressions: slashes vanish, and a mark at the front negates. -/
def setText (inner : List Char) : Except Fault (List Char) :=
  let kept := inner.flatMap fun c => if c = '\\' then ['\\', '\\'] else if c = '/' then [] else [c]
  match kept with
  | [] => .error .emptyPattern
  | '!' :: rest => .ok ('[' :: '^' :: rest ++ [']'])
  | '^' :: rest => .ok ('[' :: '\\' :: '^' :: rest ++ [']'])
  | rest => .ok ('[' :: rest ++ [']'])

/-- The expression for a pattern: stars and question marks stay within one name, except that two
stars cross slashes.  `fuel` bounds the number of steps. -/
def expression : Nat → List Char → Except Fault (List Char)
  | 0, _ | _, [] => .ok []
  | fuel + 1, '*' :: '*' :: '/' :: rest => return "(.*[/])?".toList ++ (← expression fuel rest)
  | fuel + 1, '*' :: '*' :: rest => return ".*".toList ++ (← expression fuel rest)
  | fuel + 1, '*' :: rest => return "[^/]*".toList ++ (← expression fuel rest)
  | fuel + 1, '?' :: rest => return "[^/]".toList ++ (← expression fuel rest)
  | fuel + 1, '/' :: rest => return "[/]".toList ++ (← expression fuel rest)
  | fuel + 1, '[' :: rest =>
    match Pattern.bracket? rest with
    | none => return "\\[".toList ++ (← expression fuel rest)
    | some (inner, after) => return (← setText inner) ++ (← expression fuel after)
  | fuel + 1, c :: rest => return literal c ++ (← expression fuel rest)

/-- The rule of a line; blank lines, comments and a lone slash make none. -/
def Rule.ofLine? (line : String) : Except Fault (Option Rule) := do
  let cs := line.toList
  if cs.all Text.isBlank ∨ cs.head? = some '#' then return none
  let negated : Bool := cs.head? = some '!'
  let merged := mergeStars (if negated then cs.drop 1 else cs)
  if (merged.reverse.dropWhile Text.isBlank).reverse = ['/'] then return none
  let directoryOnly : Bool ← match merged.getLast? with
    | none => .error .emptyPattern
    | some c => .ok (c = '/')
  let bare ← dropSlash merged
  let (bare, anchored) ← match bare with
    | [] => .error .emptyPattern
    | '*' :: '*' :: rest => .ok (rest, false)
    | rest => .ok (rest, merged.dropLast.contains '/')
  let bare ← dropEscape (← dropLastSlash (← dropSlash bare))
  let bare := trimBlanks true (bare.length - 1) bare
  let body ← expression bare.length bare
  let opening := if anchored then "^" else "(^|[/])"
  let closing := if !directoryOnly then "$" else if negated then "/$" else "($|\\/)"
  return some ⟨negated, Pattern.Regex.ofString (opening ++ String.ofList body ++ closing)⟩

/-- Whether the rule speaks of a path below the directory of its file; the directory itself is `.`. -/
def Rule.speaksOf (r : Rule) (path : String) : Except Fault Bool :=
  match r.pattern with
  | .error f => .error (.badPattern f)
  | .ok p => .ok (p.occursIn path)

end LayerGate.Ignore
