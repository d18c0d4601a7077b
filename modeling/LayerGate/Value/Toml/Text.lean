import LayerGate.Value.Json.Reader
import LayerGate.Value.Toml.Problem

/-!
# Text in TOML

Blanks, comments and the four kinds of strings.
-/

namespace LayerGate.Value.Toml

def isBlank (c : Char) : Bool := c = ' ' || c = '\t'

def isBlankOrBreak (c : Char) : Bool := isBlank c || c = '\n'

def skipBlanks (cs : List Char) : List Char := cs.dropWhile isBlank

/-- Control characters other than the tab stand in no line. -/
def isBarred (c : Char) : Bool := (c.toNat < 32 && c ≠ '\t') || c.toNat = 127

/-- In a text of several lines, line breaks are allowed too. -/
def isBarredInLines (c : Char) : Bool := isBarred c && c ≠ '\n'

/-- Stops at the first barred character in `part`, which is the front of `part ++ rest`. -/
def refuseBarred (barred : Char → Bool) (part rest : List Char) : Except Fault Unit :=
  match part.dropWhile (!barred ·) with
  | [] => .ok ()
  | c :: more => fail (.invalid c) (c :: more ++ rest)

/-- A comment up to the end of its line, if there is one. -/
def skipComment : List Char → Except Fault (List Char)
  | '#' :: rest => do
    let (line, after) := rest.span (· ≠ '\n')
    refuseBarred isBarred line after
    return after
  | cs => .ok cs

/-- Blanks, line breaks and comments; `fuel` bounds the number of comments. -/
def skipFiller : Nat → List Char → Except Fault (List Char)
  | 0, cs => .ok cs
  | fuel + 1, cs => do
    match cs.dropWhile isBlankOrBreak with
    | '#' :: rest => skipFiller fuel (← skipComment ('#' :: rest))
    | rest => return rest

/-- What stands before the first `mark`, and what stands behind it. -/
def cutAt? (mark : List Char) : List Char → Option (List Char × List Char)
  | [] => none
  | c :: rest =>
    if mark.isPrefixOf (c :: rest) then some ([], (c :: rest).drop mark.length)
    else (cutAt? mark rest).map fun (before, after) => (c :: before, after)

/-- A text without escapes up to its closing mark. -/
def literal (barred : Char → Bool) (mark : List Char) (cs : List Char) :
    Except Fault (List Char × List Char) :=
  match cutAt? mark cs with
  | none => fail (.delimiter (String.ofList mark)) []
  | some (content, after) => do
    refuseBarred barred content (mark ++ after)
    return (content, after)

/-- The character that `width` hexadecimal digits name. -/
def hexChar (width : Nat) (cs : List Char) : Except Fault (Char × List Char) :=
  let digits := (cs.take width).map Json.hexDigit?
  if digits.length ≠ width ∨ digits.any Option.isNone then fail .hexDigits cs
  else
    let n := (digits.filterMap id).foldl (fun n d => 16 * n + d) 0
    if n.isValidChar then .ok (Char.ofNat n, cs.drop width) else fail .notScalar (cs.drop width)

def shortEscape? : Char → Option Char
  | 'b' => some '\x08'
  | 't' => some '\t'
  | 'n' => some '\n'
  | 'f' => some '\x0c'
  | 'r' => some '\r'
  | '\x22' => some '\x22'
  | '\\' => some '\\'
  | _ => none

/-- What a backslash and the following text stand for: at the end of a line in a text of several
lines, nothing, and the blanks behind it are dropped. -/
def escape (multiline : Bool) (cs : List Char) : Except Fault (List Char × List Char) :=
  match cs with
  | [] => fail .escape []
  | c :: rest =>
    if multiline ∧ isBlankOrBreak c then
      match (c :: rest).dropWhile isBlank with
      | [] => .ok ([], [])
      | '\n' :: more => .ok ([], more.dropWhile isBlankOrBreak)
      | more => fail .escape more
    else if c = 'u' then (hexChar 4 rest).map fun (d, after) => ([d], after)
    else if c = 'U' then (hexChar 8 rest).map fun (d, after) => ([d], after)
    else match shortEscape? c with
      | some d => .ok ([d], rest)
      | none => fail .escape rest

/-- A text with escapes up to its closing mark, one quote or three; `done` holds what was read, last
character first, and `fuel` bounds the number of steps. -/
def basic (multiline : Bool) : Nat → List Char → List Char → Except Fault (List Char × List Char)
  | 0, _, cs => fail .unterminated cs
  | fuel + 1, done, cs =>
    match cs with
    | [] => fail .unterminated []
    | '\x22' :: rest =>
      if !multiline then .ok (done.reverse, rest)
      else match rest with
        | '\x22' :: '\x22' :: after => .ok (done.reverse, after)
        | _ => basic multiline fuel ('\x22' :: done) rest
    | '\\' :: rest => do
      let (meant, after) ← escape multiline rest
      basic multiline fuel (meant.reverse ++ done) after
    | c :: rest =>
      if (if multiline then isBarredInLines c else isBarred c) then fail (.illegal c) cs
      else basic multiline fuel (c :: done) rest

/-- Up to two more quotes in front of the closing three belong to the text. -/
def extraQuotes (quote : Char) (content cs : List Char) : List Char × List Char :=
  match cs with
  | c :: d :: rest =>
    if c ≠ quote then (content, cs)
    else if d = quote then (content ++ [quote, quote], rest) else (content ++ [quote], d :: rest)
  | [c] => if c = quote then (content ++ [quote], []) else (content, cs)
  | [] => (content, [])

/-- A line break right behind the opening quotes is dropped. -/
def dropFirstBreak : List Char → List Char
  | '\n' :: rest => rest
  | cs => cs

def literalLine (cs : List Char) : Except Fault (List Char × List Char) := literal isBarred ['\x27'] cs

def basicLine (cs : List Char) : Except Fault (List Char × List Char) :=
  basic false (cs.length + 1) [] cs

def literalLines (cs : List Char) : Except Fault (List Char × List Char) := do
  let (content, rest) ← literal isBarredInLines ['\x27', '\x27', '\x27'] (dropFirstBreak cs)
  return extraQuotes '\x27' content rest

def basicLines (cs : List Char) : Except Fault (List Char × List Char) := do
  let (content, rest) ← basic true (cs.length + 1) [] (dropFirstBreak cs)
  return extraQuotes '\x22' content rest

end LayerGate.Value.Toml
