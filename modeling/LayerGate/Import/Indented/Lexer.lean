import LayerGate.Import.Indented.Token
import LayerGate.Import.Indented.Numeral
import LayerGate.Text.Printable
import LayerGate.Text.Lines

/-!
# From text to tokens

Brackets, indentation and line ends follow the lexical rules of the language.  Outside of brackets a
line end is a token and a change of indentation is one or more; a line of blanks and a comment is
nothing.
-/

namespace LayerGate.Import.Indented

open Text (isPrintable)

/-- Where the lexer stands: the line of the next character, the open indentations as columns with
tabs eight and one wide, innermost first, and the open brackets with their lines, innermost first. -/
structure Place where
  line : Nat
  margins : List (Nat × Nat)
  brackets : List (Char × Nat)

namespace Place

def start : Place := ⟨1, [], []⟩

def token (p : Place) (kind : Kind) : Token := ⟨kind, p.line, p.brackets.length⟩

/-- Breaks off with a fault that gives way to a fault in the tokens before it. -/
def stop (p : Place) (trouble : Trouble) (line : Nat) : List Token :=
  [p.token (.broken ⟨⟨trouble, line⟩, false, p.brackets.head?.map (·.2)⟩)]

/-- Breaks off with an urgent fault. -/
def reject (p : Place) : List Token :=
  [p.token (.broken ⟨⟨.malformed, p.line⟩, true, none⟩)]

/-- The text ends too early on `line`; an open bracket is what is wrong then. -/
def stopShort (p : Place) (line : Nat) : List Token :=
  p.stop .malformed ((p.brackets.head?.map (·.2)).getD line)

def column (p : Place) : Nat × Nat := p.margins.head?.getD (0, 0)

end Place

/-! ## Indentation -/

inductive Margin where
  /-- Columns of the first character that is neither blank nor continuation, the lines that were
  joined to the first one, and the rest. -/
  | found (column narrow joined : Nat) (rest : List Char)
  /-- A backslash that does not stand at the end of a line. -/
  | strayBackslash (joined : Nat)
  /-- A backslash at the end of the text. -/
  | unfinished (joined : Nat)

/-- Measures blanks.  After a backslash the columns reached there count, unless they are zero. -/
def margin (column narrow pinned joined : Nat) : List Char → Margin
  | ' ' :: cs => margin (column + 1) (narrow + 1) pinned joined cs
  | '\t' :: cs => margin ((column / 8 + 1) * 8) (narrow + 1) pinned joined cs
  | '\x0c' :: cs => margin 0 0 pinned joined cs
  | '\\' :: '\n' :: [] => .unfinished joined
  | '\\' :: '\n' :: cs =>
    margin column narrow (if pinned = 0 then column else pinned) (joined + 1) cs
  | '\\' :: _ => .strayBackslash joined
  | cs => if pinned = 0 then .found column narrow joined cs else .found pinned pinned joined cs

theorem length_le_of_margin {column narrow pinned joined : Nat} {cs : List Char}
    {column' narrow' joined' : Nat} {rest : List Char}
    (h : margin column narrow pinned joined cs = .found column' narrow' joined' rest) :
    rest.length ≤ cs.length := by
  fun_induction margin column narrow pinned joined cs with
  | case1 _ _ _ _ _ ih | case2 _ _ _ _ _ ih | case3 _ _ _ _ _ ih => simpa using Nat.le_succ_of_le (ih h)
  | case4 => cases h
  | case5 _ _ _ _ _ _ ih => simpa using Nat.le_succ_of_le (Nat.le_succ_of_le (ih h))
  | case6 => cases h
  | case7 => cases h; exact Nat.le_refl _
  | case8 => cases h; exact Nat.le_refl _

/-- The most indentations that may be open, the outermost text included. -/
def maxMargins : Nat := 100

/-- The tokens of a line that starts in the given columns, and the indentations after it. -/
def Place.indent (p : Place) (column narrow : Nat) : Except Trouble (List Kind × List (Nat × Nat)) :=
  let (column', narrow') := p.column
  if column = column' then
    if narrow = narrow' then .ok ([], p.margins) else .error .tabs
  else if column' < column then
    if maxMargins ≤ p.margins.length + 1 then .error .indentation
    else if narrow ≤ narrow' then .error .tabs
    else .ok ([.indent], (column, narrow) :: p.margins)
  else
    let closed := p.margins.takeWhile fun m => column < m.1
    let kept := p.margins.dropWhile fun m => column < m.1
    let (column', narrow') := kept.head?.getD (0, 0)
    if column ≠ column' then .error .indentation
    else if narrow ≠ narrow' then .error .tabs
    else .ok (closed.map fun _ => .dedent, kept)

/-! ## Single tokens -/

def isBlank (c : Char) : Bool := c = ' ' || c = '\t' || c = '\x0c'

/-- Characters beyond ASCII belong to a word until the word is checked. -/
def isWordStart (c : Char) : Bool := c.isAlpha || c = '_' || 0x80 ≤ c.toNat

def isWordChar (c : Char) : Bool := c.isAlphanum || c = '_' || 0x80 ≤ c.toNat

/-- How many characters follow the opening quote of a string, its closing quote included. -/
def shortLiteral (quote : Char) : List Char → Option Nat
  | [] => none
  | '\\' :: [] => none
  | '\\' :: _ :: cs => (shortLiteral quote cs).map (· + 2)
  | c :: cs =>
    if c = quote then some 1 else if c = '\n' then none else (shortLiteral quote cs).map (· + 1)

/-- How many characters follow the three opening quotes of a string, the three closing ones
included. -/
def longLiteral (quote : Char) : List Char → Option Nat
  | [] => none
  | '\\' :: [] => none
  | '\\' :: _ :: cs => (longLiteral quote cs).map (· + 2)
  | c :: cs =>
    if c = quote ∧ cs.take 2 = [quote, quote] then some 3 else (longLiteral quote cs).map (· + 1)

def isQuote (c : Char) : Bool := c = '\x27' || c = '\x22'

/-- The body of the literal whose opening quote is `quote`, and how many characters follow it. -/
def literal? (quote : Char) (cs : List Char) : Option (List Char × Nat) :=
  if cs.take 2 = [quote, quote] then do
    let n ← longLiteral quote (cs.drop 2)
    return ((cs.drop 2).take (n - 3), n + 2)
  else do
    let n ← shortLiteral quote cs
    return (cs.take (n - 1), n)

def stringMarks : List String := ["b", "r", "u", "f", "br", "rb", "fr", "rf"]

/-- The marks in front of a string, in lower case. -/
def marks? (word : List Char) : Option String :=
  let text := String.ofList (word.map Char.toLower)
  if stringMarks.contains text then some text else none

def Literal.ofMarks (marks : String) (body : List Char) : Literal :=
  ⟨marks.contains 'r', marks.contains 'b', marks.contains 'f', body⟩

def threeCharOps : List String := ["**=", "//=", "<<=", ">>=", "..."]

def twoCharOps : List String :=
  ["!=", "%=", "&=", "**", "*=", "+=", "-=", "->", "//", "/=", ":=", "<<", "<=", "<>", "==", ">=",
   ">>", "@=", "^=", "|="]

/-- The longest operator at the front. -/
def operator (c : Char) (cs : List Char) : String :=
  let three := String.ofList (c :: cs.take 2)
  let two := String.ofList (c :: cs.take 1)
  if threeCharOps.contains three then three
  else if twoCharOps.contains two then two
  else String.ofList [c]

/-- The most brackets that may be open. -/
def maxBrackets : Nat := 200

def opener? : Char → Option Char
  | ')' => some '('
  | ']' => some '['
  | '}' => some '{'
  | _ => none

/-- The place after a bracket or any other operator of one character. -/
def Place.bracket? (p : Place) (c : Char) : Option Place :=
  if c = '(' ∨ c = '[' ∨ c = '{' then
    if maxBrackets ≤ p.brackets.length then none
    else some { p with brackets := (c, p.line) :: p.brackets }
  else match opener? c with
    | none => some p
    | some opening =>
      match p.brackets with
      | (b, _) :: rest => if b = opening then some { p with brackets := rest } else none
      | [] => none

/-- What a token scanner found: the token, the place after it and how many characters follow its
first one. -/
inductive Scan where
  | token (t : Token) (after : Place) (more : Nat)
  | rejected (at_ : Place)

def Place.scanString (p : Place) (marks : String) (before : Nat) (quote : Char) (cs : List Char) :
    Scan :=
  match literal? quote cs with
  | none => .rejected p
  | some (body, n) =>
    .token (p.token (.string (.ofMarks marks body)))
      { p with line := p.line + (cs.take n).count '\n' } (before + n)

def Place.scanWord (p : Place) (c : Char) (cs : List Char) : Scan :=
  let tail := cs.takeWhile isWordChar
  let word := c :: tail
  let scanned := match Kind.ofWord? word with
    | some kind => .token (p.token kind) p tail.length
    | none => .rejected p
  match marks? word, cs.drop tail.length with
  | some marks, q :: rest =>
    if isQuote q then p.scanString marks (tail.length + 1) q rest else scanned
  | _, _ => scanned

/-- The token that starts with `c`, which is neither blank nor a line end, a comment or a
continuation. -/
def Place.scan (p : Place) (c : Char) (cs : List Char) : Scan :=
  if isWordStart c then p.scanWord c cs
  else if c.isDigit ∨ (c = '.' ∧ cs.head?.any Char.isDigit) then
    match Numeral.extent? (c :: cs) with
    | none => .rejected p
    | some e => .token (p.token (.number e.isImaginary)) p (e.length - 1)
  else if isQuote c then p.scanString "" 0 c cs
  else
    let symbol := operator c cs
    if symbol.length = 1 then
      match p.bracket? c with
      | some after => if isPrintable c then .token (after.token (.op symbol)) after 0 else .rejected p
      | none => .rejected p
    else .token (p.token (.op symbol)) p (symbol.length - 1)

/-! ## The stream -/

mutual

/-- The tokens from the start of a line on. -/
def lineTokens (p : Place) (cs : List Char) : List Token :=
  match h : margin 0 0 0 0 cs with
  | .strayBackslash joined => { p with line := p.line + joined }.stop .malformed (p.line + joined)
  | .unfinished joined => p.stopShort (p.line + joined)
  | .found column narrow joined rest =>
    let p := { p with line := p.line + joined }
    match rest with
    | [] =>
      let p := { p with line := p.line - 1 }
      if p.brackets.isEmpty then
        (p.margins.map fun _ => p.token .dedent) ++ [p.token .finish]
      else p.stopShort p.line
    | c :: rest =>
      if c = '\n' ∨ c = '#' then
        match _h : (c :: rest).dropWhile (· ≠ '\n') with
        | [] => p.stopShort p.line
        | _ :: below => lineTokens { p with line := p.line + 1 } below
      else if p.brackets.isEmpty then
        match p.indent column narrow with
        | .error trouble => p.stop trouble p.line
        | .ok (kinds, margins) =>
          let p := { p with margins := margins }
          kinds.map p.token ++ tokens p (c :: rest)
      else tokens p (c :: rest)
termination_by 2 * cs.length + 1
decreasing_by
  · have h₁ := length_le_of_margin h
    have h₂ := (List.dropWhile_suffix (fun x : Char => decide (x ≠ '\n')) (l := c :: rest)).length_le
    rw [_h] at h₂
    simp only [List.length_cons] at h₁ h₂
    omega
  all_goals
    have := length_le_of_margin h
    simp only [List.length_cons] at *
    omega

/-- The tokens from within a line on. -/
def tokens (p : Place) (cs : List Char) : List Token :=
  match cs with
  | [] => p.stopShort (p.line - 1)
  | '\\' :: '\n' :: [] => p.stopShort p.line
  | '\\' :: '\n' :: rest => tokens { p with line := p.line + 1 } rest
  | '\\' :: _ => p.stop .malformed p.line
  | '\n' :: rest =>
    let later := lineTokens { p with line := p.line + 1 } rest
    if p.brackets.isEmpty then p.token .newline :: later else later
  | c :: rest =>
    if isBlank c then tokens p rest
    else if c = '#' then tokens p (rest.dropWhile (· ≠ '\n'))
    else match p.scan c rest with
      | .rejected p => p.reject
      | .token t p more => t :: tokens p (rest.drop more)
termination_by 2 * cs.length
decreasing_by
  · simp only [List.length_cons]; omega
  · simp only [List.length_cons]; omega
  · simp only [List.length_cons]; omega
  · have := (List.dropWhile_suffix (· ≠ '\n') (l := rest)).length_le
    simp only [List.length_cons]
    omega
  · simp only [List.length_cons, List.length_drop]; omega

end

end LayerGate.Import.Indented
