import LayerGate.Import.Indented.Cursor
import LayerGate.Import.Indented.Formatted
import LayerGate.Import.Indented.Lexer
import LayerGate.Import.Indented.Shape
import LayerGate.Text.Blank

/-!
# Expressions

A recogniser for expressions: it says how far an expression reaches and what may be assigned to it.
Operators of one precedence group with those of the next, because the tree is not kept.  Fuel bounds
the descent; a multiple of the length of the source is always enough, because every few descents
take a character.
-/

namespace LayerGate.Import.Indented

open Parse

/-! ## Which tokens go where -/

def expressionWords : List String := ["None", "True", "False", "not", "lambda", "await"]

def expressionOps : List String := ["(", "[", "\x7b", "-", "+", "~", "..."]

def Kind.startsExpression : Kind → Bool
  | .name _ | .number _ | .string _ => true
  | .keyword word => expressionWords.contains word
  | .op symbol => expressionOps.contains symbol
  | _ => false

def Kind.startsElement (k : Kind) : Bool := k.startsExpression || k = .op "*"

def unaryOps : List String := ["+", "-", "~"]

/-- Binary operators that bind tighter than comparisons. -/
def binaryOps : List String :=
  ["|", "^", "&", "<<", ">>", "+", "-", "*", "/", "//", "%", "@", "**"]

def comparisonOps : List String := ["==", "!=", "<=", "<", ">=", ">"]

def softKeywords : List String := ["_", "case", "match"]

def acceptAny (symbols : List String) : Parse Bool := do
  match ← peek with
  | .op symbol => if symbols.contains symbol then advance; return true else return false
  | _ => return false

def acceptComparison : Parse Bool := do
  match ← peek, ← kindAt 1 with
  | .op symbol, _ => if comparisonOps.contains symbol then advance; return true else return false
  | .keyword "in", _ => advance; return true
  | .keyword "not", .keyword "in" => advance; advance; return true
  | .keyword "is", next => advance; if next = .keyword "not" then advance; return true else return true
  | _, _ => return false

/-! ## Literals -/

/-- Whether at least `count` hexadecimal digits are in front, and how many hold the value. -/
def hexRun (count : Nat) (cs : List Char) : Option Nat :=
  let digits := cs.take count
  if digits.length = count ∧ digits.all Numeral.isHexDigit then
    some (digits.foldl (fun n c => n * 16 + Text.hexValue c.toLower) 0)
  else none

/-- Whether the escapes of a literal are complete.  The names of characters are not looked up. -/
def escapesOk (isBytes : Bool) : List Char → Bool
  | '\\' :: 'x' :: cs => (hexRun 2 cs).isSome && escapesOk isBytes cs
  | '\\' :: 'u' :: cs => (isBytes || (hexRun 4 cs).isSome) && escapesOk isBytes cs
  | '\\' :: 'U' :: cs => (isBytes || (hexRun 8 cs).any (· < 0x110000)) && escapesOk isBytes cs
  | '\\' :: 'N' :: cs =>
    (isBytes || match cs with
      | '{' :: rest => rest.contains '}' && rest.head? ≠ some '}'
      | _ => false) && escapesOk isBytes cs
  | '\\' :: _ :: cs => escapesOk isBytes cs
  | _ :: cs => escapesOk isBytes cs
  | [] => true

def Literal.isSound (l : Literal) : Bool :=
  (!l.isBytes || l.body.all (·.toNat < 0x80)) &&
    (l.isRaw || escapesOk l.isBytes l.body)

/-- The text of a formatted literal in which fields are looked for. -/
def Literal.fieldText (l : Literal) : List Char :=
  if l.isRaw then l.body else Formatted.withoutNames l.body

/-- The literals in front, which are one atom, with their lines. -/
def literals : Nat → Parse (List (Literal × Nat))
  | 0 => return []
  | fuel + 1 => do
    match ← peek with
    | .string l => do
      let at_ ← line
      advance
      return (l, at_) :: (← literals fuel)
    | _ => return []

/-! ## The grammar -/

/-- Whether the tokens begin with a word that may stand right before an expression: a soft keyword,
or a name before a string, which may be meant as its mark. -/
def mayPrecedeExpression : List Token → Bool
  | ⟨.name _, _, _⟩ :: ⟨.string _, _, _⟩ :: _ => true
  | ⟨.name name, _, _⟩ :: _ => softKeywords.contains name.text
  | _ => false

/-- The token as it stands outside brackets, where a missing comma is not told. -/
def Token.unbracketed (t : Token) : Token := { t with depth := 0 }

mutual

/-- A disjunction, a choice or a lambda.  Within brackets an expression that stands right before
another one is told with the line of the first: a comma is missing. -/
def expression : Nat → Parse Shape
  | 0 => unexpected
  | fuel + 1 => do
    let before : List Token ← get
    let start ← line
    if ← acceptWord "lambda" then
      parameters fuel false ":" false false false false
      expectOp ":"
      let _ ← expression fuel
      return .other start
    let shape ← disjunction fuel
    if ← acceptWord "if" then
      let _ ← disjunction fuel
      if ← acceptWord "else" then
        let _ ← expression fuel
        return .other start
      if (← peek) = .op ":" then unexpected
      failOn shape.line
    missingComma fuel before shape.line
    return shape

/-- Fails on line `start` if another expression begins here within brackets. -/
def missingComma : Nat → List Token → Nat → Parse Unit
  | 0, _, _ => return
  | fuel + 1, before, start => do
    let after : List Token ← get
    match after with
    | t :: _ =>
      if t.kind.startsExpression ∧ 0 < t.depth ∧ ¬ mayPrecedeExpression before then
        match (beginning fuel).run (after.map Token.unbracketed) with
        | .ok (_, rest) =>
          let last := after[after.length - rest.length - 1]?
          if last.any (0 < ·.depth) then failOn start
        | .error _ => unexpected
    | [] => return

/-- The part of an expression up to its first atom. -/
def beginning : Nat → Parse Unit
  | 0 => unexpected
  | fuel + 1 => do
    match ← peek with
    | .keyword "lambda" => do
      advance
      parameters fuel false ":" false false false false
      expectOp ":"
      beginning fuel
    | .keyword "not" | .keyword "await" => do
      advance
      beginning fuel
    | _ => do
      if ← acceptAny unaryOps then beginning fuel
      else
        let _ ← atom fuel

def disjunction : Nat → Parse Shape
  | 0 => unexpected
  | fuel + 1 => do
    let start ← line
    let shape ← inversion fuel
    match ← peek with
    | .keyword "and" | .keyword "or" => do
      advance
      let _ ← disjunction fuel
      return .other start
    | _ => return shape

def inversion : Nat → Parse Shape
  | 0 => unexpected
  | fuel + 1 => do
    let start ← line
    if ← acceptWord "not" then
      let _ ← inversion fuel
      return .other start
    comparison fuel

def comparison : Nat → Parse Shape
  | 0 => unexpected
  | fuel + 1 => do
    let start ← line
    let shape ← arithmetic fuel
    if ← acceptComparison then
      let _ ← comparison fuel
      return .other start
    return shape

/-- Operands joined by operators that bind tighter than comparisons. -/
def arithmetic : Nat → Parse Shape
  | 0 => unexpected
  | fuel + 1 => do
    let start ← line
    let shape ← operand fuel
    if ← acceptAny binaryOps then
      let _ ← arithmetic fuel
      return .other start
    return shape

def operand : Nat → Parse Shape
  | 0 => unexpected
  | fuel + 1 => do
    let start ← line
    if ← acceptAny unaryOps then
      let _ ← operand fuel
      return .other start
    if ← acceptWord "await" then
      let shape ← atom fuel
      let _ ← trailers fuel start shape
      return .other start
    let shape ← atom fuel
    trailers fuel start shape

/-- Attributes, calls and subscripts after an atom that begins on line `start`. -/
def trailers : Nat → Nat → Shape → Parse Shape
  | 0, _, shape => return shape
  | fuel + 1, start, shape => do
    if ← acceptOp "." then
      let _ ← name
      trailers fuel start (.place start)
    else if ← acceptOp "(" then
      arguments fuel true
      trailers fuel start (.other start)
    else if ← acceptOp "[" then
      subscripts fuel
      trailers fuel start (.place start)
    else return shape

def atom : Nat → Parse Shape
  | 0 => unexpected
  | fuel + 1 => do
    let start ← line
    match ← peek with
    | .name _ => advance; return .place start
    | .number _ => advance; return .other start
    | .keyword "None" | .keyword "True" | .keyword "False" | .op "..." => advance; return .other start
    | .string _ => do
      let run ← literals (fuel + 1)
      if run.any (·.1.isBytes) ∧ run.any (!·.1.isBytes) then failOn (← line)
      checkLiterals fuel run
      return .other start
    | .op "(" => advance; parenthesis fuel start
    | .op "[" => advance; bracketed fuel start
    | .op "\x7b" => advance; braced fuel start
    | _ => unexpected

/-- What follows an opening parenthesis: a tuple, a group, a generator or a yield. -/
def parenthesis : Nat → Nat → Parse Shape
  | 0, _ => unexpected
  | fuel + 1, start => do
    if ← acceptOp ")" then return .sequence start []
    if (← peek) = .keyword "yield" then
      yieldExpression fuel
      expectOp ")"
      return .other start
    let shape ← element fuel
    if ← clauses? fuel shape then
      expectOp ")"
      return .other start
    if ← acceptOp "," then
      let more ← elements fuel
      expectOp ")"
      return .sequence start (shape :: more)
    match shape with
    | .starred at_ _ => failOn at_
    | shape =>
      expectOp ")"
      return shape

/-- What follows an opening bracket: a list or a comprehension. -/
def bracketed : Nat → Nat → Parse Shape
  | 0, _ => unexpected
  | fuel + 1, start => do
    if ← acceptOp "]" then return .sequence start []
    let shape ← element fuel
    if ← clauses? fuel shape then
      expectOp "]"
      return .other start
    let more ← if ← acceptOp "," then elements fuel else pure []
    expectOp "]"
    return .sequence start (shape :: more)

/-- What follows an opening brace: a dictionary, a set or a comprehension of either. -/
def braced : Nat → Nat → Parse Shape
  | 0, _ => unexpected
  | fuel + 1, start => do
    if ← acceptOp "\x7d" then return .other start
    if (← peek) = .op "**" then
      pairs fuel
      return .other start
    let shape ← element fuel
    if ← acceptOp ":" then
      let _ ← expression fuel
      if ← clauses? fuel (.other start) then
        expectOp "\x7d"
        return .other start
      if ← acceptOp "," then pairs fuel else expectOp "\x7d"
      return .other start
    if ← clauses? fuel shape then
      expectOp "\x7d"
      return .other start
    let _ ← if ← acceptOp "," then elements fuel else pure []
    expectOp "\x7d"
    return .other start

/-- Further items of a dictionary and its closing brace. -/
def pairs : Nat → Parse Unit
  | 0 => unexpected
  | fuel + 1 => do
    if ← acceptOp "\x7d" then return
    if ← acceptOp "**" then
      let _ ← arithmetic fuel
    else
      let _ ← expression fuel
      expectOp ":"
      let _ ← expression fuel
    if ← acceptOp "," then pairs fuel else expectOp "\x7d"

/-- An element of a display: an expression, which may name its value, or a starred one. -/
def element : Nat → Parse Shape
  | 0 => unexpected
  | fuel + 1 => do
    let start ← line
    if ← acceptOp "*" then
      let shape ← arithmetic fuel
      return .starred start shape
    named fuel

/-- Elements separated by commas, as far as they go. -/
def elements : Nat → Parse (List Shape)
  | 0 => return []
  | fuel + 1 => do
    if (← peek).startsElement then
      let shape ← element fuel
      if ← acceptOp "," then return shape :: (← elements fuel)
      return [shape]
    return []

/-- An expression, or a name that is given the value of one. -/
def named : Nat → Parse Shape
  | 0 => unexpected
  | fuel + 1 => do
    match ← peek, ← kindAt 1 with
    | .name _, .op ":=" => do
      let start ← line
      advance
      advance
      let _ ← expression fuel
      return .other start
    | _, _ => do
      let shape ← expression fuel
      if (← peek) = .op ":=" then unexpected
      return shape

/-- Expressions separated by commas, each of which may be starred.  One without a comma stands for
itself. -/
def expressions : Nat → Parse Shape
  | 0 => unexpected
  | fuel + 1 => do
    let start ← line
    let shape ← starredOr fuel
    if (← peek) = .op "," then
      let more ← moreExpressions fuel
      return .sequence start (shape :: more)
    return shape

def starredOr : Nat → Parse Shape
  | 0 => unexpected
  | fuel + 1 => do
    let start ← line
    if ← acceptOp "*" then
      let shape ← arithmetic fuel
      return .starred start shape
    expression fuel

def moreExpressions : Nat → Parse (List Shape)
  | 0 => return []
  | fuel + 1 => do
    if ← acceptOp "," then
      if (← peek).startsElement then
        let shape ← starredOr fuel
        return shape :: (← moreExpressions fuel)
    return []

def yieldExpression : Nat → Parse Unit
  | 0 => unexpected
  | fuel + 1 => do
    expectWord "yield"
    if ← acceptWord "from" then
      let _ ← expression fuel
    else if (← peek).startsElement then
      let _ ← expressions fuel

/-- The clauses of a comprehension after its element, if there are any. -/
def clauses? : Nat → Shape → Parse Bool
  | 0, _ => return false
  | fuel + 1, shape => do
    match ← peek, shape with
    | .keyword "for", .starred at_ _ => failOn at_
    | .keyword "async", .starred at_ _ => failOn at_
    | .keyword "for", _ => clauses fuel; return true
    | .keyword "async", _ => clauses fuel; return true
    | _, _ => return false

def clauses : Nat → Parse Unit
  | 0 => unexpected
  | fuel + 1 => do
    let _ ← acceptWord "async"
    expectWord "for"
    targets fuel
    expectWord "in"
    let _ ← disjunction fuel
    conditions fuel
    match ← peek with
    | .keyword "for" | .keyword "async" => clauses fuel
    | _ => return

def conditions : Nat → Parse Unit
  | 0 => return
  | fuel + 1 => do
    if ← acceptWord "if" then
      let _ ← disjunction fuel
      conditions fuel

/-- Targets separated by commas, up to `in`. -/
def targets : Nat → Parse Unit
  | 0 => unexpected
  | fuel + 1 => do
    target fuel
    if ← acceptOp "," then
      if (← peek).startsElement then targets fuel

/-- One target of a loop or a context manager. -/
def target : Nat → Parse Unit
  | 0 => unexpected
  | fuel + 1 => do
    let _ ← acceptOp "*"
    let shape ← arithmetic fuel
    match shape.misfit? true with
    | some at_ => failOn at_
    | none => return

/-- The arguments of a call or a class and the closing parenthesis. -/
def arguments : Nat → Bool → Parse Unit
  | 0, _ => unexpected
  | fuel + 1, mayGenerate => moreArguments fuel mayGenerate false false

/-- Positional arguments come first; after a keyword only keywords and starred arguments, and after
two stars only keywords and further pairs of stars. -/
def moreArguments : Nat → Bool → Bool → Bool → Parse Unit
  | 0, _, _, _ => unexpected
  | fuel + 1, mayGenerate, sawKeyword, sawPairs => do
    if ← acceptOp ")" then return
    match ← peek, ← kindAt 1 with
    | .op "**", _ => do
      advance
      let _ ← expression fuel
      nextArgument fuel sawKeyword true
    | .op "*", _ => do
      if sawPairs then unexpected
      advance
      let _ ← expression fuel
      nextArgument fuel sawKeyword sawPairs
    | .name _, .op "=" => do
      advance
      advance
      let _ ← expression fuel
      nextArgument fuel true sawPairs
    | _, _ => do
      let shape ← named fuel
      if sawKeyword ∨ sawPairs then unexpected
      if mayGenerate then
        if ← clauses? fuel shape then
          expectOp ")"
          return
      nextArgument fuel sawKeyword sawPairs

def nextArgument : Nat → Bool → Bool → Parse Unit
  | 0, _, _ => unexpected
  | fuel + 1, sawKeyword, sawPairs => do
    if ← acceptOp "," then moreArguments fuel false sawKeyword sawPairs else expectOp ")"

/-- One subscript or more, separated by commas, and the closing bracket. -/
def subscripts : Nat → Parse Unit
  | 0 => unexpected
  | fuel + 1 => do
    subscript fuel
    if ← acceptOp "," then
      if ← acceptOp "]" then return
      subscripts fuel
    else expectOp "]"

def subscript : Nat → Parse Unit
  | 0 => unexpected
  | fuel + 1 => do
    if ← acceptOp "*" then
      let _ ← expression fuel
    else if (← peek) = .op ":" then bounds fuel
    else
      let isNamed : Bool := match ← kindAt 1 with
        | .op ":=" => true
        | _ => false
      let _ ← named fuel
      if (← peek) = .op ":" ∧ ¬ isNamed then bounds fuel

/-- The part of a slice from its first colon on. -/
def bounds : Nat → Parse Unit
  | 0 => unexpected
  | fuel + 1 => do
    expectOp ":"
    if (← peek).startsExpression then
      let _ ← expression fuel
    if ← acceptOp ":" then
      if (← peek).startsExpression then
        let _ ← expression fuel

/-- The parameters of a function up to `closing`, which stays.  A slash comes once, after a
parameter and before any star; a parameter with a default is followed by others with one up to the
star; a bare star has a parameter after it. -/
def parameters : Nat → Bool → String → Bool → Bool → Bool → Bool → Parse Unit
  | 0, _, _, _, _, _, _ => unexpected
  | fuel + 1, annotated, closing, sawAny, sawSlash, sawDefault, sawStar => do
    match ← peek with
    | .op "/" => do
      if !sawAny || sawSlash || sawStar then unexpected
      advance
      nextParameter fuel annotated closing true true sawDefault sawStar
    | .op "*" => do
      if sawStar then unexpected
      advance
      if ← acceptOp "," then
        match ← peek with
        | .name _ => parameters fuel annotated closing true sawSlash sawDefault true
        | _ => unexpected
      else
        let _ ← name
        if annotated then
          if ← acceptOp ":" then
            let _ ← starredOr fuel
        nextParameter fuel annotated closing true sawSlash sawDefault true
    | .op "**" => do
      advance
      let _ ← name
      annotation fuel annotated
      let _ ← acceptOp ","
      if (← peek) ≠ .op closing then unexpected
    | .name _ => do
      advance
      annotation fuel annotated
      if ← acceptOp "=" then
        let _ ← expression fuel
        nextParameter fuel annotated closing true sawSlash true sawStar
      else
        if sawDefault && !sawStar then unexpected
        nextParameter fuel annotated closing true sawSlash sawDefault sawStar
    | k => if k = .op closing then return else unexpected

def annotation : Nat → Bool → Parse Unit
  | 0, _ => return
  | fuel + 1, annotated => do
    if annotated then
      if ← acceptOp ":" then
        let _ ← expression fuel

def nextParameter : Nat → Bool → String → Bool → Bool → Bool → Bool → Parse Unit
  | 0, _, _, _, _, _, _ => unexpected
  | fuel + 1, annotated, closing, sawAny, sawSlash, sawDefault, sawStar => do
    if ← acceptOp "," then parameters fuel annotated closing sawAny sawSlash sawDefault sawStar
    else if (← peek) ≠ .op closing then unexpected

def checkLiterals : Nat → List (Literal × Nat) → Parse Unit
  | 0, _ => return
  | _ + 1, [] => return
  | fuel + 1, (l, at_) :: rest => do
    unless l.isSound do failOn at_
    if l.isFormatted then
      let left ← fields fuel 0 at_ l.fieldText
      unless left.isEmpty do failOn (← line)
    checkLiterals fuel rest

/-- Reads the text of a formatted literal from `at_` on, fields included.  Within the format of a
field, at a `level` above zero, a closing brace ends the text and is given back with the rest. -/
def fields : Nat → Nat → Nat → List Char → Parse (List Char)
  | 0, _, _, cs => return cs
  | _ + 1, _, _, [] => return []
  | fuel + 1, level, at_, '{' :: cs => do
    if level = 0 ∧ cs.head? = some '{' then fields fuel level at_ (cs.drop 1)
    else if 2 ≤ level then failOn (← line)
    else match Formatted.expression? [] [] [] cs with
      | none => failOn (← line)
      | some (body, rest) => do
        if body.all Text.isSpace then failOn (← line)
        let place : Place := { Place.start with line := at_ }
        match (expressions fuel).run (tokens place ('(' :: body ++ [')', '\n'])) with
        | .error e => failOn e.fault.line
        | .ok _ => do
          let at_ := at_ + body.count '\n'
          match Formatted.conversion? rest with
          | some (':' :: format) => do
            let left ← fields fuel (level + 1) at_ format
            match left with
            | '}' :: left => fields fuel level at_ left
            | _ => failOn (← line)
          | some ('}' :: left) => fields fuel level at_ left
          | _ => failOn (← line)
  | fuel + 1, level, at_, '}' :: cs => do
    if level = 0 then
      if cs.head? = some '}' then fields fuel level at_ (cs.drop 1) else failOn (← line)
    else return '}' :: cs
  | fuel + 1, level, at_, c :: cs => fields fuel level (if c = '\n' then at_ + 1 else at_) cs

end

end LayerGate.Import.Indented
