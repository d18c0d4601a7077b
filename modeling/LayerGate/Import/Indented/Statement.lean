import LayerGate.Import.Indented.Pattern
import LayerGate.Import.Ref

/-!
# Statements

A statement is recognised in full, and the imports in it are kept, at any depth.
-/

namespace LayerGate.Import.Indented

open Parse

/-! ## Imports -/

/-- Names joined by dots. -/
def dottedName : Nat → Parse String
  | 0 => unexpected
  | fuel + 1 => do
    let first ← name
    if ← acceptOp "." then return first.text ++ "." ++ (← dottedName fuel)
    return first.text

/-- The other name of an import, if it has one. -/
def alias? : Parse Unit := do
  if ← acceptWord "as" then
    let _ ← name

/-- The modules of an `import`, each a reference of its own. -/
def importedModules : Nat → Nat → Parse (List Ref)
  | 0, _ => unexpected
  | fuel + 1, at_ => do
    let module ← dottedName fuel
    alias?
    let ref : Ref := ⟨at_, module, [], 0, .python⟩
    if ← acceptOp "," then return ref :: (← importedModules fuel at_)
    return [ref]

/-- The leading dots of a relative import. -/
def leadingDots : Nat → Parse Nat
  | 0 => return 0
  | fuel + 1 => do
    if ← acceptOp "." then return 1 + (← leadingDots fuel)
    if ← acceptOp "..." then return 3 + (← leadingDots fuel)
    return 0

def importedName : Parse Name := do
  let imported ← name
  alias?
  return imported

/-- Names without parentheses; a comma has a name after it. -/
def openNames : Nat → Parse (List Name)
  | 0 => unexpected
  | fuel + 1 => do
    let imported ← importedName
    if ← acceptOp "," then return imported :: (← openNames fuel)
    return [imported]

/-- Names within parentheses and the closing one; a comma may come last. -/
def enclosedNames : Nat → Parse (List Name)
  | 0 => unexpected
  | fuel + 1 => do
    let imported ← importedName
    if ← acceptOp "," then
      if ← acceptOp ")" then return [imported]
      return imported :: (← enclosedNames fuel)
    expectOp ")"
    return [imported]

/-- What follows `from`. -/
def fromImport (fuel at_ : Nat) : Parse Ref := do
  let level ← leadingDots fuel
  let module ←
    if level ≠ 0 ∧ (← peek) = .keyword "import" then pure "" else dottedName fuel
  expectWord "import"
  let names ←
    if ← acceptOp "*" then pure []
    else if ← acceptOp "(" then enclosedNames fuel
    else openNames fuel
  return ⟨at_, module, names.map Name.text, level, .python⟩

/-! ## Simple statements -/

def augmentedOps : List String :=
  ["+=", "-=", "*=", "@=", "/=", "%=", "&=", "|=", "^=", "<<=", ">>=", "**=", "//="]

/-- A value on the right of an assignment. -/
def rightSide (fuel : Nat) : Parse Shape := do
  let start ← line
  if (← peek) = .keyword "yield" then
    yieldExpression fuel
    return .other start
  expressions fuel

/-- Further equals signs after a value that is a target then. -/
def chainedTargets : Nat → Shape → Parse Unit
  | 0, _ => return
  | fuel + 1, shape => do
    if (← peek) = .op "=" then
      match shape.misfit? true with
      | some at_ => failOn at_
      | none => do
        advance
        let shape ← rightSide fuel
        chainedTargets fuel shape

/-- An expression, an assignment or an annotation. -/
def expressionStatement (fuel : Nat) : Parse Unit := do
  let shape ← rightSide fuel
  match ← peek with
  | .op "=" => chainedTargets fuel shape
  | .op ":" => do
    unless shape.isPlace do unexpected
    advance
    let _ ← expression fuel
    if ← acceptOp "=" then
      let _ ← rightSide fuel
  | .op symbol => do
    if augmentedOps.contains symbol then
      unless shape.isPlace do failOn shape.line
      advance
      let _ ← rightSide fuel
  | _ => return

def nameList : Nat → Parse Unit
  | 0 => unexpected
  | fuel + 1 => do
    let _ ← name
    if ← acceptOp "," then nameList fuel

def deletion (fuel : Nat) : Parse Unit := do
  let shape ← expressions fuel
  match shape.misfit? false with
  | some at_ => failOn at_
  | none => return

/-- A statement that fits on a line, without what ends it. -/
def simpleStatement (fuel : Nat) : Parse (List Ref) := do
  let at_ ← line
  match ← peek with
  | .keyword "import" => advance; importedModules fuel at_
  | .keyword "from" => do
    advance
    return [← fromImport fuel at_]
  | .keyword "pass" | .keyword "break" | .keyword "continue" => advance; return []
  | .keyword "return" => do
    advance
    if (← peek).startsElement then
      let _ ← expressions fuel
    return []
  | .keyword "raise" => do
    advance
    if (← peek).startsExpression then
      let _ ← expression fuel
      if ← acceptWord "from" then
        let _ ← expression fuel
    return []
  | .keyword "assert" => do
    advance
    let _ ← expression fuel
    if ← acceptOp "," then
      let _ ← expression fuel
    return []
  | .keyword "global" | .keyword "nonlocal" => do
    advance
    nameList fuel
    return []
  | .keyword "del" => do
    advance
    deletion fuel
    return []
  | _ => do
    expressionStatement fuel
    return []

/-- Simple statements separated by semicolons and the end of their line. -/
def simpleStatements : Nat → Parse (List Ref)
  | 0 => unexpected
  | fuel + 1 => do
    let refs ← simpleStatement fuel
    if ← acceptOp ";" then
      if ← accept .newline then return refs
      return refs ++ (← simpleStatements fuel)
    expect .newline
    return refs

/-! ## Compound statements -/

/-- One context of a `with` and its target. -/
def context (fuel : Nat) : Parse Unit := do
  let _ ← expression fuel
  if ← acceptWord "as" then target fuel

/-- Contexts without parentheses. -/
def openContexts : Nat → Parse Unit
  | 0 => unexpected
  | fuel + 1 => do
    context fuel
    if ← acceptOp "," then openContexts fuel

/-- Contexts within parentheses and the closing one; a comma may come last. -/
def enclosedContexts : Nat → Parse Unit
  | 0 => unexpected
  | fuel + 1 => do
    context fuel
    if ← acceptOp "," then
      if ← acceptOp ")" then return
      enclosedContexts fuel
    else expectOp ")"

/-- What stands between `with` and the block, the colon included. -/
def contexts (fuel : Nat) : Parse Unit :=
  let enclosed : Parse Unit := do
    expectOp "("
    enclosedContexts fuel
    expectOp ":"
  let bare : Parse Unit := do
    openContexts fuel
    expectOp ":"
  orElse enclosed bare

/-- What follows `except`, the colon included. -/
def handlerHead (fuel : Nat) (isGroup : Bool) : Parse Unit := do
  if isGroup then expectOp "*"
  if isGroup ∨ (← peek) ≠ .op ":" then
    let _ ← expression fuel
    if ← acceptWord "as" then
      let _ ← name
  expectOp ":"

/-- The word in front of each case; elsewhere it is a name. -/
def caseWord : Name := ⟨"case", by decide⟩

/-- What a `match` looks at. -/
def subject (fuel : Nat) : Parse Unit := do
  let shape ← element fuel
  if ← acceptOp "," then
    let _ ← elements fuel
  else match shape with
    | .starred _ _ => unexpected
    | _ => return

mutual

/-- Indented statements after a line end, or simple statements on the same line. -/
def block : Nat → Parse (List Ref)
  | 0 => unexpected
  | fuel + 1 => do
    if ← accept .newline then
      if ← accept .indent then
        let refs ← statements fuel
        expect .dedent
        return refs
      failWith ⟨.indentation, ← line⟩
    simpleStatements fuel

/-- One statement or more, up to the end of the indentation or of the source. -/
def statements : Nat → Parse (List Ref)
  | 0 => unexpected
  | fuel + 1 => do
    let refs ← statement fuel
    match ← peek with
    | .dedent | .finish => return refs
    | _ => return refs ++ (← statements fuel)

def statement : Nat → Parse (List Ref)
  | 0 => unexpected
  | fuel + 1 => do
    match ← peek with
    | .keyword "if" => do
      advance
      conditional fuel
    | .keyword "while" => do
      advance
      let _ ← named fuel
      expectOp ":"
      let refs ← block fuel
      return refs ++ (← otherwise fuel)
    | .keyword "for" => do
      advance
      loop fuel
    | .keyword "with" => do
      advance
      contexts fuel
      block fuel
    | .keyword "try" => do
      advance
      expectOp ":"
      let refs ← block fuel
      return refs ++ (← handlers fuel)
    | .keyword "def" => do
      advance
      function fuel
    | .keyword "class" => do
      advance
      let _ ← name
      if ← acceptOp "(" then arguments fuel false
      expectOp ":"
      block fuel
    | .keyword "async" => do
      advance
      match ← peek with
      | .keyword "def" => advance; function fuel
      | .keyword "with" => advance; contexts fuel; block fuel
      | .keyword "for" => advance; loop fuel
      | _ => unexpected
    | .op "@" => decorated fuel
    | .name ⟨"match", _⟩ => orElse (selection fuel) (simpleStatements fuel)
    | _ => simpleStatements fuel

/-- What follows `if` or `elif`. -/
def conditional : Nat → Parse (List Ref)
  | 0 => unexpected
  | fuel + 1 => do
    let _ ← named fuel
    expectOp ":"
    let refs ← block fuel
    if ← acceptWord "elif" then return refs ++ (← conditional fuel)
    return refs ++ (← otherwise fuel)

/-- An `else` and its block, if there is one. -/
def otherwise : Nat → Parse (List Ref)
  | 0 => unexpected
  | fuel + 1 => do
    if ← acceptWord "else" then
      expectOp ":"
      block fuel
    else return []

/-- What follows `for`. -/
def loop : Nat → Parse (List Ref)
  | 0 => unexpected
  | fuel + 1 => do
    targets fuel
    expectWord "in"
    let _ ← expressions fuel
    expectOp ":"
    let refs ← block fuel
    return refs ++ (← otherwise fuel)

/-- What follows the block of a `try`: handlers of one sort with the rest, or `finally` alone. -/
def handlers : Nat → Parse (List Ref)
  | 0 => unexpected
  | fuel + 1 => do
    match ← peek with
    | .keyword "finally" => cleanup fuel
    | .keyword "except" => do
      let isGroup := (← kindAt 1) = .op "*"
      let refs ← handlerList fuel isGroup
      let refs := refs ++ (← otherwise fuel)
      return refs ++ (← cleanup fuel)
    | _ => failWith ⟨.malformed, ← line⟩

def handlerList : Nat → Bool → Parse (List Ref)
  | 0, _ => unexpected
  | fuel + 1, isGroup => do
    if ← acceptWord "except" then
      handlerHead fuel isGroup
      let refs ← block fuel
      return refs ++ (← handlerList fuel isGroup)
    else return []

def cleanup : Nat → Parse (List Ref)
  | 0 => unexpected
  | fuel + 1 => do
    if ← acceptWord "finally" then
      expectOp ":"
      block fuel
    else return []

/-- What follows `def`. -/
def function : Nat → Parse (List Ref)
  | 0 => unexpected
  | fuel + 1 => do
    let _ ← name
    expectOp "("
    parameters fuel true ")" false false false false
    expectOp ")"
    if ← acceptOp "->" then
      let _ ← expression fuel
    expectOp ":"
    block fuel

def decorated : Nat → Parse (List Ref)
  | 0 => unexpected
  | fuel + 1 => do
    if ← acceptOp "@" then
      let _ ← named fuel
      expect .newline
      decorated fuel
    else match ← peek, ← kindAt 1 with
      | .keyword "def", _ | .keyword "class", _ | .keyword "async", .keyword "def" => statement fuel
      | .keyword "async", _ => advance; unexpected
      | _, _ => unexpected

/-- A `match` with its cases. -/
def selection : Nat → Parse (List Ref)
  | 0 => unexpected
  | fuel + 1 => do
    advance
    subject fuel
    expectOp ":"
    expect .newline
    unless ← accept .indent do failWith ⟨.indentation, ← line⟩
    let refs ← cases fuel
    expect .dedent
    return refs

def cases : Nat → Parse (List Ref)
  | 0 => unexpected
  | fuel + 1 => do
    expect (.name caseWord)
    casePatterns fuel
    if ← acceptWord "if" then
      let _ ← named fuel
    expectOp ":"
    let refs ← block fuel
    if (← peek) = .name caseWord then return refs ++ (← cases fuel)
    return refs

end

/-- A whole source. -/
def source (fuel : Nat) : Parse (List Ref) := do
  if (← peek) = .finish then return []
  let refs ← statements fuel
  expect .finish
  return refs

end LayerGate.Import.Indented
