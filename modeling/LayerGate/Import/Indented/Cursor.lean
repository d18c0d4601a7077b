import LayerGate.Import.Indented.Token

/-!
# Reading a token stream

A parse takes tokens off the front of the stream.  When it meets a token that nothing can follow
with, it fails there; the fault tells the line of that token unless a rule names another place.
-/

namespace LayerGate.Import.Indented

/-- `seen` is the line of the token at which the parse failed and `left` how many tokens, that one
included, were left. -/
structure Failure where
  fault : Fault
  seen : Nat
  left : Nat
  deriving DecidableEq, Repr

abbrev Parse (α : Type) := StateT (List Token) (Except Failure) α

namespace Parse

def kindAt (n : Nat) : Parse Kind := do
  return ((← get)[n]?.map (·.kind)).getD .finish

def peek : Parse Kind := kindAt 0

def line : Parse Nat := do
  return ((← get).head?.map (·.line)).getD 0

def advance : Parse Unit := modify (·.drop 1)

/-- A token that does not belong where it stands. -/
def Failure.at (ts : List Token) : Failure :=
  match ts with
  | [] => ⟨⟨.malformed, 0⟩, 0, 0⟩
  | t :: _ =>
    let fault := match t.kind with
      | .broken b => b.fault
      | .indent | .dedent => ⟨.indentation, t.line⟩
      | _ => ⟨.malformed, t.line⟩
    ⟨fault, t.line, ts.length⟩

def unexpected {α : Type} : Parse α := do throw (Failure.at (← get))

/-- Fails at the next token with a fault of its own, unless the stream breaks off there. -/
def failWith {α : Type} (fault : Fault) : Parse α := do
  let ts : List Token ← get
  let failure := Failure.at ts
  match ts with
  | ⟨.broken _, _, _⟩ :: _ => throw failure
  | _ => throw { failure with fault := fault }

/-- Fails at the next token and tells another line. -/
def failOn {α : Type} (line : Nat) : Parse α := failWith ⟨.malformed, line⟩

def accept (k : Kind) : Parse Bool := do
  if (← peek) = k then advance; return true
  return false

def expect (k : Kind) : Parse Unit := do
  unless ← accept k do unexpected

def acceptOp (symbol : String) : Parse Bool := accept (.op symbol)

def acceptWord (word : String) : Parse Bool := accept (.keyword word)

def expectOp (symbol : String) : Parse Unit := expect (.op symbol)

def expectWord (word : String) : Parse Unit := expect (.keyword word)

def name : Parse Name := do
  match ← peek with
  | .name name => advance; return name
  | _ => unexpected

/-- Runs one parse, or another from the same place.  If both fail, the failure that came further is
told. -/
def orElse {α : Type} (first second : Parse α) : Parse α := fun ts =>
  match first ts with
  | .ok r => .ok r
  | .error e =>
    match second ts with
    | .ok r => .ok r
    | .error e' => .error (if e'.left < e.left then e' else e)

end Parse

end LayerGate.Import.Indented
