import LayerGate.Import.Indented.Expression

/-!
# Patterns

What may stand after `case`.
-/

namespace LayerGate.Import.Indented

open Parse

/-- A number, perhaps negative; `true` if it is imaginary. -/
def signedNumber : Parse Bool := do
  let _ ← acceptOp "-"
  match ← peek with
  | .number isImaginary => advance; return isImaginary
  | _ => unexpected

/-- A number, or the sum of a real and an imaginary one. -/
def numberPattern : Parse Unit := do
  let isImaginary ← signedNumber
  match ← peek with
  | .op "+" | .op "-" => do
    if isImaginary then unexpected
    advance
    match ← peek with
    | .number true => advance
    | _ => unexpected
  | _ => return

/-- The attributes after a name; `true` if there are any. -/
def attributes : Nat → Parse Bool
  | 0 => return false
  | fuel + 1 => do
    if ← acceptOp "." then
      let _ ← name
      let _ ← attributes fuel
      return true
    return false

/-- A name that a pattern binds, which the wildcard is not. -/
def binding : Parse Unit := do
  match ← peek with
  | .name ⟨"_", _⟩ => unexpected
  | _ => let _ ← name

mutual

/-- One pattern with its alternatives and the name it is bound to. -/
def pattern : Nat → Parse Unit
  | 0 => unexpected
  | fuel + 1 => do
    alternatives fuel
    if ← acceptWord "as" then binding

def alternatives : Nat → Parse Unit
  | 0 => unexpected
  | fuel + 1 => do
    closedPattern fuel
    if ← acceptOp "|" then alternatives fuel

def closedPattern : Nat → Parse Unit
  | 0 => unexpected
  | fuel + 1 => do
    match ← peek with
    | .number _ | .op "-" => numberPattern
    | .string _ => let _ ← atom (fuel + 1)
    | .keyword "None" | .keyword "True" | .keyword "False" => advance
    | .name _ => do
      advance
      let _ ← attributes fuel
      if ← acceptOp "(" then classArguments fuel false
    | .op "(" => advance; groupPattern fuel
    | .op "[" => do
      advance
      unless ← acceptOp "]" do
        sequencePattern fuel "]"
        expectOp "]"
    | .op "\x7b" => advance; mappingPattern fuel
    | _ => unexpected

/-- What follows an opening parenthesis: a group, or a sequence if there is a comma or a star. -/
def groupPattern : Nat → Parse Unit
  | 0 => unexpected
  | fuel + 1 => do
    if ← acceptOp ")" then return
    let isStarred := (← peek) = .op "*"
    sequenceItem fuel
    if ← acceptOp "," then
      unless (← peek) = .op ")" do sequencePattern fuel ")"
    else if isStarred then unexpected
    expectOp ")"

/-- Items separated by commas up to `closing`, which stays. -/
def sequencePattern : Nat → String → Parse Unit
  | 0, _ => unexpected
  | fuel + 1, closing => do
    sequenceItem fuel
    if ← acceptOp "," then
      unless (← peek) = .op closing do sequencePattern fuel closing

def sequenceItem : Nat → Parse Unit
  | 0 => unexpected
  | fuel + 1 => do
    if ← acceptOp "*" then
      let _ ← name
    else pattern fuel

/-- Key patterns and, last, the binding of the rest; then the closing brace. -/
def mappingPattern : Nat → Parse Unit
  | 0 => unexpected
  | fuel + 1 => do
    if ← acceptOp "\x7d" then return
    if ← acceptOp "**" then
      binding
      let _ ← acceptOp ","
      expectOp "\x7d"
      return
    match ← peek with
    | .number _ | .op "-" => numberPattern
    | .string _ => let _ ← atom (fuel + 1)
    | .keyword "None" | .keyword "True" | .keyword "False" => advance
    | _ => do
      let _ ← name
      unless ← attributes fuel do unexpected
    expectOp ":"
    pattern fuel
    if ← acceptOp "," then mappingPattern fuel else expectOp "\x7d"

/-- Arguments of a class pattern, keywords last, and the closing parenthesis. -/
def classArguments : Nat → Bool → Parse Unit
  | 0, _ => unexpected
  | fuel + 1, sawKeyword => do
    if ← acceptOp ")" then return
    match ← peek, ← kindAt 1 with
    | .name _, .op "=" => do
      advance
      advance
      pattern fuel
      if ← acceptOp "," then classArguments fuel true else expectOp ")"
    | _, _ => do
      if sawKeyword then unexpected
      pattern fuel
      if ← acceptOp "," then classArguments fuel false else expectOp ")"

end

/-- Patterns as a case has them: an open sequence needs no brackets. -/
def casePatterns (fuel : Nat) : Parse Unit := do
  let isStarred := (← peek) = .op "*"
  sequenceItem fuel
  if ← acceptOp "," then
    match ← peek with
    | .op ":" | .keyword "if" => return
    | _ => openSequence fuel
  else if isStarred then unexpected
where
  openSequence : Nat → Parse Unit
    | 0 => unexpected
    | fuel + 1 => do
      sequenceItem fuel
      if ← acceptOp "," then
        match ← peek with
        | .op ":" | .keyword "if" => return
        | _ => openSequence fuel

end LayerGate.Import.Indented
