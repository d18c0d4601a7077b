import LayerGate.Value.Toml.Namespace
import LayerGate.Value.Toml.Number
import LayerGate.Value.Toml.Text

/-!
# TOML documents

Keys, values and the statements that make up a document.  Every text has room here: how deeply values
may be nested is a matter of the machine, `Machine.reader`.
-/

namespace LayerGate.Value.Toml

/-! ## Keys -/

def isBareKey (c : Char) : Bool := c.isAlphanum || c = '-' || c = '_'

def keyPart (cs : List Char) : Except Fault (String × List Char) :=
  match cs with
  | '\x27' :: rest => (literalLine rest).map fun (name, rest) => (String.ofList name, rest)
  | '\x22' :: rest => (basicLine rest).map fun (name, rest) => (String.ofList name, rest)
  | cs =>
    match cs.span isBareKey with
    | ([], _) => fail .keyStart cs
    | (name, rest) => .ok (String.ofList name, rest)

/-- A dotted key; `fuel` bounds the number of its parts. -/
def key : Nat → List Char → Except Fault (Key × List Char)
  | 0, cs => fail .keyStart cs
  | fuel + 1, cs => do
    let (name, rest) ← keyPart cs
    match skipBlanks rest with
    | '.' :: rest =>
      let (names, rest) ← key fuel (skipBlanks rest)
      return (name :: names, rest)
    | rest => return ([name], rest)

/-! ## Values -/

def isContainer : Value → Bool
  | .table _ | .list _ => true
  | _ => false

/-- A value that does not hold others. -/
def scalar (cs : List Char) : Except Fault (Value × List Char) :=
  let asText (r : Except Fault (List Char × List Char)) : Except Fault (Value × List Char) :=
    r.map fun (t, rest) => (Value.text (String.ofList t), rest)
  match cs with
  | '\x22' :: '\x22' :: '\x22' :: rest => asText (basicLines rest)
  | '\x22' :: rest => asText (basicLine rest)
  | '\x27' :: '\x27' :: '\x27' :: rest => asText (literalLines rest)
  | '\x27' :: rest => asText (literalLine rest)
  | 't' :: 'r' :: 'u' :: 'e' :: rest => .ok (.bool true, rest)
  | 'f' :: 'a' :: 'l' :: 's' :: 'e' :: rest => .ok (.bool false, rest)
  | cs =>
    match (moment? cs).or (number? cs), wordNumber? cs with
    | some r, _ => r
    | none, some r => .ok r
    | none, none => fail .value cs

/-- Adds a pair to an inline table. -/
def addInline (marks : Marks) (fields : Fields) (key : Key) (v : Value) (rest : List Char) :
    Except Fault Fields :=
  if marks.isFrozen key then fail (.frozen key) rest
  else
    let name := key.getLast?.getD ""
    match inTable false .ok key.dropLast fields with
    | .error .occupied => fail .overwritten rest
    | .ok _ =>
      match inTable false (addNew name v) key.dropLast fields with
      | .error .occupied => fail (.duplicateInline name) rest
      | .ok fields => .ok fields

mutual

def value : Nat → List Char → Except Fault (Value × List Char)
  | 0, cs => fail .value cs
  | fuel + 1, '[' :: rest => do
    match ← skipFiller rest.length rest with
    | ']' :: rest => return (.list [], rest)
    | rest =>
      let (items, rest) ← items fuel rest
      return (.list items, rest)
  | fuel + 1, '{' :: rest =>
    match skipBlanks rest with
    | '}' :: rest => .ok (.table [], rest)
    | rest => do
      let (fields, rest) ← pairs fuel .none [] rest
      return (.table fields, rest)
  | _ + 1, cs => scalar cs

/-- The items of a list up to its closing bracket. -/
def items : Nat → List Char → Except Fault (List Value × List Char)
  | 0, cs => fail .array cs
  | fuel + 1, cs => do
    let (v, rest) ← value fuel cs
    match ← skipFiller rest.length rest with
    | ']' :: rest => return ([v], rest)
    | ',' :: rest =>
      match ← skipFiller rest.length rest with
      | ']' :: rest => return ([v], rest)
      | rest =>
        let (vs, rest) ← items fuel rest
        return (v :: vs, rest)
    | rest => fail .array rest

/-- The pairs of an inline table up to its closing brace. -/
def pairs : Nat → Marks → Fields → List Char → Except Fault (Fields × List Char)
  | 0, _, _, cs => fail .inlineTable cs
  | fuel + 1, marks, fields, cs => do
    let (key, v, rest) ← pair fuel cs
    let fields ← addInline marks fields key v rest
    match skipBlanks rest with
    | '}' :: rest => return (fields, rest)
    | ',' :: rest =>
      pairs fuel (if isContainer v then marks.freeze key else marks) fields (skipBlanks rest)
    | rest => fail .inlineTable rest

/-- A key and its value. -/
def pair : Nat → List Char → Except Fault (Key × Value × List Char)
  | 0, cs => fail .keyStart cs
  | fuel + 1, cs => do
    let (key, rest) ← key (cs.length + 1) cs
    match rest with
    | '=' :: rest =>
      let (v, rest) ← value fuel (skipBlanks rest)
      return (key, v, rest)
    | rest => fail .equalsSign rest

end

/-! ## Statements -/

/-- What the statements so far have built, and the table that pairs go to. -/
structure State where
  fields : Fields
  marks : Marks
  header : Key

def State.empty : State := ⟨[], .none, []⟩

/-- Declares a table; `cs` begins behind the opening bracket. -/
def declareTable (s : State) (cs : List Char) : Except Fault (State × List Char) := do
  let (key, rest) ← key (cs.length + 1) (skipBlanks cs)
  if s.marks.isDeclared key ∨ s.marks.isFrozen key then fail (.declaredTwice key) rest
  match inTable true .ok key s.fields with
  | .error .occupied => fail .overwritten rest
  | .ok fields =>
    match rest with
    | ']' :: rest => return (⟨fields, s.marks.declare key, key⟩, rest)
    | rest => fail .tableEnd rest

/-- Declares one more table of a list; `cs` begins behind the opening brackets. -/
def declareListTable (s : State) (cs : List Char) : Except Fault (State × List Char) := do
  let (key, rest) ← key (cs.length + 1) (skipBlanks cs)
  if s.marks.isFrozen key then fail (.frozen key) rest
  match inTable true (appendTable (key.getLast?.getD "")) key.dropLast s.fields with
  | .error .occupied => fail .overwritten rest
  | .ok fields =>
    match rest with
    | ']' :: ']' :: rest => return (⟨fields, (s.marks.release key).declare key, key⟩, rest)
    | rest => fail .tableListEnd rest

/-- The keys of the tables on the way to the last name of a dotted key. -/
def tablesOnTheWay (header key : Key) : List Key :=
  (List.range (key.length - 1)).map fun i => header ++ key.take (i + 1)

/-- Adds a pair to the current table. -/
def addPair (s : State) (cs : List Char) : Except Fault (State × List Char) := do
  let (key, v, rest) ← pair (2 * cs.length + 2) cs
  let onTheWay := tablesOnTheWay s.header key
  if let some redefined := onTheWay.find? s.marks.isDeclared then fail (.redefined redefined) rest
  let parent := s.header ++ key.dropLast
  if s.marks.isFrozen parent then fail (.frozen parent) rest
  match inTable true (addNew (key.getLast?.getD "") v) parent s.fields with
  | .error .occupied => fail .overwritten rest
  | .ok fields =>
    let marks := onTheWay.foldl Marks.addPending s.marks
    return (⟨fields, if isContainer v then marks.freeze (s.header ++ key) else marks, s.header⟩, rest)

def startsKey (c : Char) : Bool := isBareKey c || c = '\x27' || c = '\x22'

/-- The statement at the front of a line, if the line is not blank. -/
def statement (s : State) (cs : List Char) : Except Fault (State × List Char) :=
  match cs with
  | '[' :: '[' :: rest => declareListTable { s with marks := s.marks.settle } rest
  | '[' :: rest => declareTable { s with marks := s.marks.settle } rest
  | '#' :: rest => .ok (s, '#' :: rest)
  | c :: rest => if startsKey c then addPair s (c :: rest) else fail .statement (c :: rest)
  | [] => .ok (s, [])

/-- The lines of a document; `fuel` bounds their number. -/
def statements : Nat → State → List Char → Except Fault State
  | 0, s, _ => .ok s
  | fuel + 1, s, cs => do
    match skipBlanks cs with
    | [] => return s
    | '\n' :: rest => statements fuel s rest
    | cs =>
      let (s, rest) ← statement s cs
      match ← skipComment (skipBlanks rest) with
      | [] => return s
      | '\n' :: rest => statements fuel s rest
      | rest => fail .afterStatement rest

/-- Line ends of two characters become line feeds; a lone carriage return stays. -/
def unifyPairs : List Char → List Char
  | '\r' :: '\n' :: rest => '\n' :: unifyPairs rest
  | c :: rest => c :: unifyPairs rest
  | [] => []

/-- The table that a document denotes. -/
def read (content : List Char) : Except Fault Value :=
  let document := unifyPairs content
  (statements (document.length + 1) .empty document).map fun s => .table s.fields

/-- What a fault in the document is told as. -/
def explain (content : List Char) (f : Fault) : String := f.message (unifyPairs content)

end LayerGate.Value.Toml
