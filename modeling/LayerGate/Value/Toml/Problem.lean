import LayerGate.Text.Quoted

/-!
# What is wrong with a TOML document

A problem is told with the place at which reading stopped.
-/

namespace LayerGate.Value.Toml

/-- A dotted key. -/
abbrev Key := List String

inductive Problem where
  | statement
  | afterStatement
  | keyStart
  | equalsSign
  | tableEnd
  | tableListEnd
  | declaredTwice (key : Key)
  | frozen (key : Key)
  | redefined (key : Key)
  | overwritten
  | duplicateInline (name : String)
  | value
  | date
  | array
  | inlineTable
  | delimiter (text : String)
  | unterminated
  | illegal (c : Char)
  | invalid (c : Char)
  | escape
  | hexDigits
  | notScalar
  deriving DecidableEq, Repr

/-- The names of a key in quotes; a single one is followed by a comma. -/
def keyText (key : Key) : String :=
  match key with
  | [name] => "(" ++ Text.quoted name ++ ",)"
  | names => "(" ++ ", ".intercalate (names.map Text.quoted) ++ ")"

def charText (c : Char) : String := Text.quoted (String.ofList [c])

def Problem.message : Problem → String
  | .statement => "Invalid statement"
  | .afterStatement => "Expected newline or end of document after a statement"
  | .keyStart => "Invalid initial character for a key part"
  | .equalsSign => "Expected '=' after a key in a key/value pair"
  | .tableEnd => "Expected ']' at the end of a table declaration"
  | .tableListEnd => "Expected ']]' at the end of an array declaration"
  | .declaredTwice key => "Cannot declare " ++ keyText key ++ " twice"
  | .frozen key => "Cannot mutate immutable namespace " ++ keyText key
  | .redefined key => "Cannot redefine namespace " ++ keyText key
  | .overwritten => "Cannot overwrite a value"
  | .duplicateInline name => "Duplicate inline table key " ++ Text.quoted name
  | .value => "Invalid value"
  | .date => "Invalid date or datetime"
  | .array => "Unclosed array"
  | .inlineTable => "Unclosed inline table"
  | .delimiter mark => "Expected " ++ Text.quoted mark
  | .unterminated => "Unterminated string"
  | .illegal c => "Illegal character " ++ charText c
  | .invalid c => "Found invalid character " ++ charText c
  | .escape => "Unescaped '\\' in a string"
  | .hexDigits => "Invalid hex value"
  | .notScalar => "Escaped character is not a Unicode scalar value"

inductive Fault where
  /-- The problem, and how much of the document is left where reading stopped. -/
  | problem (problem : Problem) (left : Nat)
  /-- An integer of so many decimal digits is not read. -/
  | longInteger (digits : Nat)
  deriving DecidableEq, Repr

def fail {α : Type} (p : Problem) (rest : List Char) : Except Fault α :=
  .error (.problem p rest.length)

/-- Line and column of the place after `before`, both counted from one. -/
def lineAndColumn (before : List Char) : Nat × Nat :=
  (before.count '\n' + 1, (before.reverse.takeWhile (· ≠ '\n')).length + 1)

/-- The place where `left` characters of the document are left. -/
def placeText (document : List Char) (left : Nat) : String :=
  if left = 0 then "end of document"
  else
    let (line, column) := lineAndColumn (document.take (document.length - left))
    "line " ++ toString line ++ ", column " ++ toString column

def longIntegerMessage (digits : Nat) : String :=
  "Exceeds the limit (4300 digits) for integer string conversion: value has " ++ toString digits ++
    " digits; use sys.set_int_max_str_digits() to increase the limit"

/-- The message for a fault in the document. -/
def Fault.message (document : List Char) : Fault → String
  | .problem p left => p.message ++ " (at " ++ placeText document left ++ ")"
  | .longInteger digits => longIntegerMessage digits

end LayerGate.Value.Toml
