import LayerGate.Value.Basic

/-!
# Printing JSON

The layout of the structured report: keys in increasing order, two blanks for each level, and only
the quote, the backslash and the control characters below U+0020 escaped.
-/

namespace LayerGate.Value.Json

def hexChar (n : Nat) : Char := (Nat.digitChar n).toLower

/-- How a character is written between the quotes of a string. -/
def escape (c : Char) : List Char :=
  match c with
  | '\x22' => ['\\', '\x22']
  | '\\' => ['\\', '\\']
  | '\x08' => ['\\', 'b']
  | '\t' => ['\\', 't']
  | '\n' => ['\\', 'n']
  | '\x0c' => ['\\', 'f']
  | '\r' => ['\\', 'r']
  | c =>
    if c.toNat < 0x20 then ['\\', 'u', '0', '0', hexChar (c.toNat / 16), hexChar (c.toNat % 16)]
    else [c]

def quote (s : String) : List Char :=
  '\x22' :: s.toList.flatMap escape ++ ['\x22']

/-- A line break and the blanks of level `depth`. -/
def newline (depth : Nat) : List Char := '\n' :: List.replicate (2 * depth) ' '

def integer (n : Int) : List Char :=
  match n with
  | .ofNat n => Nat.toDigits 10 n
  | .negSucc n => '-' :: Nat.toDigits 10 (n + 1)

def keyLe (a b : String × List Char) : Bool := (compare a.1 b.1).isLE

/-- The members of a bracketed group, each on a line of its own. -/
def group (opening closing : Char) (depth : Nat) (members : List (List Char)) : List Char :=
  match members with
  | [] => [opening, closing]
  | members =>
    opening :: ((members.map (newline (depth + 1) ++ ·)).intersperse [',']).flatten
      ++ newline depth ++ [closing]

mutual

/-- The text of a value that starts on a line of level `depth`.  Reals and moments have no place in
a report and print as `null`. -/
def print (depth : Nat) : Value → List Char
  | .null => "null".toList
  | .bool true => "true".toList
  | .bool false => "false".toList
  | .int n => integer n
  | .real _ => "null".toList
  | .text s => quote s
  | .moment => "null".toList
  | .list items => group '[' ']' depth (printItems (depth + 1) items)
  | .table fields =>
    group '{' '}' depth
      (((printFields (depth + 1) fields).mergeSort keyLe).map fun (k, v) => quote k ++ ':' :: ' ' :: v)

def printItems (depth : Nat) : List Value → List (List Char)
  | [] => []
  | v :: vs => print depth v :: printItems depth vs

def printFields (depth : Nat) : List (String × Value) → List (String × List Char)
  | [] => []
  | (k, v) :: fs => (k, print depth v) :: printFields depth fs

end

/-- The text of a whole document, with a final line break. -/
def document (v : Value) : String := String.ofList (print 0 v ++ ['\n'])

end LayerGate.Value.Json
