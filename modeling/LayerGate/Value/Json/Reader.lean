import LayerGate.Value.Basic
import LayerGate.Decimal.Reading

/-!
# Reading JSON

A reader for JSON texts.  Each function takes the characters that are left and gives back what
it read with the rest; fuel bounds the nesting, and the length of the text is always enough because
every level of nesting takes a character.
-/

namespace LayerGate.Value.Json

def isBlank (c : Char) : Bool := c = ' ' || c = '\t' || c = '\n' || c = '\r'

def skipBlank (cs : List Char) : List Char := cs.dropWhile isBlank

def hexDigit? (c : Char) : Option Nat :=
  if c.isDigit then some (c.toNat - '0'.toNat)
  else if 'a' ≤ c ∧ c ≤ 'f' then some (c.toNat - 'a'.toNat + 10)
  else if 'A' ≤ c ∧ c ≤ 'F' then some (c.toNat - 'A'.toNat + 10)
  else none

/-- The number that four hexadecimal digits denote. -/
def unit? (a b c d : Char) : Option Nat := do
  let a ← hexDigit? a
  let b ← hexDigit? b
  let c ← hexDigit? c
  let d ← hexDigit? d
  return ((a * 16 + b) * 16 + c) * 16 + d

def isHighSurrogate (u : Nat) : Bool := 0xD800 ≤ u ∧ u < 0xDC00

def isLowSurrogate (u : Nat) : Bool := 0xDC00 ≤ u ∧ u < 0xE000

/-- The escapes of one character that are not written in hexadecimal. -/
def shortEscape? : Char → Option Char
  | '\x22' => some '\x22'
  | '\\' => some '\\'
  | '/' => some '/'
  | 'b' => some '\x08'
  | 'f' => some '\x0c'
  | 'n' => some '\n'
  | 'r' => some '\r'
  | 't' => some '\t'
  | _ => none

/-- The character of a code unit, given the high surrogate that stands right before it, if any. -/
def joinUnits? (high : Option Nat) (u : Nat) : Option Char :=
  match high with
  | some h =>
    if isLowSurrogate u then some (Char.ofNat (0x10000 + (h - 0xD800) * 0x400 + (u - 0xDC00)))
    else none
  | none => if isLowSurrogate u then none else some (Char.ofNat u)

/-- The characters of a string up to its closing quote.  `high` is a high surrogate that still waits
for its partner. -/
def textBody (high : Option Nat) (done : List Char) : List Char → Option (List Char × List Char)
  | [] => none
  | '\\' :: 'u' :: a :: b :: c :: d :: rest => do
    let u ← unit? a b c d
    if high.isNone ∧ isHighSurrogate u then textBody (some u) done rest
    else
      let c ← joinUnits? high u
      textBody none (c :: done) rest
  | '\\' :: e :: rest => do
    guard high.isNone
    let c ← shortEscape? e
    textBody none (c :: done) rest
  | c :: rest => do
    guard (high.isNone ∧ 0x20 ≤ c.toNat)
    if c = '\x22' then return (done.reverse, rest)
    textBody none (c :: done) rest

def text? (cs : List Char) : Option (String × List Char) := do
  let (body, rest) ← textBody none [] cs
  return (String.ofList body, rest)

/-- The digits in front, which must be there. -/
def digits? (cs : List Char) : Option (List Char × List Char) :=
  let ds := cs.takeWhile Char.isDigit
  if ds.isEmpty then none else some (ds, cs.dropWhile Char.isDigit)

def fraction? : List Char → Option (Option (List Char) × List Char)
  | '.' :: rest => (digits? rest).map fun (ds, rest) => (some ds, rest)
  | cs => some (none, cs)

def exponent? : List Char → Option (Option Int × List Char)
  | c :: rest =>
    if c = 'e' ∨ c = 'E' then
      match rest with
      | '-' :: rest => (digits? rest).map fun (ds, rest) => (some (-(Decimal.ofDigits ds : Int)), rest)
      | '+' :: rest => (digits? rest).map fun (ds, rest) => (some (Decimal.ofDigits ds : Int), rest)
      | rest => (digits? rest).map fun (ds, rest) => (some (Decimal.ofDigits ds : Int), rest)
    else some (none, c :: rest)
  | [] => some (none, [])

/-- A number without fraction and exponent is an integer of any size. -/
def unsigned? (cs : List Char) : Option ((Nat ⊕ Float) × List Char) := do
  let (whole, rest) ← match cs with
    | '0' :: rest => some (['0'], rest)
    | cs => digits? cs
  let (fraction, rest) ← fraction? rest
  let (exponent, rest) ← exponent? rest
  match fraction, exponent with
  | none, none => return (.inl (Decimal.ofDigits whole), rest)
  | fraction, exponent =>
    return (.inr (Decimal.Numeral.toFloat ⟨whole, fraction.getD [], exponent.getD 0⟩), rest)

def number? : List Char → Option (Value × List Char)
  | '-' :: rest => do
    let (n, rest) ← unsigned? rest
    return (n.elim (fun n : Nat => .int (-(n : Int))) (fun x => .real (-x)), rest)
  | cs => do
    let (n, rest) ← unsigned? cs
    return (n.elim (fun n : Nat => .int n) (fun x => .real x), rest)

mutual

def value? : Nat → List Char → Option (Value × List Char)
  | 0, _ => none
  | fuel + 1, cs =>
    match skipBlank cs with
    | 'n' :: 'u' :: 'l' :: 'l' :: rest => some (.null, rest)
    | 't' :: 'r' :: 'u' :: 'e' :: rest => some (.bool true, rest)
    | 'f' :: 'a' :: 'l' :: 's' :: 'e' :: rest => some (.bool false, rest)
    | '\x22' :: rest => (text? rest).map fun (s, rest) => (.text s, rest)
    | '[' :: rest =>
      match skipBlank rest with
      | ']' :: rest => some (.list [], rest)
      | rest => (items? fuel rest).map fun (xs, rest) => (.list xs, rest)
    | '{' :: rest =>
      match skipBlank rest with
      | '}' :: rest => some (.table [], rest)
      | rest => (fields? fuel [] rest).map fun (fs, rest) => (.table fs, rest)
    | rest => number? rest

/-- One value or more, separated by commas, and the closing bracket. -/
def items? : Nat → List Char → Option (List Value × List Char)
  | 0, _ => none
  | fuel + 1, cs => do
    let (v, rest) ← value? fuel cs
    match skipBlank rest with
    | ',' :: rest => do
      let (vs, rest) ← items? fuel rest
      return (v :: vs, rest)
    | ']' :: rest => return ([v], rest)
    | _ => none

/-- One field or more, separated by commas, and the closing brace. -/
def fields? : Nat → Fields → List Char → Option (Fields × List Char)
  | 0, _, _ => none
  | fuel + 1, done, cs => do
    match skipBlank cs with
    | '\x22' :: rest => do
      let (key, rest) ← text? rest
      match skipBlank rest with
      | ':' :: rest => do
        let (v, rest) ← value? fuel rest
        match skipBlank rest with
        | ',' :: rest => fields? fuel (done.put key v) rest
        | '}' :: rest => return (done.put key v, rest)
        | _ => none
      | _ => none
    | _ => none

end

/-- The value of a text that holds one JSON value and blanks, and nothing else. -/
def read (s : String) : Option Value := do
  let cs := s.toList
  let (v, rest) ← value? (cs.length + 1) cs
  if (skipBlank rest).isEmpty then return v else none

end LayerGate.Value.Json
