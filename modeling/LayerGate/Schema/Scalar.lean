import LayerGate.Schema.Checked
import LayerGate.Schema.Numeral
import LayerGate.Value.Basic

/-!
# Scalars

How the fields of a document are read one by one.  Numbers and truth values are also taken from text
that spells them, and from one another where nothing is lost.
-/

namespace LayerGate.Schema

def text : Value → Checked String
  | .text s => .valid s
  | _ => .complain .notText

/-- The words for true and false, in any case. -/
def boolWord? (s : String) : Option Bool :=
  match String.ofList (s.toList.map Char.toLower) with
  | "1" | "on" | "t" | "true" | "y" | "yes" => some true
  | "0" | "off" | "f" | "false" | "n" | "no" => some false
  | _ => none

def boolOfInt? : Int → Option Bool
  | 0 => some false
  | 1 => some true
  | _ => none

/-- The integer that a double without a fraction is, strictly between -2^63 and 2^63. -/
def wholeFloat (x : Float) : Checked Int :=
  if x.isNaN ∨ x.isInf then .complain .infiniteInteger
  else if x.floor != x then .complain .fractionalInteger
  else if x < 9223372036854775808.0 ∧ -9223372036854775808.0 < x then .valid x.toInt64.toInt
  else .complain .hugeInteger

/-- The range of signed integers of 64 bits. -/
def isInt64 (n : Int) : Bool := -(Int.pow 2 63) ≤ n && n < Int.pow 2 63

/-- An integer other than zero and one is unclear, one beyond 64 bits is no truth value at all. -/
def bool : Value → Checked Bool
  | .bool b => .valid b
  | .int n =>
    match boolOfInt? n with
    | some b => .valid b
    | none => .complain (if isInt64 n then .unclearBool else .notBool)
  | .real x =>
    match wholeFloat x with
    | .invalid _ => .complain .notBool
    | .valid n =>
      match boolOfInt? n with
      | some b => .valid b
      | none => .complain .unclearBool
  | .text s =>
    match boolWord? s with
    | some b => .valid b
    | none => .complain .unclearBool
  | _ => .complain .notBool

def integer : Value → Checked Int
  | .int n => .valid n
  | .bool b => .valid (if b then 1 else 0)
  | .real x => wholeFloat x
  | .text s =>
    match integerText s with
    | .read n => .valid n
    | .tooLong => .complain .hugeInteger
    | .unclear => .complain .unclearInteger
  | _ => .complain .notInteger

def real : Value → Checked Float
  | .real x => .valid x
  | .bool b => .valid (if b then 1 else 0)
  | .int n =>
    let magnitude := Decimal.toFloat n.natAbs 0
    if magnitude.isInf then .complain .notNumber
    else .valid (if n < 0 then -magnitude else magnitude)
  | .text s =>
    match realText? s with
    | some x => .valid x
    | none => .complain .unclearNumber
  | _ => .complain .notNumber

/-- A word and what it stands for. -/
abbrev Words (α : Type) := List (String × α)

def Words.find? {α : Type} (words : Words α) : Value → Option α
  | .text s => List.lookup s words
  | _ => none

def oneOf {α : Type} (words : Words α) (v : Value) : Checked α :=
  match words.find? v with
  | some a => .valid a
  | none => .complain (.notOneOf (words.map (·.1)))

def code {α : Type} (words : Words α) (v : Value) : Checked α :=
  match words.find? v with
  | some a => .valid a
  | none => .complain (.notCode (words.map (·.1)))

/-- `null` stands for nothing. -/
def nullable {α : Type} (read : Value → Checked α) : Value → Checked (Option α)
  | .null => .valid none
  | v => (read v).map some

def list {α : Type} (read : Value → Checked α) : Value → Checked (List α)
  | .list vs => Checked.elements 0 (vs.map read)
  | _ => .complain .notList

def set {α : Type} (read : Value → Checked α) : Value → Checked (List α)
  | .list vs => Checked.elements 0 (vs.map read)
  | _ => .complain .notSet

/-- The entries of a table in their order. -/
def entries {α : Type} (read : Value → Checked α) : Fields → Checked (List (String × α))
  | [] => .valid []
  | (k, v) :: rest => Checked.both List.cons (((read v).inside (.key k)).map (k, ·)) (entries read rest)

def table {α : Type} (read : Value → Checked α) : Value → Checked (List (String × α))
  | .table fields => entries read fields
  | _ => .complain .notTable

end LayerGate.Schema
