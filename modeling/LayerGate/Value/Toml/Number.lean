import LayerGate.Decimal.Reading
import LayerGate.Value.Basic
import LayerGate.Value.Toml.Problem

/-!
# Numbers and dates in TOML

Each reader takes the longest text of its kind from the front.
-/

namespace LayerGate.Value.Toml

/-- Digits with single underscores between them; the first one stands before `cs`. -/
def moreDigits (isDigit : Char → Bool) : List Char → List Char × List Char
  | '_' :: d :: rest =>
    if isDigit d then
      let (ds, after) := moreDigits isDigit rest
      (d :: ds, after)
    else ([], '_' :: d :: rest)
  | d :: rest =>
    if isDigit d then
      let (ds, after) := moreDigits isDigit rest
      (d :: ds, after)
    else ([], d :: rest)
  | [] => ([], [])

def digits? (isDigit : Char → Bool) : List Char → Option (List Char × List Char)
  | d :: rest =>
    if isDigit d then
      let (ds, after) := moreDigits isDigit rest
      some (d :: ds, after)
    else none
  | [] => none

def hexValue (c : Char) : Nat :=
  if c.isDigit then c.toNat - '0'.toNat else c.toLower.toNat - 'a'.toNat + 10

def isHex (c : Char) : Bool :=
  c.isDigit || ('a' ≤ c && c ≤ 'f') || ('A' ≤ c && c ≤ 'F')

/-- An integer behind `0x`, `0b` or `0o`. -/
def based? : List Char → Option (Nat × List Char)
  | '0' :: 'x' :: rest => read 16 isHex rest
  | '0' :: 'b' :: rest => read 2 (fun c => c = '0' || c = '1') rest
  | '0' :: 'o' :: rest => read 8 (fun c => '0' ≤ c && c ≤ '7') rest
  | _ => none
where
  read (base : Nat) (isDigit : Char → Bool) (cs : List Char) : Option (Nat × List Char) :=
    (digits? isDigit cs).map fun (ds, after) =>
      (ds.foldl (fun n c => base * n + hexValue c) 0, after)

/-- The whole part: a lone zero, or digits that do not begin with one. -/
def whole? : List Char → Option (List Char × List Char)
  | '0' :: rest => some (['0'], rest)
  | cs => digits? Char.isDigit cs

def fraction? : List Char → Option (List Char × List Char)
  | '.' :: rest => digits? Char.isDigit rest
  | _ => none

def exponent? : List Char → Option (Int × List Char)
  | e :: rest =>
    if e ≠ 'e' ∧ e ≠ 'E' then none
    else
      let (negative, unsigned) := match rest with
        | '-' :: more => (true, more)
        | '+' :: more => (false, more)
        | more => (false, more)
      (digits? Char.isDigit unsigned).map fun (ds, after) =>
        let n := Decimal.ofDigits ds
        (if negative then -(n : Int) else n, after)
  | [] => none

/-- The sign, and what follows it. -/
def sign : List Char → Bool × List Char
  | '-' :: rest => (true, rest)
  | '+' :: rest => (false, rest)
  | cs => (false, cs)

/-- A decimal number: an integer unless it has a fraction or an exponent. -/
def decimal? (cs : List Char) : Option (Except Fault (Value × List Char)) :=
  let (negative, unsigned) := sign cs
  (whole? unsigned).map fun (whole, rest) =>
    let fraction := fraction? rest
    let (fractionDigits, rest) := fraction.getD ([], rest)
    let exponent := exponent? rest
    let (power, rest) := exponent.getD (0, rest)
    if fraction.isNone ∧ exponent.isNone then
      if whole.length > 4300 then .error (.longInteger whole.length)
      else
        let n : Int := Decimal.ofDigits whole
        .ok (.int (if negative then -n else n), rest)
    else
      let x := (⟨whole, fractionDigits, power⟩ : Decimal.Numeral).toFloat
      .ok (.real (if negative then -x else x), rest)

def number? (cs : List Char) : Option (Except Fault (Value × List Char)) :=
  match based? cs with
  | some (n, rest) => some (.ok (.int n, rest))
  | none => decimal? cs

/-- Infinity, or what is no number. -/
def wordNumber? (cs : List Char) : Option (Value × List Char) :=
  let (negative, unsigned) := sign cs
  let signed (x : Float) : Value := .real (if negative then -x else x)
  match unsigned with
  | 'i' :: 'n' :: 'f' :: rest => some (signed (1.0 / 0.0), rest)
  | 'n' :: 'a' :: 'n' :: rest => some (signed (0.0 / 0.0), rest)
  | _ => none

/-! ## Dates and times -/

/-- A number of two digits between `low` and `high`. -/
def twoDigits? (low high : Nat) : List Char → Option (Nat × List Char)
  | a :: b :: rest =>
    let n := Decimal.ofDigits [a, b]
    if a.isDigit ∧ b.isDigit ∧ low ≤ n ∧ n ≤ high then some (n, rest) else none
  | _ => none

def expect? (c : Char) : List Char → Option (List Char)
  | d :: rest => if d = c then some rest else none
  | [] => none

/-- Hours, minutes and seconds, with a fraction of a second if there is one. -/
def time? (cs : List Char) : Option (List Char) := do
  let (_, cs) ← twoDigits? 0 23 cs
  let (_, cs) ← twoDigits? 0 59 (← expect? ':' cs)
  let (_, cs) ← twoDigits? 0 59 (← expect? ':' cs)
  match cs with
  | '.' :: d :: rest => return if d.isDigit then rest.dropWhile Char.isDigit else cs
  | _ => return cs

/-- The distance from universal time, if there is one. -/
def offset (cs : List Char) : List Char :=
  match cs with
  | 'Z' :: rest | 'z' :: rest => rest
  | '+' :: rest | '-' :: rest =>
    ((twoDigits? 0 23 rest).bind fun (_, rest) =>
      (expect? ':' rest).bind fun rest => (twoDigits? 0 59 rest).map (·.2)).getD cs
  | _ => cs

structure Date where
  year : Nat
  month : Nat
  day : Nat

def date? : List Char → Option (Date × List Char)
  | a :: b :: c :: d :: rest => do
    if !([a, b, c, d].all Char.isDigit) then none
    let (month, rest) ← twoDigits? 1 12 (← expect? '-' rest)
    let (day, rest) ← twoDigits? 1 31 (← expect? '-' rest)
    return (⟨Decimal.ofDigits [a, b, c, d], month, day⟩, rest)
  | _ => none

def isLeap (year : Nat) : Bool := year % 4 = 0 && (year % 100 ≠ 0 || year % 400 = 0)

def daysIn (year month : Nat) : Nat :=
  if month = 2 then (if isLeap year then 29 else 28)
  else if month = 4 ∨ month = 6 ∨ month = 9 ∨ month = 11 then 30 else 31

/-- The calendar begins with the year 1. -/
def Date.isValid (d : Date) : Bool := 1 ≤ d.year && d.day ≤ daysIn d.year d.month

/-- The time behind a date, if there is one. -/
def timeOfDate (cs : List Char) : List Char :=
  match cs with
  | 'T' :: rest | 't' :: rest | ' ' :: rest => ((time? rest).map offset).getD cs
  | _ => cs

/-- A date with or without a time, or a time alone. -/
def moment? (cs : List Char) : Option (Except Fault (Value × List Char)) :=
  match date? cs with
  | some (date, rest) =>
    some (if date.isValid then .ok (.moment, timeOfDate rest) else fail .date cs)
  | none => (time? cs).map fun rest => .ok (.moment, rest)

end LayerGate.Value.Toml
