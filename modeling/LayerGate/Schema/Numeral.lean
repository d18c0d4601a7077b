import LayerGate.Decimal.Reading
import LayerGate.Text.Blank
import LayerGate.Text.Split

/-!
# Numbers in text

The spellings in which a schema takes a number that is given as text.
-/

namespace LayerGate.Schema

/-- Without underscores, if each of them stands alone and inside. -/
def withoutUnderscores? (cs : List Char) : Option (List Char) :=
  if (Text.pieces '_' cs).all (· ≠ []) then some (cs.filter (· ≠ '_')) else none

/-- A run of zeros that ends in a digit or a dot is dropped, in front of a dot all but its last. -/
def withoutZeros? : List Char → Option (List Char)
  | '0' :: rest => after '0' rest
  | c :: rest => if c.isDigit ∨ c = '-' then some (c :: rest) else none
  | [] => none
where
  after (last : Char) : List Char → Option (List Char)
    | [] => some [last]
    | c :: rest =>
      if c = '0' ∨ c = '_' then after c rest
      else if c = '.' then some (last :: c :: rest)
      else if c.isDigit then some (c :: rest)
      else none

/-- Without a fraction that is zero. -/
def withoutZeroFraction (cs : List Char) : List Char :=
  match cs.span (· ≠ '.') with
  | (whole, _ :: fraction) => if fraction.all (· = '0') then whole else cs
  | (_, []) => cs

/-- The integer that a sign and digits denote. -/
def plainInteger? : List Char → Option Int
  | '-' :: c :: cs =>
    if (c :: cs).all Char.isDigit then some (-(Decimal.ofDigits (c :: cs) : Int)) else none
  | c :: cs => if (c :: cs).all Char.isDigit then some (Decimal.ofDigits (c :: cs)) else none
  | [] => none

inductive IntegerText where
  | read (n : Int)
  | tooLong
  | unclear

/-- Blanks around, a plus sign, leading zeros, single underscores and a zero fraction are allowed;
more than 4300 characters are too long. -/
def integerText (s : String) : IntegerText :=
  let trimmed := Text.trim Text.isSpace s.toList
  let unsigned? := match trimmed with
    | '+' :: '-' :: _ => none
    | '+' :: rest => some rest
    | rest => some rest
  match (unsigned?.bind withoutZeros?).map withoutZeroFraction with
  | none => .unclear
  | some cs =>
    if cs.length > 4300 then .tooLong
    else match (withoutUnderscores? cs).bind plainInteger? with
      | some n => .read n
      | none => .unclear

/-- Blanks around and single underscores are allowed. -/
def realText? (s : String) : Option Float :=
  let trimmed := Text.trim Text.isSpace s.toList
  (Decimal.real? trimmed).or ((withoutUnderscores? trimmed).bind Decimal.real?)

end LayerGate.Schema
