/-!
# Reading decimals

A decimal `m · 10 ^ e` as the nearest double.
-/

namespace LayerGate.Decimal

/-- The number that a run of decimal digits denotes. -/
def ofDigits (digits : List Char) : Nat :=
  digits.foldl (fun n c => 10 * n + (c.toNat - '0'.toNat)) 0

/-- Exponents that are certain to leave the range of doubles are cut off before any power is taken:
`mantissa` has at most `log2 mantissa / 3 + 1` digits. -/
def toFloat (mantissa : Nat) (exponent : Int) : Float :=
  if mantissa = 0 then 0
  else if exponent > 400 then 1.0 / 0.0
  else if exponent + (mantissa.log2 / 3 + 1 : Nat) < -400 then 0
  else match exponent with
    | .ofNat e => Float.ofScientific mantissa false e
    | .negSucc e => Float.ofScientific mantissa true (e + 1)

/-- An unsigned decimal in parts, as every notation here has them. -/
structure Numeral where
  whole : List Char
  fraction : List Char
  exponent : Int

def Numeral.toFloat (n : Numeral) : Float :=
  Decimal.toFloat (ofDigits (n.whole ++ n.fraction)) (n.exponent - n.fraction.length)

/-! ## Real numbers in text -/

/-- The exponent part, or nothing. -/
def exponent? : List Char → Option Int
  | [] => some 0
  | e :: rest =>
    if e ≠ 'e' ∧ e ≠ 'E' then none
    else match rest with
      | '-' :: ds => (digits? ds).map fun n => -(n : Int)
      | '+' :: ds => (digits? ds).map fun n => (n : Int)
      | ds => (digits? ds).map fun n => (n : Int)
where
  digits? (ds : List Char) : Option Nat :=
    if ds ≠ [] ∧ ds.all Char.isDigit then some (ofDigits ds) else none

/-- Digits on one side of the point at least. -/
def unsignedReal? (cs : List Char) : Option Float :=
  match String.ofList (cs.map Char.toLower) with
  | "inf" | "infinity" => some (1.0 / 0.0)
  | "nan" => some (0.0 / 0.0)
  | _ =>
    let (whole, rest) := cs.span Char.isDigit
    let (fraction, rest) := match rest with
      | '.' :: more => more.span Char.isDigit
      | _ => ([], rest)
    if whole = [] ∧ fraction = [] then none
    else (exponent? rest).map fun e => (⟨whole, fraction, e⟩ : Numeral).toFloat

def real? : List Char → Option Float
  | '-' :: cs => (unsignedReal? cs).map (- ·)
  | '+' :: cs => unsignedReal? cs
  | cs => unsignedReal? cs

end LayerGate.Decimal
