import LayerGate.Decimal.Digits

/-!
# The text of a double

Two layouts: the exact one for values that are read again, and the short one for messages.
-/

namespace LayerGate.Decimal

/-- Which exponents are written without an exponent part, and what a number without a fraction ends
in there. -/
structure Layout where
  positionalFrom : Int
  positionalTo : Int
  wholeEnd : String

/-- Positional from 0.0001 up to below 10 ^ 16, with a fraction always. -/
def exactLayout : Layout := ⟨-4, 16, ".0"⟩

/-- Positional from 0.0001 up to below a million, which is six digits. -/
def shortLayout : Layout := ⟨-4, 6, ""⟩

/-- The exponent has a sign and two digits or more. -/
def exponentText (e : Int) : String :=
  let digits := toString e.natAbs
  "e" ++ (if e < 0 then "-" else "+") ++ (if digits.length < 2 then "0" else "") ++ digits

def Layout.print (l : Layout) (s : Scientific) : String :=
  if l.positionalFrom ≤ s.exponent ∧ s.exponent < l.positionalTo then
    match s.exponent with
    | .ofNat e =>
      let whole := s.digits.take (e + 1)
      let padded := whole ++ List.replicate (e + 1 - whole.length) '0'
      let fraction := s.digits.drop (e + 1)
      String.ofList padded ++
        (if fraction.isEmpty then l.wholeEnd else "." ++ String.ofList fraction)
    | .negSucc e => "0." ++ String.ofList (List.replicate e '0' ++ s.digits)
  else
    match s.digits with
    | d :: [] => String.ofList [d] ++ exponentText s.exponent
    | d :: ds => String.ofList (d :: '.' :: ds) ++ exponentText s.exponent
    | [] => ""

/-- Sign, and the words for what is not finite. -/
def Layout.signed (l : Layout) (digits : Binary → Scientific) (x : Float) : String :=
  let bits := x.toBits
  let sign := if bits.toNat / Nat.pow 2 63 = 1 then "-" else ""
  if x.isNaN then "nan"
  else if x.isInf then sign ++ "inf"
  else
    let b := Binary.ofBits bits
    sign ++ l.print (if b.mantissa = 0 then ⟨['0'], 0⟩ else digits b)

/-- The shortest text that reads back. -/
def exact (x : Float) : String := exactLayout.signed Binary.shortest x

/-- Six significant digits. -/
def short (x : Float) : String := shortLayout.signed (fun b => (b.near 1 0).rounded 6) x

end LayerGate.Decimal
