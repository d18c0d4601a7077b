import LayerGate.Decimal.Reading
import LayerGate.Text.Blank
import LayerGate.Text.Digit

/-!
# Numbers as people type them

Blanks around the number, digits of any script, and underscores between digits.
-/

namespace LayerGate.Decimal

/-- Without underscores, if each of them stands between two digits; `last` is the character in front. -/
def withoutSeparators? (last : Char) : List Char → Option (List Char)
  | [] => some []
  | '_' :: c :: cs =>
    if last.isDigit ∧ c.isDigit then (withoutSeparators? c cs).map (c :: ·) else none
  | c :: cs => if c = '_' then none else (withoutSeparators? c cs).map (c :: ·)

def spelled? (s : String) : Option Float :=
  (withoutSeparators? ' ' (Text.trim Text.isSpace (Text.withPlainDigits s.toList))).bind real?

end LayerGate.Decimal
