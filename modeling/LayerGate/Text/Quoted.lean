import LayerGate.Text.Printable

/-!
# Quoted text

How messages show a piece of text: in single quotes, or in double quotes if it holds a single quote
and no double one, with everything escaped that cannot be printed.
-/

namespace LayerGate.Text

/-- At least `width` lower-case hexadecimal digits. -/
def hexPadded (width n : Nat) : List Char :=
  let digits := (Nat.toDigits 16 n).map Char.toLower
  List.replicate (width - digits.length) '0' ++ digits

def quoteEscape (quote c : Char) : List Char :=
  if c = quote ∨ c = '\\' then ['\\', c]
  else if c = '\n' then ['\\', 'n']
  else if c = '\r' then ['\\', 'r']
  else if c = '\t' then ['\\', 't']
  else if isPrintable c then [c]
  else if c.toNat < 0x100 then '\\' :: 'x' :: hexPadded 2 c.toNat
  else if c.toNat < 0x10000 then '\\' :: 'u' :: hexPadded 4 c.toNat
  else '\\' :: 'U' :: hexPadded 8 c.toNat

def quoted (s : String) : String :=
  let cs := s.toList
  let quote := if cs.contains '\x27' ∧ ¬ cs.contains '\x22' then '\x22' else '\x27'
  String.ofList (quote :: cs.flatMap (quoteEscape quote) ++ [quote])

end LayerGate.Text
