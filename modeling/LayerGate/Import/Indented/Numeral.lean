/-!
# Numerals of Python sources

How far a numeral reaches.  Single underscores may stand between digits.
-/

namespace LayerGate.Import.Indented.Numeral

/-- The length of a run of digits and single underscores between them; `none` if an underscore has
no digit after it. -/
def digitRun (isDigit : Char → Bool) : List Char → Option Nat
  | [] => some 0
  | '_' :: c :: cs => if isDigit c then (digitRun isDigit (c :: cs)).map (· + 1) else none
  | c :: cs =>
    if isDigit c then (digitRun isDigit cs).map (· + 1) else if c = '_' then none else some 0

/-- The words that may follow a numeral without a blank. -/
def followers : List (List Char) :=
  ["and", "else", "for", "if", "in", "is", "not", "or"].map String.toList

def isWordChar (c : Char) : Bool := c.isAlphanum || c = '_' || 0x80 ≤ c.toNat

/-- Whether a numeral may end in front of `cs`. -/
def mayEnd (cs : List Char) : Bool :=
  followers.any (·.isPrefixOf cs) || !cs.head?.any isWordChar

structure Extent where
  length : Nat
  isImaginary : Bool

/-- A numeral that ends after `length` characters, unless `j` makes it imaginary. -/
def finish (length : Nat) : List Char → Option Extent
  | 'j' :: cs => if mayEnd cs then some ⟨length + 1, true⟩ else none
  | 'J' :: cs => if mayEnd cs then some ⟨length + 1, true⟩ else none
  | cs => if mayEnd cs then some ⟨length, false⟩ else none

def isExponentMark (c : Char) : Bool := c = 'e' || c = 'E'

/-- The exponent part, if any; `cs` starts after `length` characters of the numeral. -/
def exponent (length : Nat) (cs : List Char) : Option Extent :=
  match cs with
  | c :: d :: rest =>
    if isExponentMark c then
      if d = '+' ∨ d = '-' then
        if rest.head?.any Char.isDigit then do
          let n ← digitRun Char.isDigit rest
          finish (length + 2 + n) (rest.drop n)
        else none
      else if d.isDigit then do
        let n ← digitRun Char.isDigit (d :: rest)
        finish (length + 1 + n) ((d :: rest).drop n)
      else if mayEnd cs then some ⟨length, false⟩ else none
    else finish length cs
  | cs => finish length cs

/-- The fraction, which follows a point, and what may come after it. -/
def fraction (length : Nat) (cs : List Char) : Option Extent := do
  let n ← if cs.head?.any Char.isDigit then digitRun Char.isDigit cs else some 0
  exponent (length + n) (cs.drop n)

/-- Digits after a radix mark. -/
def radix (isDigit : Char → Bool) (cs : List Char) : Option Extent := do
  let skipped := if cs.head? = some '_' then 1 else 0
  let digits := cs.drop skipped
  guard (digits.head?.any isDigit)
  let n ← digitRun isDigit digits
  guard (mayEnd (digits.drop n))
  return ⟨2 + skipped + n, false⟩

def isHexDigit (c : Char) : Bool :=
  c.isDigit || ('a' ≤ c && c ≤ 'f') || ('A' ≤ c && c ≤ 'F')

/-- The most digits of a decimal integer. -/
def maxDigits : Nat := 4300

/-- A numeral that starts with a decimal digit.  An integer that starts with a zero is zero. -/
def decimal (cs : List Char) : Option Extent := do
  let n ← digitRun Char.isDigit cs
  match cs.drop n with
  | '.' :: rest => fraction (n + 1) rest
  | rest =>
    let e ← exponent n rest
    let digits := (cs.take n).filter Char.isDigit
    if e.length = n then
      guard (¬ (cs.head? = some '0' ∧ digits.any (· ≠ '0')) ∧ digits.length ≤ maxDigits)
    return e

/-- The extent of the numeral at the front, which starts with a digit or with a point and a digit. -/
def extent? (cs : List Char) : Option Extent :=
  match cs with
  | '.' :: rest => fraction 1 rest
  | '0' :: c :: rest =>
    if c = 'x' ∨ c = 'X' then radix isHexDigit rest
    else if c = 'o' ∨ c = 'O' then radix (fun d => '0' ≤ d && d ≤ '7') rest
    else if c = 'b' ∨ c = 'B' then radix (fun d => d = '0' || d = '1') rest
    else decimal cs
  | cs => decimal cs

end LayerGate.Import.Indented.Numeral
