/-!
# Decimal digits of doubles

A finite double is a fraction; its leading decimal digits are found in exact arithmetic on natural
numbers.
-/

namespace LayerGate.Decimal

/-- A positive fraction. -/
structure Ratio where
  num : Nat
  den : Nat

/-- Digits without a zero at the end and the power of ten of the first one. -/
structure Scientific where
  digits : List Char
  exponent : Int

/-- `x · 10 ^ e` as a fraction. -/
def Ratio.scale (x : Ratio) (e : Int) : Ratio :=
  match e with
  | .ofNat e => ⟨x.num * Nat.pow 10 e, x.den⟩
  | .negSucc e => ⟨x.num, x.den * Nat.pow 10 (e + 1)⟩

/-- The power of ten of the first digit: the `e` with `10 ^ e ≤ x < 10 ^ (e + 1)`. -/
def Ratio.leadingExponent (x : Ratio) : Int :=
  if x.den ≤ x.num then ((Nat.toDigits 10 (x.num / x.den)).length : Int) - 1
  else
    let d := (Nat.toDigits 10 (x.den / x.num)).length
    if x.den ≤ x.num * Nat.pow 10 (d - 1) then -((d : Int) - 1) else -(d : Int)

/-- The nearest natural number; halfway cases go to the even one. -/
def Ratio.round (x : Ratio) : Nat :=
  let n := x.num / x.den
  let twice := 2 * (x.num % x.den)
  if twice < x.den then n
  else if x.den < twice then n + 1
  else n + n % 2

def Scientific.ofNat (n : Nat) (e : Int) : Scientific :=
  let all := Nat.toDigits 10 n
  let kept := (all.reverse.dropWhile (· = '0')).reverse
  ⟨if kept.isEmpty then ['0'] else kept, e + (all.length - 1 : Nat)⟩

/-- At most `count` digits, correctly rounded. -/
def Ratio.rounded (x : Ratio) (count : Nat) : Scientific :=
  let e := x.leadingExponent - (count - 1 : Nat)
  Scientific.ofNat (x.scale (-e)).round e

/-- A finite double `m · 2 ^ q`, its sign apart. -/
structure Binary where
  mantissa : Nat
  exponent : Int

def Binary.ofBits (bits : UInt64) : Binary :=
  let fraction : Nat := bits.toNat % Nat.pow 2 52
  let biased : Nat := bits.toNat / Nat.pow 2 52 % Nat.pow 2 11
  if biased = 0 then ⟨fraction, -1074⟩ else ⟨Nat.pow 2 52 + fraction, (biased : Int) - 1075⟩

/-- `(k · m + j) · 2 ^ q / k`: the double itself or a point near it. -/
def Binary.near (b : Binary) (k : Nat) (j : Int) : Ratio :=
  let m := (Int.ofNat (k * b.mantissa) + j).toNat
  match b.exponent with
  | .ofNat q => ⟨m * Nat.pow 2 q, k⟩
  | .negSucc q => ⟨m, k * Nat.pow 2 (q + 1)⟩

def Ratio.lt (x y : Ratio) : Bool := x.num * y.den < y.num * x.den

def Ratio.le (x y : Ratio) : Bool := x.num * y.den ≤ y.num * x.den

/-- Whether `x` reads back as the double: it lies between the midpoints to the two neighbouring
doubles, or on one if the mantissa is even.  Below a power of two the neighbour is twice as near. -/
def Binary.reads (b : Binary) (x : Ratio) : Bool :=
  let low := if b.mantissa = Nat.pow 2 52 ∧ b.exponent ≠ -1074 then b.near 4 (-1) else b.near 2 (-1)
  let high := b.near 2 1
  if b.mantissa % 2 = 0 then low.le x && x.le high else low.lt x && x.lt high

/-- Of the two points of the grid of step `10 ^ e` around the double, the nearer one that reads
back. -/
def Binary.onGrid? (b : Binary) (e : Int) : Option Nat :=
  let x := (b.near 1 0).scale (-e)
  let below := x.num / x.den
  let ok := fun n => b.reads (Ratio.scale ⟨n, 1⟩ e)
  match ok below, ok (below + 1) with
  | true, true => some x.round
  | true, false => some below
  | false, true => some (below + 1)
  | false, false => none

/-- The fewest digits that read back, starting with `count`; 17 always do. -/
def Binary.shortestFrom (b : Binary) : Nat → Nat → Scientific
  | 0, count => (b.near 1 0).rounded count
  | fuel + 1, count =>
    let e := (b.near 1 0).leadingExponent - (count - 1 : Nat)
    match b.onGrid? e with
    | some n => Scientific.ofNat n e
    | none => shortestFrom b fuel (count + 1)

def Binary.shortest (b : Binary) : Scientific := b.shortestFrom 16 1

end LayerGate.Decimal
