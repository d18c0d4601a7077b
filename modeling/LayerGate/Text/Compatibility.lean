import LayerGate.Text.CompatibilityTable

/-!
# The compatibility form of identifiers

Unicode normalization form KC, for text that consists of identifier characters: decompose, put
combining marks in canonical order, compose again.  Hangul syllables follow their arithmetic.
-/

namespace LayerGate.Text.Compatibility

def syllableBase : Nat := 0xAC00
def leadBase : Nat := 0x1100
def vowelBase : Nat := 0x1161
def tailBase : Nat := 0x11A7
def leadCount : Nat := 19
def vowelCount : Nat := 21
def tailCount : Nat := 28
def syllableCount : Nat := leadCount * vowelCount * tailCount

/-- A syllable as its two or three jamo. -/
def syllableParts (s : Nat) : List Nat :=
  let lead := leadBase + s / (vowelCount * tailCount)
  let vowel := vowelBase + s % (vowelCount * tailCount) / tailCount
  let tail := s % tailCount
  if tail = 0 then [lead, vowel] else [lead, vowel, tailBase + tail]

def decompose (n : Nat) : List Nat :=
  if syllableBase ≤ n ∧ n < syllableBase + syllableCount then syllableParts (n - syllableBase)
  else decompositions[n]?.getD [n]

def combiningClass (n : Nat) : Nat := classes[n]?.getD 0

/-- Sorts each run of combining marks by class and keeps the order within a class; `run` holds the
marks that wait, in order. -/
def reorder (run : List Nat) : List Nat → List Nat
  | [] => run.mergeSort fun a b => combiningClass a ≤ combiningClass b
  | n :: ns =>
    if combiningClass n = 0 then
      (run.mergeSort fun a b => combiningClass a ≤ combiningClass b) ++ n :: reorder [] ns
    else reorder (run ++ [n]) ns

/-- The character that two others compose to. -/
def composePair? (a b : Nat) : Option Nat :=
  if leadBase ≤ a ∧ a < leadBase + leadCount ∧ vowelBase ≤ b ∧ b < vowelBase + vowelCount then
    some (syllableBase + ((a - leadBase) * vowelCount + (b - vowelBase)) * tailCount)
  else if syllableBase ≤ a ∧ a < syllableBase + syllableCount ∧ (a - syllableBase) % tailCount = 0 ∧
      tailBase < b ∧ b < tailBase + tailCount then
    some (a + (b - tailBase))
  else compositions[(a, b)]?

/-- Composes marks with the starter before them.  `marks` holds what stands between the starter and
the rest, backwards; the class of its last member blocks marks of the same class or a lower one. -/
def compose (starter : Nat) (marks : List Nat) : List Nat → List Nat
  | [] => starter :: marks.reverse
  | n :: ns =>
    let blocked := match marks with
      | [] => false
      | m :: _ => combiningClass m = 0 || combiningClass n ≤ combiningClass m
    match if blocked then none else composePair? starter n with
    | some c => compose c marks ns
    | none =>
      if combiningClass n = 0 then starter :: marks.reverse ++ compose n [] ns
      else compose starter (n :: marks) ns

/-- Marks in front of the first starter stay as they are. -/
def composeAll : List Nat → List Nat
  | [] => []
  | n :: ns => if combiningClass n = 0 then compose n [] ns else n :: composeAll ns

end Compatibility

/-- The compatibility form; ASCII text is its own. -/
def compatible (cs : List Char) : List Char :=
  if cs.all (·.toNat < 0x80) then cs
  else
    (Compatibility.composeAll
      (Compatibility.reorder [] (cs.flatMap fun c => Compatibility.decompose c.toNat))).map Char.ofNat

theorem compatible_ascii {cs : List Char} (h : ∀ c ∈ cs, c.toNat < 0x80) : compatible cs = cs :=
  if_pos (by simpa using h)

end LayerGate.Text
