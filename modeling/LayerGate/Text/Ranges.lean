/-!
# Tables of code points

The data of a Unicode property is a list of numbers in hexadecimal, written as one text.
-/

namespace LayerGate.Text

def hexValue (c : Char) : Nat :=
  if c.isDigit then c.toNat - '0'.toNat else c.toNat - 'a'.toNat + 10

/-- The hexadecimal numbers in a text, each two separated by one blank or line feed. -/
def hexNumbers (s : String) : List Nat :=
  let step := fun (done, current) c =>
    if c = ' ' ∨ c = '\n' then (current :: done, 0) else (done, current * 16 + hexValue c)
  let (done, current) := s.toList.foldl step ([], 0)
  (current :: done).reverse

/-- Ranges of code points, both ends included, in increasing order and disjoint. -/
structure Ranges where
  bounds : Array (Nat × Nat)

namespace Ranges

/-- Each range is written as its distance from the end of the range before it and its length less
one. -/
def ofNumbers (last : Nat) : List Nat → List (Nat × Nat)
  | gap :: length :: rest =>
    (last + gap, last + gap + length) :: ofNumbers (last + gap + length) rest
  | _ => []

def ofText (s : String) : Ranges := ⟨(ofNumbers 0 (hexNumbers s)).toArray⟩

/-- Looks for `n` in the ranges from `lo` on and before `hi`. -/
def containsWithin (t : Ranges) (n lo hi : Nat) : Bool :=
  if _h : lo < hi then
    let mid := (lo + hi) / 2
    match t.bounds[mid]? with
    | none => false
    | some (first, last) =>
      if n < first then containsWithin t n lo mid
      else if last < n then containsWithin t n (mid + 1) hi
      else true
  else false
termination_by hi - lo
decreasing_by all_goals omega

def contains (t : Ranges) (n : Nat) : Bool := t.containsWithin n 0 t.bounds.size

end Ranges

/-- The letters and digits that need no table are ASCII. -/
theorem toNat_lt_of_isAlphanum {c : Char} (h : c.isAlphanum = true) : c.toNat < 0x80 := by
  change ((decide (c.val ≥ 'A'.val ∧ c.val ≤ 'Z'.val) || (c.val ≥ 'a'.val && c.val ≤ 'z'.val)) ||
    (c.val ≥ '0'.val && c.val ≤ '9'.val)) = true at h
  simp only [Bool.or_eq_true, Bool.and_eq_true, decide_eq_true_eq, ge_iff_le, UInt32.le_iff_toNat_le] at h
  have hval : c.toNat = c.val.toNat := rfl
  have hlast : 'z'.val.toNat = 122 ∧ 'Z'.val.toNat = 90 ∧ '9'.val.toNat = 57 := ⟨rfl, rfl, rfl⟩
  omega

end LayerGate.Text
