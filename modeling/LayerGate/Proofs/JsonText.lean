import Mathlib.Tactic.IntervalCases
import LayerGate.Value.Json.Printer
import LayerGate.Value.Json.Reader

/-!
# Strings and integers in JSON

What is written for a string or an integer reads back as it, whatever follows the string, and as long
as nothing follows the integer that could belong to a number.
-/

namespace LayerGate.Value.Json

/-! ## Strings -/

theorem hexDigit?_hexChar {n : Nat} (h : n < 16) : hexDigit? (hexChar n) = some n := by
  revert h n
  decide

/-- The escape of a control character denotes its number. -/
theorem unit?_control {n : Nat} (h : n < 0x20) :
    unit? '0' '0' (hexChar (n / 16)) (hexChar (n % 16)) = some n := by
  have hzero : hexDigit? '0' = some 0 := by decide
  have hhigh : hexDigit? (hexChar (n / 16)) = some (n / 16) := hexDigit?_hexChar (by omega)
  have hlow : hexDigit? (hexChar (n % 16)) = some (n % 16) := hexDigit?_hexChar (by omega)
  rw [unit?, hzero, hhigh, hlow]
  show some (((0 * 16 + 0) * 16 + n / 16) * 16 + n % 16) = some n
  congr 1
  omega

theorem textBody_shortEscape {e c : Char} (hu : e ≠ 'u') (h : shortEscape? e = some c)
    (done rest : List Char) :
    textBody none done ('\\' :: e :: rest) = textBody none (c :: done) rest := by
  rw [textBody.eq_def]
  simp [hu, h, guard]

theorem textBody_control {c : Char} (h : c.toNat < 0x20) (done rest : List Char) :
    textBody none done ('\\' :: 'u' :: '0' :: '0' :: hexChar (c.toNat / 16) ::
      hexChar (c.toNat % 16) :: rest) = textBody none (c :: done) rest := by
  -- The number of a control character is no surrogate.
  have hhigh : isHighSurrogate c.toNat = false := by
    simp [isHighSurrogate]
    omega
  have hlow : isLowSurrogate c.toNat = false := by
    simp [isLowSurrogate]
    omega
  rw [textBody, unit?_control h]
  simp [hhigh, hlow, joinUnits?, Char.ofNat_toNat]

theorem textBody_plain {c : Char} (hquote : c ≠ '\x22') (hback : c ≠ '\\') (h : 0x20 ≤ c.toNat)
    (done rest : List Char) : textBody none done (c :: rest) = textBody none (c :: done) rest := by
  rw [textBody.eq_def]
  simp [hquote, hback, h, guard]

/-- Reading what is written for a character gives the character. -/
theorem textBody_escape (c : Char) (done rest : List Char) :
    textBody none done (escape c ++ rest) = textBody none (c :: done) rest := by
  unfold escape
  split
  case h_8 c hquote hback _ _ _ _ _ =>
    split
    case isTrue h => exact textBody_control h done rest
    case isFalse h => exact textBody_plain hquote hback (by omega) done rest
  -- All others have an escape of one letter.
  all_goals exact textBody_shortEscape (by decide) (by decide) done rest

theorem textBody_flatMap_escape (cs done rest : List Char) :
    textBody none done (cs.flatMap escape ++ '\x22' :: rest) =
      some (done.reverse ++ cs, rest) := by
  induction cs generalizing done with
  | nil =>
    rw [List.flatMap_nil, List.nil_append, textBody.eq_def]
    simp [guard]
  | cons c cs ih =>
    rw [List.flatMap_cons, List.append_assoc, textBody_escape, ih]
    simp

/-- What is written for a string, behind its opening quote, reads back as the string. -/
theorem text?_quote (s : String) (rest : List Char) :
    text? (s.toList.flatMap escape ++ '\x22' :: rest) = some (s, rest) := by
  rw [text?, textBody_flatMap_escape]
  simp

/-! ## Integers -/

/-- No digit, point or exponent stands at the front: a number ends here. -/
def EndsNumber (cs : List Char) : Prop :=
  ∀ c rest, cs = c :: rest → c.isDigit = false ∧ c ≠ '.' ∧ c ≠ 'e' ∧ c ≠ 'E'

theorem EndsNumber.cons {c : Char} (h : c.isDigit = false) (hpoint : c ≠ '.') (he : c ≠ 'e')
    (hE : c ≠ 'E') (rest : List Char) : EndsNumber (c :: rest) := by
  rintro d more heq
  obtain ⟨rfl, -⟩ := List.cons.inj heq
  exact ⟨h, hpoint, he, hE⟩

theorem EndsNumber.head_not_digit {rest : List Char} (h : EndsNumber rest) :
    rest.takeWhile Char.isDigit = [] ∧ rest.dropWhile Char.isDigit = rest := by
  cases rest with
  | nil => exact ⟨rfl, rfl⟩
  | cons c rest =>
    have hc : c.isDigit = false := (h c rest rfl).1
    simp [hc]

theorem fraction?_of_ends {rest : List Char} (h : EndsNumber rest) :
    fraction? rest = some (none, rest) := by
  unfold fraction?
  split
  · exact absurd rfl (h _ _ rfl).2.1
  · rfl

theorem exponent?_of_ends {rest : List Char} (h : EndsNumber rest) :
    exponent? rest = some (none, rest) := by
  cases rest with
  | nil => rfl
  | cons c rest =>
    obtain ⟨-, -, he, hE⟩ := h c rest rfl
    simp [exponent?, he, hE]

theorem digits?_toDigits (n : Nat) {rest : List Char} (hrest : EndsNumber rest) :
    digits? (Nat.toDigits 10 n ++ rest) = some (Nat.toDigits 10 n, rest) := by
  have hdigit : ∀ c ∈ Nat.toDigits 10 n, c.isDigit = true := fun c hc =>
    Nat.isDigit_of_mem_toDigits (by decide) (by decide) hc
  obtain ⟨htake, hdrop⟩ := hrest.head_not_digit
  rw [digits?, List.takeWhile_append_of_pos hdigit, List.dropWhile_append_of_pos hdigit, htake,
    hdrop, List.append_nil]
  simp [Nat.toDigits_ne_nil]

/-- A positive number does not start with a zero. -/
theorem toDigits_head_ne_zero {n : Nat} (h : 0 < n) (rest : List Char) :
    Nat.toDigits 10 n ≠ '0' :: rest := by
  -- By the number without its last digit.
  induction n using Nat.strong_induction_on generalizing rest with
  | h n ih =>
    rw [Nat.toDigits_eq_if (by decide)]
    split
    · rename_i hlt
      intro heq
      have hchar : n.digitChar = '0' := (List.cons.inj heq).1
      interval_cases n <;> revert hchar <;> decide
    · intro heq
      cases hinit : Nat.toDigits 10 (n / 10) with
      | nil => exact Nat.toDigits_ne_nil hinit
      | cons c cs =>
        rw [hinit] at heq
        obtain ⟨rfl, -⟩ := List.cons.inj heq
        exact ih (n / 10) (by omega) (by omega) cs hinit

theorem ofDigits_toDigits (n : Nat) : Decimal.ofDigits (Nat.toDigits 10 n) = n :=
  Nat.ofDigitChars_toDigits (by decide) (by decide)

theorem unsigned?_toDigits (n : Nat) {rest : List Char} (hrest : EndsNumber rest) :
    unsigned? (Nat.toDigits 10 n ++ rest) = some (.inl n, rest) := by
  by_cases hn : n = 0
  · rw [hn]
    show unsigned? ('0' :: rest) = _
    simp [unsigned?, fraction?_of_ends hrest, exponent?_of_ends hrest]
    rfl
  · unfold unsigned?
    split
    · rename_i cs heq
      -- The first digit would be a zero.
      cases hdigits : Nat.toDigits 10 n with
      | nil => exact absurd hdigits Nat.toDigits_ne_nil
      | cons c more =>
        rw [hdigits] at heq
        obtain ⟨rfl, -⟩ := List.cons.inj heq
        exact absurd hdigits (toDigits_head_ne_zero (by omega) more)
    · simp [digits?_toDigits n hrest, fraction?_of_ends hrest, exponent?_of_ends hrest,
        ofDigits_toDigits]

/-- What is written for an integer reads back as the integer. -/
theorem number?_integer (n : Int) {rest : List Char} (hrest : EndsNumber rest) :
    number? (integer n ++ rest) = some (.int n, rest) := by
  cases n with
  | ofNat n =>
    have hread := unsigned?_toDigits n hrest
    show number? (Nat.toDigits 10 n ++ rest) = _
    unfold number?
    split
    · rename_i cs heq
      -- No digit is a minus.
      rw [heq] at hread
      simp [unsigned?, digits?] at hread
    · rw [hread]
      rfl
  | negSucc n =>
    show number? ('-' :: (Nat.toDigits 10 (n + 1) ++ rest)) = _
    rw [number?, unsigned?_toDigits _ hrest]
    rfl

end LayerGate.Value.Json
