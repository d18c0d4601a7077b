import LayerGate.Text.Utf8
import Mathlib

/-!
# Decoding undoes encoding

The decoder accepts the bytes that some text encodes to, and gives that text.  Between the two stand the
well-formed byte sequences: a step of the decoder reads one of them, and each character encodes to one.
-/

namespace LayerGate.Text.Utf8

/-- A byte behind the first of a character. -/
def IsTail (b : UInt8) : Prop := 0x80 ≤ b.toNat ∧ b.toNat ≤ 0xBF

/-- The well-formed byte sequences of one character, each with the number of the character. -/
inductive Sequence : List UInt8 → Nat → Prop
  | one {b : UInt8} : b.toNat < 0x80 → Sequence [b] b.toNat
  | two {b x : UInt8} : 0xC2 ≤ b.toNat → b.toNat ≤ 0xDF → IsTail x →
      Sequence [b, x] (b.toNat % 32 * 64 + x.toNat % 64)
  | three {b x y : UInt8} : 0xE0 ≤ b.toNat → b.toNat ≤ 0xEF → IsTail x → IsTail y →
      (b.toNat = 0xE0 → 0xA0 ≤ x.toNat) → (b.toNat = 0xED → x.toNat ≤ 0x9F) →
        Sequence [b, x, y] ((b.toNat % 16 * 64 + x.toNat % 64) * 64 + y.toNat % 64)
  | four {b x y z : UInt8} : 0xF0 ≤ b.toNat → b.toNat ≤ 0xF4 → IsTail x → IsTail y → IsTail z →
      (b.toNat = 0xF0 → 0x90 ≤ x.toNat) → (b.toNat = 0xF4 → x.toNat ≤ 0x8F) →
        Sequence [b, x, y, z]
          (((b.toNat % 8 * 64 + x.toNat % 64) * 64 + y.toNat % 64) * 64 + z.toNat % 64)

variable {b low high : UInt8} {bs s : List UInt8} {n k value taken more position : Nat} {c : Char}
  {text : List Char}

/-! ## Encoding -/

theorem sequence_utf8EncodeChar (c : Char) : Sequence (String.utf8EncodeChar c) c.toNat := by
  have hvalid : c.toNat < 0xD800 ∨ 0xDFFF < c.toNat ∧ c.toNat < 0x110000 := c.valid
  have byte (m : Nat) : (UInt8.ofNat m).toNat = m % 256 := UInt8.toNat_ofNat'
  unfold String.utf8EncodeChar
  simp only [show c.val.toNat = c.toNat from rfl]
  generalize c.toNat = n at hvalid
  split_ifs
  · have hone := Sequence.one (b := UInt8.ofNat n) (by rw [byte]; omega)
    rwa [byte, Nat.mod_eq_of_lt (by omega)] at hone
  · convert Sequence.two (b := UInt8.ofNat (n / 64 % 32 + 192)) (x := UInt8.ofNat (n % 64 + 128))
      _ _ _ using 1
    all_goals
      simp only [IsTail, byte]
      omega
  · convert Sequence.three (b := UInt8.ofNat (n / 4096 % 16 + 224))
      (x := UInt8.ofNat (n / 64 % 64 + 128)) (y := UInt8.ofNat (n % 64 + 128)) _ _ _ _ _ _ using 1
    all_goals
      simp only [IsTail, byte]
      omega
  · convert Sequence.four (b := UInt8.ofNat (n / 262144 % 8 + 240))
      (x := UInt8.ofNat (n / 4096 % 64 + 128)) (y := UInt8.ofNat (n / 64 % 64 + 128))
      (z := UInt8.ofNat (n % 64 + 128)) _ _ _ _ _ _ _ using 1
    all_goals
      simp only [IsTail, byte]
      omega

/-- Neither a surrogate nor a number beyond the last character has a sequence. -/
theorem Sequence.isValidChar (h : Sequence s n) : n.isValidChar := by
  unfold Nat.isValidChar
  cases h with
  | one => omega
  | two => omega
  | @three b x y hlow hhigh hx hy hfirst hlast =>
    unfold IsTail at hx hy
    omega
  | @four b x y z hlow hhigh hx hy hz hfirst hlast =>
    unfold IsTail at hx hy hz
    omega

theorem eq_ofNat_iff {m : Nat} : b = UInt8.ofNat m ↔ b.toNat = m % 256 := by
  rw [← UInt8.toNat_inj, UInt8.toNat_ofNat']

/-- A character has no other sequence than the one it encodes to. -/
theorem Sequence.eq_utf8EncodeChar (h : Sequence s c.toNat) : s = String.utf8EncodeChar c := by
  unfold String.utf8EncodeChar
  simp only [show c.val.toNat = c.toNat from rfl]
  generalize c.toNat = n at h
  cases h with
  | one hb =>
    rw [if_pos (by omega)]
    simp only [List.cons.injEq, eq_ofNat_iff, and_true]
    omega
  | two hlow hhigh hx =>
    unfold IsTail at hx
    rw [if_neg (by omega), if_pos (by omega)]
    simp only [List.cons.injEq, eq_ofNat_iff, and_true]
    omega
  | three hlow hhigh hx hy hfirst hlast =>
    unfold IsTail at hx hy
    rw [if_neg (by omega), if_neg (by omega), if_pos (by omega)]
    simp only [List.cons.injEq, eq_ofNat_iff, and_true]
    omega
  | four hlow hhigh hx hy hz hfirst hlast =>
    unfold IsTail at hx hy hz
    rw [if_neg (by omega), if_neg (by omega), if_neg (by omega)]
    simp only [List.cons.injEq, eq_ofNat_iff, and_true]
    omega

/-! ## Steps -/

theorem shape?_two (hlow : 0xC2 ≤ b.toNat) (hhigh : b.toNat ≤ 0xDF) :
    shape? b = some (1, 0x80, 0xBF) := by
  simp only [shape?, UInt8.lt_iff_toNat_lt, UInt8.reduceToNat]
  rw [if_neg (by omega), if_pos (by omega)]

theorem shape?_three (hlow : 0xE0 ≤ b.toNat) (hhigh : b.toNat ≤ 0xEF) : shape? b =
    some (2, if b.toNat = 0xE0 then 0xA0 else 0x80, if b.toNat = 0xED then 0x9F else 0xBF) := by
  simp only [shape?, UInt8.lt_iff_toNat_lt, ← UInt8.toNat_inj, UInt8.reduceToNat]
  split_ifs <;> first | rfl | omega

theorem shape?_four (hlow : 0xF0 ≤ b.toNat) (hhigh : b.toNat ≤ 0xF4) : shape? b =
    some (3, if b.toNat = 0xF0 then 0x90 else 0x80, if b.toNat = 0xF4 then 0x8F else 0xBF) := by
  simp only [shape?, UInt8.lt_iff_toNat_lt, ← UInt8.toNat_inj, UInt8.reduceToNat]
  split_ifs <;> first | rfl | omega

theorem shape?_eq_none (h : b.toNat < 0xC2 ∨ 0xF4 < b.toNat) : shape? b = none := by
  simp only [shape?, UInt8.lt_iff_toNat_lt, ← UInt8.toNat_inj, UInt8.reduceToNat]
  split_ifs <;> first | rfl | omega

theorem tail_zero : tail value taken low high 0 bs = .char (Char.ofNat value) (taken - 1) := by
  cases bs <;> rfl

theorem tail_succ_eq_char_iff : tail value taken low high (more + 1) bs = .char c k ↔
    ∃ x rest, bs = x :: rest ∧ (low.toNat ≤ x.toNat ∧ x.toNat ≤ high.toNat) ∧
      tail (value * 64 + x.toNat % 64) (taken + 1) 0x80 0xBF more rest = .char c k := by
  cases bs with
  | nil => exact iff_of_false (by simp [tail]) (by simp)
  | cons x rest =>
    rw [tail]
    simp only [UInt8.le_iff_toNat_le, List.cons.injEq]
    by_cases h : low.toNat ≤ x.toNat ∧ x.toNat ≤ high.toNat
    · rw [if_pos h]
      constructor
      · intro htail
        exact ⟨x, rest, ⟨rfl, rfl⟩, h, htail⟩
      · rintro ⟨x', rest', ⟨rfl, rfl⟩, -, htail⟩
        exact htail
    · rw [if_neg h]
      refine iff_of_false (by simp) ?_
      rintro ⟨x', rest', ⟨rfl, rfl⟩, hx, -⟩
      exact h hx

/-- What a step reads is a well-formed sequence. -/
theorem sequence_of_step (h : step b bs = .char c k) :
    ∃ behind rest n, bs = behind ++ rest ∧ k = behind.length ∧ Sequence (b :: behind) n ∧
      c = Char.ofNat n := by
  unfold step at h
  simp only [UInt8.lt_iff_toNat_lt, UInt8.reduceToNat] at h
  by_cases hone : b.toNat < 0x80
  · rw [if_pos hone] at h
    cases h
    exact ⟨[], bs, _, rfl, rfl, .one hone, rfl⟩
  rw [if_neg hone] at h
  by_cases hnone : b.toNat < 0xC2 ∨ 0xF4 < b.toNat
  · rw [shape?_eq_none hnone] at h
    cases h
  by_cases htwo : b.toNat ≤ 0xDF
  · rw [shape?_two (by omega) htwo] at h
    simp only [tail_succ_eq_char_iff, tail_zero] at h
    obtain ⟨x, rest, rfl, hx, h⟩ := h
    cases h
    exact ⟨[x], rest, _, rfl, rfl, .two (by omega) htwo hx, rfl⟩
  by_cases hthree : b.toNat ≤ 0xEF
  · rw [shape?_three (by omega) hthree] at h
    simp only [tail_succ_eq_char_iff, tail_zero, apply_ite UInt8.toNat, UInt8.reduceToNat] at h
    obtain ⟨x, _, rfl, hx, y, rest, rfl, hy, h⟩ := h
    cases h
    refine ⟨[x, y], rest, _, rfl, rfl, .three (by omega) hthree ?_ hy ?_ ?_, rfl⟩
    · unfold IsTail
      split_ifs at hx <;> omega
    · intro he
      rw [if_pos he] at hx
      exact hx.1
    · intro he
      rw [if_pos he] at hx
      exact hx.2
  · rw [shape?_four (by omega) (by omega)] at h
    simp only [tail_succ_eq_char_iff, tail_zero, apply_ite UInt8.toNat, UInt8.reduceToNat] at h
    obtain ⟨x, _, rfl, hx, y, _, rfl, hy, z, rest, rfl, hz, h⟩ := h
    cases h
    refine ⟨[x, y, z], rest, _, rfl, rfl, .four (by omega) (by omega) ?_ hy hz ?_ ?_, rfl⟩
    · unfold IsTail
      split_ifs at hx <;> omega
    · intro he
      rw [if_pos he] at hx
      exact hx.1
    · intro he
      rw [if_pos he] at hx
      exact hx.2

/-- A well-formed sequence is read by one step. -/
theorem step_of_sequence {behind rest : List UInt8} (h : Sequence (b :: behind) n) :
    step b (behind ++ rest) = .char (Char.ofNat n) behind.length := by
  unfold step
  simp only [UInt8.lt_iff_toNat_lt, UInt8.reduceToNat]
  cases h with
  | one hb =>
    rw [if_pos hb]
    rfl
  | two hlow hhigh hx =>
    rw [if_neg (by omega), shape?_two hlow hhigh]
    simp only [List.cons_append, List.nil_append, tail_succ_eq_char_iff, tail_zero]
    exact ⟨_, _, rfl, hx, rfl⟩
  | three hlow hhigh hx hy hfirst hlast =>
    rw [if_neg (by omega), shape?_three hlow hhigh]
    simp only [List.cons_append, List.nil_append, tail_succ_eq_char_iff, tail_zero,
      apply_ite UInt8.toNat, UInt8.reduceToNat]
    refine ⟨_, _, rfl, ?_, _, _, rfl, hy, rfl⟩
    unfold IsTail at hx
    split_ifs <;> omega
  | four hlow hhigh hx hy hz hfirst hlast =>
    rw [if_neg (by omega), shape?_four hlow hhigh]
    simp only [List.cons_append, List.nil_append, tail_succ_eq_char_iff, tail_zero,
      apply_ite UInt8.toNat, UInt8.reduceToNat]
    refine ⟨_, _, rfl, ?_, _, _, rfl, hy, _, _, rfl, hz, rfl⟩
    unfold IsTail at hx
    split_ifs <;> omega

/-- A step reads the encoding of a character from the front. -/
theorem step_eq_char_iff : step b bs = .char c k ↔
    ∃ behind rest, bs = behind ++ rest ∧ k = behind.length ∧ b :: behind = String.utf8EncodeChar c := by
  constructor
  · intro h
    obtain ⟨behind, rest, n, hbs, hk, hseq, rfl⟩ := sequence_of_step h
    have hn : (Char.ofNat n).toNat = n := by
      rw [Char.toNat_ofNat, if_pos hseq.isValidChar]
    rw [← hn] at hseq
    exact ⟨behind, rest, hbs, hk, hseq.eq_utf8EncodeChar⟩
  · rintro ⟨behind, rest, rfl, rfl, hchar⟩
    rw [step_of_sequence (hchar ▸ sequence_utf8EncodeChar c), Char.ofNat_toNat]

/-! ## Texts -/

/-- At the front of an encoded text stands the encoding of its first character. -/
theorem step_of_encoded (h : b :: bs = (c :: text).flatMap String.utf8EncodeChar) :
    ∃ behind, bs = behind ++ text.flatMap String.utf8EncodeChar ∧
      step b bs = .char c behind.length := by
  obtain ⟨first, behind, hfirst⟩ := List.exists_cons_of_ne_nil (String.utf8EncodeChar_ne_nil (c := c))
  rw [List.flatMap_cons, hfirst, List.cons_append, List.cons.injEq] at h
  obtain ⟨rfl, hbs⟩ := h
  exact ⟨behind, hbs, step_eq_char_iff.2 ⟨behind, _, hbs, rfl, hfirst.symm⟩⟩

theorem decodeFrom_eq_ok_iff :
    decodeFrom position bs = .ok text ↔ bs = text.flatMap String.utf8EncodeChar := by
  induction position, bs using decodeFrom.induct generalizing text with
  | case1 position =>
    rw [decodeFrom]
    cases text with
    | nil => exact iff_of_true rfl rfl
    | cons c text =>
      refine iff_of_false (by simp) fun h => ?_
      exact String.utf8EncodeChar_ne_nil (List.append_eq_nil_iff.1 h.symm).1
  | case2 position b bs reason length hstep =>
    rw [decodeFrom, hstep]
    refine iff_of_false (by simp) fun h => ?_
    cases text with
    | nil => cases h
    | cons c text =>
      obtain ⟨behind, -, hchar⟩ := step_of_encoded h
      cases hstep.symm.trans hchar
  | case3 position b bs c k hstep ih =>
    obtain ⟨behind, rest, rfl, rfl, hchar⟩ := step_eq_char_iff.1 hstep
    rw [List.drop_left] at ih
    rw [decodeFrom, hstep]
    simp only [List.drop_left]
    constructor
    · intro h
      cases hrest : decodeFrom (position + 1 + behind.length) rest with
      | error fault =>
        rw [hrest] at h
        cases h
      | ok others =>
        rw [hrest] at h
        cases h
        rw [List.flatMap_cons, ← hchar, List.cons_append, ← ih.1 hrest]
    · intro h
      cases text with
      | nil => cases h
      | cons d text =>
        obtain ⟨behind', hbehind, hd⟩ := step_of_encoded h
        obtain ⟨rfl, hlength⟩ := Step.char.inj (hstep.symm.trans hd)
        obtain ⟨rfl, hrest⟩ := List.append_inj hbehind hlength
        rw [ih.2 hrest]
        rfl

/-- The decoder gives the text that the content encodes. -/
theorem decode_eq_ok_iff {content : ByteArray} :
    decode content = .ok text ↔ content = text.utf8Encode := by
  rw [decode, decodeFrom_eq_ok_iff, List.utf8Encode]
  constructor
  · intro h
    rw [← h]
    apply ByteArray.ext
    rw [List.data_toByteArray]
  · rintro rfl
    rw [List.data_toByteArray]

theorem exists_decode_iff {content : ByteArray} :
    (∃ text, decode content = .ok text) ↔ content.IsValidUTF8 := by
  simp only [decode_eq_ok_iff]
  constructor
  · rintro ⟨text, h⟩
    exact ⟨text, h⟩
  · rintro ⟨text, h⟩
    exact ⟨text, h⟩

end LayerGate.Text.Utf8
