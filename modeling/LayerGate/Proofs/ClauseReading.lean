import Mathlib
import LayerGate.Import.Web.Clause
import LayerGate.Proofs.CommentBlanking

/-!
# Reading one import

What the reader of an import takes: a keyword, what may stand behind it, and a specifier between two
quotes.  Where no keyword starts it passes on.
-/

namespace LayerGate.Import.Web

open Text (isBlank isWord)

variable {c opening closing : Char} {cs body gap keyword rest : List Char} {n : Nat} {line : Int}
  {inWord : Bool}

/-! ## Quotes -/

theorem isQuote_of_isStringQuote (h : isStringQuote c = true) : isQuote c = true := by
  unfold isStringQuote at h
  unfold isQuote
  rw [h, Bool.true_or]

theorem isStringQuote_iff : isStringQuote c = true ↔ c = '\x27' ∨ c = '\x22' := by
  simp [isStringQuote]

theorem isBlank_of_isStringQuote (h : isStringQuote c = true) : isBlank c = false := by
  rcases isStringQuote_iff.1 h with rfl | rfl <;> decide

/-- A quote ends what may stand between a keyword and its specifier. -/
theorem not_gap_of_isStringQuote (h : isStringQuote c = true) : (isClauseChar c || c = '(') = false := by
  rcases isStringQuote_iff.1 h with rfl | rfl <;> decide

/-! ## Specifiers -/

/-- What may stand between the quotes of a specifier. -/
structure IsSpecifier (body : List Char) : Prop where
  nonempty : body ≠ []
  plain : ∀ c ∈ body, isStringQuote c = false ∧ c ≠ '\n'

theorem takeWhile_specifier (h : IsSpecifier body) (hclosing : isStringQuote closing = true) :
    (body ++ closing :: rest).takeWhile (fun c => !isStringQuote c && c ≠ '\n') = body := by
  rw [List.takeWhile_append_of_pos fun c hc => by simpa using h.plain c hc]
  simp [hclosing]

/-- What stands right behind the characters taken from the front. -/
theorem getElem?_takeWhile_length (p : Char → Bool) (cs : List Char) :
    cs[(cs.takeWhile p).length]? = (cs.dropWhile p).head? := by
  induction cs with
  | nil => rfl
  | cons c cs ih => by_cases h : p c = true <;> simp [h, ih]

/-- A specifier ends at the first quote of either kind, whichever opened it. -/
theorem specifier?_eq_some_iff : specifier? cs = some (body, n) ↔
    ∃ opening closing rest, cs = opening :: (body ++ closing :: rest) ∧
      isStringQuote opening = true ∧ isStringQuote closing = true ∧ IsSpecifier body ∧
        n = body.length + 2 := by
  constructor
  · intro h
    cases cs with
    | nil => cases h
    | cons opening cs =>
      rw [specifier?] at h
      split at h
      · rename_i hfits
        obtain ⟨hopening, hne, hclosing⟩ := hfits
        obtain ⟨rfl, rfl⟩ := Prod.mk.inj (Option.some.inj h)
        rw [getElem?_takeWhile_length, Option.any_eq_true] at hclosing
        obtain ⟨closing, hhead, hclosing⟩ := hclosing
        obtain ⟨rest, hrest⟩ := List.head?_eq_some_iff.1 hhead
        refine ⟨opening, closing, rest, ?_, hopening, hclosing, ⟨by simpa using hne, fun c hc => ?_⟩, rfl⟩
        · rw [← hrest, List.takeWhile_append_dropWhile]
        · simpa using List.mem_takeWhile_imp hc
      · cases h
  · rintro ⟨opening, closing, rest, rfl, hopening, hclosing, hbody, rfl⟩
    have htake : (body ++ closing :: rest).takeWhile (fun c => !isStringQuote c && c ≠ '\n') = body :=
      takeWhile_specifier hbody hclosing
    rw [specifier?]
    simp only [htake]
    rw [if_pos ⟨hopening, by simpa using hbody.nonempty, by simp [hclosing]⟩]

/-! ## Clauses -/

/-- An import is read up to its specifier, and then the specifier. -/
theorem clause?_eq_some (h : clause? cs = some (body, n)) :
    ∃ before rest m, cs = before ++ rest ∧ specifier? rest = some (body, m) ∧
      n = before.length + m := by
  unfold clause? at h
  simp only [Option.bind_eq_bind, Option.bind_eq_some_iff] at h
  obtain ⟨⟨keyword, fits⟩, hkeyword, -, -, ⟨found, m⟩, hspecifier, h⟩ := h
  obtain ⟨rfl, rfl⟩ := Prod.mk.inj (Option.some.inj h)
  have hprefix := List.find?_some hkeyword
  obtain ⟨rest, rfl⟩ := List.isPrefixOf_iff_prefix.1 hprefix
  rw [List.drop_left] at hspecifier ⊢
  have hgap := List.prefix_iff_eq_append.1
    (List.takeWhile_prefix (fun c => isClauseChar c || c = '(') (l := rest))
  refine ⟨keyword ++ rest.takeWhile fun c => isClauseChar c || c = '(', _, m, ?_, hspecifier, ?_⟩
  · rw [List.append_assoc, hgap]
  · rw [List.length_append]

/-- A keyword, what may stand behind it, and a specifier are an import. -/
theorem clause?_of_gap {fits : List Char → Bool}
    (hkeyword : keywords.find? (fun k => k.1.isPrefixOf (keyword ++ (gap ++ cs))) = some (keyword, fits))
    (hgap : ∀ c ∈ gap, (isClauseChar c || c = '(') = true) (hfits : fits gap = true)
    (hspecifier : specifier? cs = some (body, n)) :
    clause? (keyword ++ (gap ++ cs)) = some (body, keyword.length + gap.length + n) := by
  obtain ⟨opening, closing, rest, hcs, hopening, -⟩ := specifier?_eq_some_iff.1 hspecifier
  have htake : (gap ++ cs).takeWhile (fun c => isClauseChar c || c = '(') = gap := by
    rw [List.takeWhile_append_of_pos hgap, hcs]
    simp [not_gap_of_isStringQuote hopening]
  unfold clause?
  simp only [hkeyword, Option.bind_eq_bind, Option.bind_some, List.drop_left, htake, hfits,
    guard_true, hspecifier]
  rfl

theorem length_pos_of_clause? (h : clause? cs = some (body, n)) : 0 < n := by
  obtain ⟨before, rest, m, -, hspecifier, rfl⟩ := clause?_eq_some h
  obtain ⟨-, -, -, -, -, -, -, rfl⟩ := specifier?_eq_some_iff.1 hspecifier
  omega

/-! ## Going through a text -/

/-- No keyword starts with the character. -/
def IsQuiet (c : Char) : Prop := c ≠ 'i' ∧ c ≠ 'e' ∧ c ≠ 'r'

theorem clause?_of_isQuiet (h : IsQuiet c) : clause? (c :: cs) = none := by
  obtain ⟨hi, he, hr⟩ := h
  have hnone : keywords.find? (fun k => k.1.isPrefixOf (c :: cs)) = none := by
    rw [List.find?_eq_none]
    intro k hk
    simp only [keywords, List.mem_cons, List.not_mem_nil, or_false] at hk
    rcases hk with rfl | rfl | rfl <;> simp [hi.symm, he.symm, hr.symm]
  unfold clause?
  rw [hnone]
  rfl

/-- Where no keyword starts, the reader passes on. -/
theorem importsFrom_cons_of_isQuiet (h : IsQuiet c) : importsFrom line inWord (c :: cs) =
    importsFrom (if c = '\n' then line + 1 else line) (isWord c) cs := by
  rw [importsFrom, clause?_of_isQuiet h, ite_self]

theorem countLines_cons (c : Char) (cs : List Char) :
    countLines (c :: cs) = (if c = '\n' then 1 else 0) + countLines cs := by
  unfold countLines
  by_cases h : c = '\n' <;> simp [h, Int.add_comm]

theorem countLines_append (cs ds : List Char) :
    countLines (cs ++ ds) = countLines cs + countLines ds := by
  simp [countLines]

/-- The line ends here. -/
def EndsLine (cs : List Char) : Prop := cs = [] ∨ cs.head? = some '\n'

/-- A keyword may start behind a line end, whatever stood before it. -/
theorem importsFrom_of_endsLine (h : EndsLine cs) :
    importsFrom line inWord cs = importsFrom line false cs := by
  rcases h with rfl | h
  · simp [importsFrom]
  · obtain ⟨rest, rfl⟩ := List.head?_eq_some_iff.1 h
    have hquiet : IsQuiet '\n' := ⟨by decide, by decide, by decide⟩
    rw [importsFrom_cons_of_isQuiet hquiet, importsFrom_cons_of_isQuiet hquiet]

/-- Up to the end of its line, text in which no keyword starts is passed over. -/
theorem importsFrom_quiet_line (hquiet : ∀ c ∈ cs, IsQuiet c) (hends : EndsLine rest) :
    importsFrom line inWord (cs ++ rest) = importsFrom (line + countLines cs) false rest := by
  induction cs generalizing line inWord with
  | nil =>
    rw [List.nil_append, importsFrom_of_endsLine hends]
    simp [countLines]
  | cons c cs ih =>
    rw [List.cons_append, importsFrom_cons_of_isQuiet (hquiet c (List.mem_cons_self ..)),
      ih fun c hc => hquiet c (List.mem_cons_of_mem _ hc), countLines_cons]
    congr 1
    split <;> omega

/-- An import is found, and the reader goes on behind it. -/
theorem importsFrom_of_clause? (h : clause? cs = some (body, n)) (hname : Text.trim isBlank body ≠ []) :
    importsFrom line false cs = ⟨line, String.ofList (Text.trim isBlank body), [], 0, .javascript⟩ ::
      importsFrom (line + countLines (cs.take n)) false (cs.drop n) := by
  obtain ⟨m, rfl⟩ := Nat.exists_eq_succ_of_ne_zero (length_pos_of_clause? h).ne'
  cases cs with
  | nil => cases h
  | cons c cs =>
    rw [importsFrom]
    simp only [h, Bool.false_eq_true, if_false]
    rw [if_neg (by simpa using hname)]
    rfl

end LayerGate.Import.Web
