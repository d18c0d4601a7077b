import LayerGate.Text.Split
import LayerGate.Proofs.ClauseReading

/-!
# Programs of import statements

Statements that import, each on a line of its own, with comments and blank lines among them: the
imports of such a text are those of its statements, in order.  Blanking takes the comments and leaves
the statements, for what looks like a comment in a specifier stands in a literal.  The reader then goes
line by line.
-/

namespace LayerGate.Import.Web

open Text (isBlank isWord)

variable {cs rest body : List Char} {c quote : Char} {line : Int}

/-! ## What a program is made of -/

/-- A specifier between two equal quotes, not blank. -/
structure Specifier where
  quote : Char
  name : List Char
  isStringQuote : isStringQuote quote = true
  plain : ∀ c ∈ name, Web.isStringQuote c = false ∧ c ≠ '\\' ∧ c ≠ '\n'
  named : Text.trim isBlank name ≠ []

def Specifier.text (s : Specifier) : List Char := s.quote :: (s.name ++ [s.quote])

/-- What may stand in a clause. -/
def isBindingChar (c : Char) : Bool := c.isAlphanum || c ∈ "_$*,\x7b\x7d \n".toList

/-- The names that an import binds. -/
structure Bindings where
  text : List Char
  plain : ∀ c ∈ text, isBindingChar c = true

inductive Statement where
  | effect (from_ : Specifier)
  | binding (names : Bindings) (from_ : Specifier)
  | reexport (names : Bindings) (from_ : Specifier)
  | require (from_ : Specifier)
  | dynamic (from_ : Specifier)

namespace Statement

def specifier : Statement → Specifier
  | effect s | binding _ s | reexport _ s | require s | dynamic s => s

def keyword : Statement → String
  | effect _ | binding .. | dynamic _ => "import"
  | reexport .. => "export"
  | require _ => "require"

/-- Between the keyword and the specifier. -/
def gap : Statement → List Char
  | effect _ => [' ']
  | binding names _ | reexport names _ => ' ' :: (names.text ++ " from ".toList)
  | require _ | dynamic _ => ['(']

/-- Behind the specifier. -/
def ending : Statement → List Char
  | effect _ | binding .. | reexport .. => [';']
  | require _ | dynamic _ => [')', ';']

/-- Up to the end of the specifier. -/
def head (s : Statement) : List Char := s.keyword.toList ++ (s.gap ++ s.specifier.text)

def text (s : Statement) : List Char := s.head ++ s.ending

/-- What a statement that starts on `line` imports. -/
def ref (line : Int) (s : Statement) : Ref :=
  ⟨line, String.ofList (Text.trim isBlank s.specifier.name), [], 0, .javascript⟩

end Statement

/-- In front of a statement or of a comment. -/
structure Indent where
  text : List Char
  plain : ∀ c ∈ text, c = ' ' ∨ c = '\t'

/-- A line of a program; a comment block and a clause may run over several. -/
inductive Line where
  | empty (text : List Char) (h : ∀ c ∈ text, isBlank c = true ∧ c ≠ '\n')
  | comment (indent : Indent) (text : List Char) (h : '\n' ∉ text)
  | block (indent : Indent) (text : List Char) (h : ¬ ['*', '/'] <:+: text)
  | statement (indent : Indent) (s : Statement)

namespace Line

def text : Line → List Char
  | empty text _ => text
  | comment indent text _ => indent.text ++ ('/' :: '/' :: text)
  | block indent text _ => indent.text ++ ('/' :: '*' :: (text ++ ['*', '/']))
  | statement indent s => indent.text ++ s.text

/-- What a line that starts on `line` imports. -/
def refs (line : Int) : Line → List Ref
  | empty .. | comment .. | block .. => []
  | statement _ s => [s.ref line]

end Line

def programText (ls : List Line) : String := String.ofList (Text.joined '\n' (ls.map Line.text))

/-- What the lines import, from `line` on. -/
def programRefs (line : Int) : List Line → List Ref
  | [] => []
  | l :: ls => l.refs line ++ programRefs (line + countLines l.text + 1) ls

/-! ## Blanking -/

/-- Text without slashes and quotes is left as it is. -/
theorem blankFrom_code_append (h : ∀ c ∈ cs, c ≠ '/' ∧ isQuote c = false) :
    blankFrom .code (cs ++ rest) = cs ++ blankFrom .code rest := by
  induction cs with
  | nil => rfl
  | cons c cs ih =>
    obtain ⟨hslash, hquote⟩ := h c (List.mem_cons_self ..)
    have hcomment : ¬ OpensComment (c :: (cs ++ rest)) := fun hopens =>
      hslash (opensComment_cons_iff.1 hopens).1
    rw [List.cons_append, blankFrom_code hcomment, if_neg (by simp [hquote]),
      ih fun d hd => h d (List.mem_cons_of_mem _ hd), List.cons_append]

theorem blankFrom_lineComment (h : '\n' ∉ body) (hends : EndsLine rest) :
    blankFrom .lineComment (body ++ rest) = body.map blank ++ blankFrom .code rest := by
  induction body with
  | nil =>
    rcases hends with rfl | hfeed
    · rfl
    · obtain ⟨rest, rfl⟩ := List.head?_eq_some_iff.1 hfeed
      rfl
  | cons c body ih =>
    rw [List.mem_cons, not_or] at h
    rw [List.cons_append, blankFrom, if_neg (Ne.symm h.1), ih h.2]
    rfl

theorem blankFrom_blockComment (h : ¬ ['*', '/'] <:+: body) :
    blankFrom .blockComment (body ++ '*' :: '/' :: rest) =
      body.map blank ++ ' ' :: ' ' :: blankFrom .code rest := by
  induction body with
  | nil => rfl
  | cons c body ih =>
    have hgoes : ∀ tail, c = '*' → body ++ '*' :: '/' :: rest ≠ '/' :: tail := by
      rintro tail rfl heq
      cases body with
      | nil => cases heq
      | cons d body =>
        obtain rfl : d = '/' := (List.cons.inj heq).1
        exact h (List.prefix_append ['*', '/'] body).isInfix
    have htail : ¬ ['*', '/'] <:+: body := fun hin => h (hin.trans (List.suffix_cons c body).isInfix)
    rw [List.cons_append, blankFrom, ih htail]
    · rfl
    · exact hgoes

theorem isBody_of_plain (h : ∀ c ∈ body, c ≠ quote ∧ c ≠ '\\' ∧ c ≠ '\n') : IsBody quote body := by
  induction body with
  | nil => exact .nil
  | cons c body ih =>
    obtain ⟨hquote, hbackslash, hfeed⟩ := h c (List.mem_cons_self ..)
    exact .plain hbackslash hquote (fun heq => absurd heq hfeed)
      (ih fun d hd => h d (List.mem_cons_of_mem _ hd))

/-- A literal outside of comments is kept. -/
theorem blankFrom_code_literal (hquote : isQuote quote = true) (h : IsBody quote body) :
    blankFrom .code (quote :: (body ++ quote :: rest)) =
      quote :: (body ++ quote :: blankFrom .code rest) := by
  have hclosed : isClosed quote (body ++ quote :: rest) = true := isClosed_of_isBody hquote h
  rw [blankFrom_code (not_opensComment_of_isQuote hquote), if_pos ⟨hquote, hclosed⟩,
    blankFrom_literal hquote h]

theorem Specifier.ne_quote (s : Specifier) (h : c ∈ s.name) : c ≠ s.quote := by
  rintro rfl
  have hplain := (s.plain _ h).1
  rw [s.isStringQuote] at hplain
  cases hplain

theorem Specifier.blankFrom_text (s : Specifier) :
    blankFrom .code (s.text ++ rest) = s.text ++ blankFrom .code rest := by
  have hbody : IsBody s.quote s.name := isBody_of_plain fun c hc => ⟨s.ne_quote hc, (s.plain c hc).2⟩
  simp only [Specifier.text, List.cons_append, List.append_assoc, List.nil_append]
  exact blankFrom_code_literal (isQuote_of_isStringQuote s.isStringQuote) hbody

/-- A class without the slash and the quotes. -/
theorem ne_slash_of_class {p : Char → Bool} (hp : ∀ d ∈ "/\x27\x22\x60".toList, p d = false)
    (h : p c = true) : c ≠ '/' ∧ isQuote c = false := by
  have hout : ∀ d ∈ "/\x27\x22\x60".toList, c ≠ d := by
    rintro d hd rfl
    rw [hp c hd] at h
    cases h
  refine ⟨hout '/' (by decide), ?_⟩
  simp [isQuote, hout '\x27' (by decide), hout '\x22' (by decide), hout '\x60' (by decide)]

theorem Statement.blankFrom_head (s : Statement) :
    blankFrom .code (s.head ++ rest) = s.head ++ blankFrom .code rest := by
  have hkeyword : ∀ c ∈ s.keyword.toList, c ≠ '/' ∧ isQuote c = false := by
    cases s <;> simp only [Statement.keyword] <;> exact List.all_iff_forall_prop.1 (by decide)
  have hfrom : ∀ c ∈ " from ".toList, c ≠ '/' ∧ isQuote c = false := List.all_iff_forall_prop.1 (by decide)
  have hgap : ∀ c ∈ s.gap, c ≠ '/' ∧ isQuote c = false := by
    cases s with
    | effect | require | dynamic =>
      simp only [Statement.gap]
      exact List.all_iff_forall_prop.1 (by decide)
    | binding names | reexport names =>
      intro c hc
      simp only [Statement.gap, List.mem_cons, List.mem_append] at hc
      rcases hc with rfl | hc | hc
      · decide
      · exact ne_slash_of_class (List.all_iff_forall_prop.1 (by decide)) (names.plain c hc)
      · exact hfrom c hc
  simp only [Statement.head, List.append_assoc]
  rw [blankFrom_code_append hkeyword, blankFrom_code_append hgap, Specifier.blankFrom_text]

theorem Statement.blankFrom_text (s : Statement) :
    blankFrom .code (s.text ++ rest) = s.text ++ blankFrom .code rest := by
  have hending : ∀ c ∈ s.ending, c ≠ '/' ∧ isQuote c = false := by
    cases s <;> simp only [Statement.ending] <;> exact List.all_iff_forall_prop.1 (by decide)
  rw [Statement.text, List.append_assoc, s.blankFrom_head, blankFrom_code_append hending,
    List.append_assoc]

theorem Indent.blankFrom_text (indent : Indent) :
    blankFrom .code (indent.text ++ rest) = indent.text ++ blankFrom .code rest :=
  blankFrom_code_append fun c hc => by rcases indent.plain c hc with rfl | rfl <;> decide

/-- A line with its comments blanked. -/
def Line.blanked : Line → List Char
  | empty text _ => text
  | comment indent text _ => indent.text ++ (' ' :: ' ' :: text.map blank)
  | block indent text _ => indent.text ++ (' ' :: ' ' :: (text.map blank ++ [' ', ' ']))
  | statement indent s => indent.text ++ s.text

/-- Comments end with their lines, so the lines are blanked one by one. -/
theorem Line.blankFrom_text (l : Line) (hends : EndsLine rest) :
    blankFrom .code (l.text ++ rest) = l.blanked ++ blankFrom .code rest := by
  cases l with
  | empty text h =>
    exact blankFrom_code_append fun c hc => ne_slash_of_class (List.all_iff_forall_prop.1 (by decide)) (h c hc).1
  | comment indent text h =>
    simp only [Line.text, Line.blanked, List.append_assoc, List.cons_append]
    rw [Indent.blankFrom_text, blankFrom, blankFrom_lineComment h hends]
  | block indent text h =>
    simp only [Line.text, Line.blanked, List.append_assoc, List.cons_append, List.nil_append]
    rw [Indent.blankFrom_text, blankFrom, blankFrom_blockComment h]
  | statement indent s =>
    simp only [Line.text, Line.blanked, List.append_assoc]
    rw [Indent.blankFrom_text, Statement.blankFrom_text]

/-! ## Reading -/

theorem isClauseChar_of_isBindingChar (h : isBindingChar c = true) : isClauseChar c = true := by
  simp only [isBindingChar, Bool.or_eq_true, decide_eq_true_eq] at h
  rcases h with h | h
  · have hword : isWord c = true := by
      unfold isWord
      rw [if_pos (Text.toNat_lt_of_isAlphanum h), h, Bool.true_or]
    simp only [isClauseChar, hword, Bool.true_or]
  · have hall : ∀ c ∈ "_$*,\x7b\x7d \n".toList, isClauseChar c = true :=
      List.all_iff_forall_prop.1 (by decide)
    exact hall c h

theorem Bindings.isClauseChar_text (names : Bindings) (h : c ∈ names.text) : isClauseChar c = true :=
  isClauseChar_of_isBindingChar (names.plain c h)

/-- Bindings with blanks around them, and `from`. -/
theorem isFromGap_bindings (names : Bindings) :
    isFromGap (' ' :: (names.text ++ " from ".toList)) = true := by
  have hback : (' ' :: (names.text ++ " from ".toList)).reverse.dropWhile isBlank =
      "morf".toList ++ (' ' :: (names.text.reverse ++ [' '])) := by
    rw [List.reverse_cons, List.reverse_append, List.append_assoc]
    rfl
  have hclause : (("morf".toList ++ (' ' :: (names.text.reverse ++ [' ']))).drop 4).reverse =
      ' ' :: (names.text ++ [' ']) := by
    show (' ' :: (names.text.reverse ++ [' '])).reverse = _
    simp
  have hends : endsBlank (' ' :: (names.text ++ " from ".toList)) = true := by
    rw [← List.cons_append, endsBlank, List.getLast?_append]
    rfl
  have hblanks : endsBlank (' ' :: (names.text ++ [' '])) = true := by
    rw [← List.cons_append, endsBlank, List.getLast?_append]
    rfl
  have hchars : (' ' :: (names.text ++ [' '])).all isClauseChar = true := by
    rw [List.all_cons, List.all_append, List.all_eq_true.2 fun c hc => names.isClauseChar_text hc]
    rfl
  unfold isFromGap
  simp only [hback, hclause, hends, hblanks, hchars, Bool.true_and, Bool.and_true]
  simp [startsBlank, show isBlank ' ' = true from rfl]

theorem Statement.clause?_head (s : Statement) :
    clause? (s.head ++ rest) = some (s.specifier.name, s.head.length) := by
  have hspecifier : specifier? (s.specifier.text ++ rest) =
      some (s.specifier.name, s.specifier.text.length) := by
    refine specifier?_eq_some_iff.2 ⟨s.specifier.quote, s.specifier.quote, rest, ?_,
      s.specifier.isStringQuote, s.specifier.isStringQuote, ⟨?_, fun c hc => ?_⟩, ?_⟩
    · simp [Specifier.text]
    · rintro hnil
      exact s.specifier.named (by rw [hnil]; rfl)
    · exact ⟨(s.specifier.plain c hc).1, (s.specifier.plain c hc).2.2⟩
    · simp [Specifier.text]
  have hlength : s.head.length = s.keyword.toList.length + s.gap.length + s.specifier.text.length := by
    simp only [head, List.length_append]
    omega
  simp only [head, List.append_assoc]
  rw [← head, hlength]
  cases s with
  | effect s | require s | dynamic s =>
    simp only [keyword]
    refine clause?_of_gap rfl ?_ (by rfl) hspecifier
    simp only [gap]
    exact List.all_iff_forall_prop.1 (by decide)
  | binding names s | reexport names s =>
    have hfrom : ∀ c ∈ " from ".toList, (isClauseChar c || c = '(') = true :=
      List.all_iff_forall_prop.1 (by decide)
    simp only [keyword]
    refine clause?_of_gap rfl (fun c hc => ?_) ?_ hspecifier
    · simp only [gap, List.mem_cons, List.mem_append] at hc
      rcases hc with rfl | hc | hc
      · decide
      · rw [names.isClauseChar_text hc]
        rfl
      · exact hfrom c hc
    · simp only [gap, isFromGap_bindings, Bool.or_true, Bool.true_or]

/-- A statement is read as one import, and the reader goes on behind its specifier. -/
theorem Statement.importsFrom_head (s : Statement) : importsFrom line false (s.head ++ rest) =
    s.ref line :: importsFrom (line + countLines s.head) false rest := by
  rw [importsFrom_of_clause? s.clause?_head s.specifier.named, List.take_left, List.drop_left]
  rfl

theorem Statement.importsFrom_text (s : Statement) (hends : EndsLine rest) :
    importsFrom line false (s.text ++ rest) =
      s.ref line :: importsFrom (line + countLines s.text) false rest := by
  have hquiet : ∀ c ∈ s.ending, IsQuiet c := by
    have hchar : IsQuiet ';' ∧ IsQuiet ')' := by simp [IsQuiet]
    cases s <;> simp [ending, hchar]
  rw [text, List.append_assoc, s.importsFrom_head, importsFrom_quiet_line hquiet hends, Int.add_assoc,
    ← countLines_append]

theorem Indent.importsFrom_text (indent : Indent) :
    importsFrom line false (indent.text ++ cs) = importsFrom line false cs := by
  obtain ⟨text, hplain⟩ := indent
  show importsFrom line false (text ++ cs) = _
  induction text with
  | nil => rfl
  | cons c text ih =>
    have hc := hplain c (List.mem_cons_self ..)
    have hquiet : IsQuiet c := by rcases hc with rfl | rfl <;> simp [IsQuiet]
    have hword : isWord c = false := by rcases hc with rfl | rfl <;> decide
    have hfeed : c ≠ '\n' := by rcases hc with rfl | rfl <;> decide
    rw [List.cons_append, importsFrom_cons_of_isQuiet hquiet, hword, if_neg hfeed,
      ih fun d hd => hplain d (List.mem_cons_of_mem _ hd)]

theorem Indent.countLines_text (indent : Indent) : countLines indent.text = 0 := by
  have hfeed : '\n' ∉ indent.text := fun h => by simpa using indent.plain _ h
  simp [countLines, List.count_eq_zero_of_not_mem hfeed]

theorem countLines_of_keptOrBlank {out : List Char} (h : List.Forall₂ KeptOrBlank cs out) :
    countLines cs = countLines out := by
  induction h with
  | nil => rfl
  | @cons c b _ _ hkept _ ih =>
    rw [countLines_cons, countLines_cons, ih]
    rcases hkept with rfl | ⟨hfeed, rfl⟩
    · rfl
    · rw [if_neg hfeed]
      rfl

theorem Line.countLines_blanked (l : Line) : countLines l.blanked = countLines l.text := by
  have hblanked := l.blankFrom_text (.inl rfl)
  have hkept := keptOrBlank_blankFrom .code (l.text ++ [])
  rw [hblanked, blankFrom, List.append_nil, List.append_nil] at hkept
  exact (countLines_of_keptOrBlank hkept).symm

theorem isQuiet_of_isBlank (h : isBlank c = true) : IsQuiet c := by
  refine ⟨?_, ?_, ?_⟩ <;> rintro rfl <;> exact absurd h (by decide)

theorem isBlank_blank (c : Char) : isBlank (blank c) = true := by
  unfold blank
  split <;> decide

/-- A statement gives its import, any other line gives none. -/
theorem Line.importsFrom_blanked (l : Line) (hends : EndsLine rest) :
    importsFrom line false (l.blanked ++ rest) =
      l.refs line ++ importsFrom (line + countLines l.text) false rest := by
  have hblank : (∀ c ∈ l.blanked, isBlank c = true) → importsFrom line false (l.blanked ++ rest) =
      importsFrom (line + countLines l.text) false rest := fun h => by
    rw [importsFrom_quiet_line (fun c hc => isQuiet_of_isBlank (h c hc)) hends, l.countLines_blanked]
  have hindent : ∀ indent : Indent, ∀ c ∈ indent.text, isBlank c = true := fun indent c hc => by
    rcases indent.plain c hc with rfl | rfl <;> decide
  cases l with
  | empty text h => exact hblank fun c hc => (h c hc).1
  | comment indent text h =>
    refine hblank fun c hc => ?_
    simp only [Line.blanked, List.mem_append, List.mem_cons, List.mem_map] at hc
    rcases hc with hc | rfl | rfl | ⟨d, -, rfl⟩
    · exact hindent indent c hc
    · decide
    · decide
    · exact isBlank_blank d
  | block indent text h =>
    refine hblank fun c hc => ?_
    simp only [Line.blanked, List.mem_append, List.mem_cons, List.mem_map, List.not_mem_nil, or_false] at hc
    rcases hc with hc | rfl | rfl | ⟨d, -, rfl⟩ | rfl | rfl
    · exact hindent indent c hc
    · decide
    · decide
    · exact isBlank_blank d
    · decide
    · decide
  | statement indent s =>
    simp only [Line.blanked, Line.text, Line.refs, List.append_assoc]
    rw [indent.importsFrom_text, s.importsFrom_text hends, countLines_append, indent.countLines_text,
      Int.zero_add]
    rfl

/-! ## Whole programs -/

/-- Line by line, from any line on. -/
theorem importsFrom_programText (line : Int) (ls : List Line) :
    importsFrom line false (blankFrom .code (Text.joined '\n' (ls.map Line.text))) =
      programRefs line ls := by
  induction ls generalizing line with
  | nil => simp [Text.joined, blankFrom, importsFrom, programRefs]
  | cons l ls ih =>
    cases ls with
    | nil =>
      have hread : importsFrom line false (l.blanked ++ []) =
          l.refs line ++ importsFrom (line + countLines l.text) false [] := l.importsFrom_blanked (.inl rfl)
      have hblanked := l.blankFrom_text (.inl (rfl : ([] : List Char) = []))
      rw [List.append_nil, blankFrom] at hblanked
      simp only [List.map, Text.joined, hblanked, hread, programRefs, importsFrom]
    | cons next ls =>
      have hjoined : Text.joined '\n' ((l :: next :: ls).map Line.text) =
          l.text ++ '\n' :: Text.joined '\n' ((next :: ls).map Line.text) := rfl
      have hfeed : ∀ cs, blankFrom .code ('\n' :: cs) = '\n' :: blankFrom .code cs := fun cs =>
        show blankFrom .code (['\n'] ++ cs) = ['\n'] ++ _ from blankFrom_code_append (List.all_iff_forall_prop.1 (by decide))
      have hquiet : IsQuiet '\n' := isQuiet_of_isBlank (by decide)
      rw [hjoined, l.blankFrom_text (.inr rfl), hfeed, l.importsFrom_blanked (.inr rfl),
        importsFrom_cons_of_isQuiet hquiet, if_pos rfl, show isWord '\n' = false from rfl, ih]
      rfl

/-- A program's imports are those of its statements, one each and in order: the specifier without the
blanks around it, on the line where the statement starts.  Neither comments with imports in them nor
specifiers and clauses with comment signs, keywords or line ends in them change that. -/
theorem imports_programText (ls : List Line) : imports (programText ls) = programRefs 1 ls := by
  unfold imports programText blankComments
  rw [String.toList_ofList]
  exact importsFrom_programText 1 ls

end LayerGate.Import.Web
