import LayerGate.Proofs.ImportLines
import LayerGate.Proofs.ImportedNames
import LayerGate.Proofs.StableSorting

/-!
# Imports at any depth

A program of import statements under conditionals, loops, functions and classes, with four spaces a
level: the imports of its text are those of its statements, each on its line.  Between two statements
the tokens that are left are those of the text that is left, read from the margin that is open there;
that is what each statement keeps, and what carries the induction over the tree.
-/

namespace LayerGate.Import.Indented

open Parse

variable {level line fuel : Nat} {rest : List Char}

/-! ## Programs -/

mutual

/-- A statement that imports, or one with a block under it, which is not empty. -/
inductive Statement where
  | leaf (l : Leaf)
  | compound (head : Head) (first : Statement) (more : Body)

inductive Body where
  | nil
  | cons (s : Statement) (more : Body)

end

def spaces (level : Nat) : List Char := List.replicate (4 * level) ' '

mutual

/-- Each statement on its own line, four spaces a level. -/
def Statement.text (level : Nat) : Statement → List Char
  | .leaf l => spaces level ++ (l.chars ++ ['\n'])
  | .compound head first more =>
    spaces level ++ (head.chars ++ '\n' :: (first.text (level + 1) ++ more.text (level + 1)))

def Body.text (level : Nat) : Body → List Char
  | .nil => []
  | .cons s more => s.text level ++ more.text level

end

mutual

/-- The lines that a statement takes. -/
def Statement.height : Statement → Nat
  | .leaf _ => 1
  | .compound _ first more => 1 + (first.height + more.height)

def Body.height : Body → Nat
  | .nil => 0
  | .cons s more => s.height + more.height

end

mutual

/-- The levels under a statement. -/
def Statement.depth : Statement → Nat
  | .leaf _ => 0
  | .compound _ first more => 1 + max first.depth more.depth

def Body.depth : Body → Nat
  | .nil => 0
  | .cons s more => max s.depth more.depth

end

mutual

/-- What a statement that starts on `line` imports. -/
def Statement.refs (line : Nat) : Statement → List Ref
  | .leaf l => l.refs line
  | .compound _ first more => first.refs (line + 1) ++ more.refs (line + 1 + first.height)

def Body.refs (line : Nat) : Body → List Ref
  | .nil => []
  | .cons s more => s.refs line ++ more.refs (line + s.height)

end

/-! ## Characters -/

/-- The characters stand on one line of text. -/
def OnOneLine (cs : List Char) : Prop := ∀ c ∈ cs, c ≠ '\n' ∧ c ≠ '\r' ∧ c ≠ '\x00'

@[simp] theorem onOneLine_nil : OnOneLine [] := List.forall_mem_nil _

@[simp] theorem onOneLine_cons {c : Char} {cs : List Char} :
    OnOneLine (c :: cs) ↔ (c ≠ '\n' ∧ c ≠ '\r' ∧ c ≠ '\x00') ∧ OnOneLine cs := List.forall_mem_cons

@[simp] theorem onOneLine_append {cs ds : List Char} :
    OnOneLine (cs ++ ds) ↔ OnOneLine cs ∧ OnOneLine ds := List.forall_mem_append

@[simp] theorem Word.onOneLine (w : Word) : OnOneLine w.chars := by
  intro c hc
  refine ⟨?_, ?_, ?_⟩ <;> rintro rfl <;> exact absurd (w.mem_chars hc) (by decide)

@[simp] theorem Dotted.onOneLine (d : Dotted) : OnOneLine d.chars := by
  induction d with
  | word w => exact w.onOneLine
  | dot w more ih => simp [chars, ih]

@[simp] theorem Alias.onOneLine (a : Alias) : OnOneLine (chars a) := by
  cases a <;> simp [chars, spaced]

theorem onOneLine_commas {α : Type} {chars : α → List Char} (h : ∀ a, OnOneLine (chars a)) (a : α)
    (more : List α) : OnOneLine (commas chars a more) := by
  induction more generalizing a with
  | nil => exact h a
  | cons b more ih => simp [commas, h, ih]

theorem Origin.onOneLine (o : Origin) : OnOneLine o.chars := by
  obtain ⟨level, module?, -⟩ := o
  have hdots : OnOneLine (List.replicate level '.') := by
    rintro c hc
    rw [List.eq_of_mem_replicate hc]
    decide
  cases module? <;> simp [chars, hdots]

theorem Leaf.onOneLine (l : Leaf) : OnOneLine l.chars := by
  have hmodules : ∀ first more, OnOneLine (commas Module.chars first more) :=
    onOneLine_commas fun m => by simp [Module.chars]
  have hnames : ∀ first more, OnOneLine (commas Binding.chars first more) :=
    onOneLine_commas fun b => by simp [Binding.chars]
  cases l with
  | modules first more => simp [chars, spaced, hmodules]
  | names origin asked => cases asked <;> simp [chars, spaced, Names.chars, origin.onOneLine, hnames]

theorem Head.onOneLine (h : Head) : OnOneLine h.chars := by
  cases h <;> simp [chars, spaced]

theorem onOneLine_spaces (level : Nat) : OnOneLine (spaces level) := by
  rintro c hc
  rw [List.eq_of_mem_replicate hc]
  decide

theorem OnOneLine.count_feed {cs : List Char} (h : OnOneLine cs) : cs.count '\n' = 0 :=
  List.count_eq_zero.2 fun hin => (h _ hin).1 rfl

mutual

/-- A statement takes as many lines as its text ends. -/
theorem Statement.count_feed : ∀ (s : Statement) (level : Nat), (s.text level).count '\n' = s.height
  | .leaf l, level => by
    simp [Statement.text, Statement.height, (onOneLine_spaces level).count_feed, l.onOneLine.count_feed]
  | .compound head first more, level => by
    simp [Statement.text, Statement.height, (onOneLine_spaces level).count_feed, head.onOneLine.count_feed,
      first.count_feed, more.count_feed, Nat.add_comm 1]

theorem Body.count_feed : ∀ (b : Body) (level : Nat), (b.text level).count '\n' = b.height
  | .nil, _ => rfl
  | .cons s more, level => by simp [Body.text, Body.height, s.count_feed, more.count_feed]

end

mutual

theorem Statement.plain : ∀ (s : Statement) (level : Nat), ∀ c ∈ s.text level, c ≠ '\r' ∧ c ≠ '\x00'
  | .leaf l, level => by
    simp only [Statement.text, List.forall_mem_append, List.forall_mem_singleton]
    exact ⟨fun c hc => (onOneLine_spaces level c hc).2, fun c hc => (l.onOneLine c hc).2, by decide⟩
  | .compound head first more, level => by
    simp only [Statement.text, List.forall_mem_append, List.forall_mem_cons]
    exact ⟨fun c hc => (onOneLine_spaces level c hc).2, fun c hc => (head.onOneLine c hc).2, by decide,
      first.plain (level + 1), more.plain (level + 1)⟩

theorem Body.plain : ∀ (b : Body) (level : Nat), ∀ c ∈ b.text level, c ≠ '\r' ∧ c ≠ '\x00'
  | .nil, _ => by simp [Body.text]
  | .cons s more, level => List.forall_mem_append.2 ⟨s.plain level, more.plain level⟩

end

mutual

theorem Statement.getLast?_text : ∀ (s : Statement) (level : Nat), (s.text level).getLast? = some '\n'
  | .leaf l, level => by simp [Statement.text]
  | .compound head first more, level => by
    rw [Statement.text, List.getLast?_append, List.getLast?_append, List.getLast?_cons,
      more.getLast?_behind (level + 1) (first.getLast?_text (level + 1))]
    rfl

theorem Body.getLast?_behind {cs : List Char} : ∀ (more : Body) (level : Nat), cs.getLast? = some '\n' →
    (cs ++ more.text level).getLast? = some '\n'
  | .nil, _, h => by rwa [Body.text, List.append_nil]
  | .cons s more, level, h => by
    rw [Body.text, ← List.append_assoc]
    exact more.getLast?_behind level (by rw [List.getLast?_append, s.getLast?_text, Option.some_or])

end

/-! ## Where a statement starts -/

/-- A statement starts here. -/
def Opens (cs : List Char) : Prop := ∃ word ∈ openers, ∃ rest, cs = spaced word rest

theorem Leaf.opens (l : Leaf) (rest : List Char) : Opens (l.chars ++ rest) := by
  cases l with
  | modules first more => exact ⟨"import", by decide, _, by rw [chars, spaced_append]⟩
  | names origin asked => exact ⟨"from", by decide, _, by rw [chars, spaced_append]⟩

theorem Head.opens (h : Head) (rest : List Char) : Opens (h.chars ++ rest) := by
  cases h with
  | conditional w => exact ⟨"if", by decide, _, by rw [chars, spaced_append]⟩
  | loop w => exact ⟨"while", by decide, _, by rw [chars, spaced_append]⟩
  | function w => exact ⟨"def", by decide, _, by rw [chars, spaced_append]⟩
  | type w => exact ⟨"class", by decide, _, by rw [chars, spaced_append]⟩

theorem Statement.exists_opens (s : Statement) (level : Nat) (rest : List Char) :
    ∃ cs, s.text level ++ rest = spaces level ++ cs ∧ Opens cs := by
  cases s with
  | leaf l =>
    refine ⟨_, by rw [text, List.append_assoc], ?_⟩
    rw [List.append_assoc]
    exact l.opens _
  | compound head first more =>
    refine ⟨_, by rw [text, List.append_assoc], ?_⟩
    rw [List.append_assoc]
    exact head.opens _

theorem Statement.length_text_pos (s : Statement) (level : Nat) : 0 < (s.text level).length := by
  cases s <;> simp only [text, List.length_append, List.length_cons] <;> omega

/-- The text ends here, or goes on with a statement further out than the level. -/
def Follows (level : Nat) (rest : List Char) : Prop :=
  rest = [] ∨ ∃ outer < level, ∃ cs, rest = spaces outer ++ cs ∧ Opens cs

theorem Follows.deeper (h : Follows level rest) : Follows (level + 1) rest := by
  rcases h with rfl | ⟨outer, houter, cs, rfl, hopens⟩
  · exact .inl rfl
  · exact .inr ⟨outer, by omega, cs, rfl, hopens⟩

theorem follows_text (s : Statement) (rest : List Char) : Follows (level + 1) (s.text level ++ rest) := by
  obtain ⟨cs, htext, hopens⟩ := s.exists_opens level rest
  exact .inr ⟨level, Nat.lt_succ_self level, cs, htext, hopens⟩

/-- The first token of a statement is its keyword. -/
theorem tokens_opens {cs : List Char} (h : Opens cs) (p : Place) :
    ∃ word ∈ openers, ∃ ts, tokens p cs = p.token (.keyword word) :: ts := by
  obtain ⟨word, hword, rest, rfl⟩ := h
  exact ⟨word, hword, tokens p rest, tokens_spaced (List.mem_cons_of_mem _ hword)⟩

theorem startsToken_of_opens {cs : List Char} (h : Opens cs) : ∃ c rest, cs = c :: rest ∧ StartsToken c := by
  obtain ⟨word, hword, rest, rfl⟩ := h
  obtain ⟨hstart, -⟩ := words_are_keywords word (List.mem_cons_of_mem _ hword)
  obtain ⟨c, hhead, hc⟩ := (Option.any_eq_true ..).1 hstart
  obtain ⟨tail, hchars⟩ := List.head?_eq_some_iff.1 hhead
  exact ⟨c, tail ++ ' ' :: rest, by rw [spaced, hchars]; rfl, startsToken_of_isWordStart hc⟩

/-! ## Margins -/

/-- A statement that stands further out closes the levels between. -/
theorem lineTokens_back {cs : List Char} (h : Opens cs) (line outer more : Nat) :
    lineTokens (lineAt line (outer + more)) (spaces outer ++ cs) =
      List.replicate more (onLine line .dedent) ++ tokens (lineAt line outer) cs := by
  obtain ⟨c, rest, rfl, hstarts⟩ := startsToken_of_opens h
  rw [spaces, lineTokens_indented hstarts rfl (indent_back more), List.map_replicate]
  rfl

/-- A statement one level further in opens it. -/
theorem lineTokens_deeper {cs : List Char} (h : Opens cs) (hlevel : level < 99) (line : Nat) :
    lineTokens (lineAt line level) (spaces (level + 1) ++ cs) =
      onLine line .indent :: lineTokens (lineAt line (level + 1)) (spaces (level + 1) ++ cs) := by
  have hsame := lineTokens_back h line (level + 1) 0
  obtain ⟨c, rest, rfl, hstarts⟩ := startsToken_of_opens h
  rw [Nat.add_zero] at hsame
  rw [hsame, spaces, lineTokens_indented hstarts rfl (indent_deeper hlevel)]
  rfl

theorem lineTokens_end (line level : Nat) : lineTokens (lineAt line level) [] =
    List.replicate level (onLine (line - 1) .dedent) ++ [onLine (line - 1) .finish] := by
  rw [lineTokens_nil rfl, List.map_const']
  show List.replicate (marginsAt level).length _ ++ _ = _
  rw [length_marginsAt]
  rfl

/-- Behind the first line of a block its level is opened. -/
theorem lineTokens_head (head : Head) {cs : List Char} (h : Opens cs) (hlevel : level < 99) (line : Nat) :
    lineTokens (lineAt line level) (spaces level ++ (head.chars ++ '\n' :: (spaces (level + 1) ++ cs))) =
      head.tokens line ++ onLine line .newline :: onLine (line + 1) .indent ::
        lineTokens (lineAt (line + 1) (level + 1)) (spaces (level + 1) ++ cs) := by
  have hline : tokens (lineAt line level) ('\n' :: (spaces (level + 1) ++ cs)) =
      onLine line .newline :: lineTokens (lineAt (line + 1) level) (spaces (level + 1) ++ cs) :=
    tokens_feed rfl
  calc
    _ = tokens (lineAt line level) (head.chars ++ '\n' :: (spaces (level + 1) ++ cs)) :=
      lineTokens_back (head.opens _) line level 0
    _ = _ := by rw [head.tokens_chars, hline, lineTokens_deeper h hlevel]

/-- At the end of a block its level is closed. -/
theorem lineTokens_leave (h : Follows (level + 1) rest) (line : Nat) : ∃ closed,
    lineTokens (lineAt line (level + 1)) rest = onLine closed .dedent :: lineTokens (lineAt line level) rest := by
  rcases h with rfl | ⟨outer, houter, cs, rfl, hopens⟩
  · refine ⟨line - 1, ?_⟩
    rw [lineTokens_end, lineTokens_end]
    rfl
  · refine ⟨line, ?_⟩
    obtain ⟨more, rfl⟩ := Nat.exists_eq_add_of_le (Nat.le_of_lt_succ houter)
    rw [Nat.add_assoc, lineTokens_back hopens, lineTokens_back hopens]
    rfl

/-- What may come behind a statement: the end of a block or of the text, or another statement. -/
def Continues (k : Kind) : Prop := k = .dedent ∨ k = .finish ∨ ∃ word ∈ openers, k = .keyword word

/-- What comes behind a statement is not a further part of it. -/
theorem Continues.ne_keyword {k : Kind} {word : String} (h : Continues k) (hword : word ∉ openers) :
    k ≠ .keyword word := by
  rcases h with rfl | rfl | ⟨opener, hopener, rfl⟩
  · simp
  · simp
  · rintro ⟨⟩
    exact hword hopener

theorem continues_of_follows (h : Follows (level + 1) rest) (line : Nat) : ∃ t ts,
    lineTokens (lineAt line level) rest = t :: ts ∧ Continues t.kind := by
  rcases h with rfl | ⟨outer, houter, cs, rfl, hopens⟩
  · rw [lineTokens_end]
    cases level with
    | zero => exact ⟨_, _, rfl, .inr (.inl rfl)⟩
    | succ level => exact ⟨_, _, rfl, .inl rfl⟩
  · obtain ⟨more, rfl⟩ := Nat.exists_eq_add_of_le (Nat.le_of_lt_succ houter)
    rw [lineTokens_back hopens]
    cases more with
    | zero =>
      obtain ⟨word, hword, ts, htokens⟩ := tokens_opens hopens (lineAt line outer)
      exact ⟨_, _, htokens, .inr (.inr ⟨word, hword, rfl⟩)⟩
    | succ more => exact ⟨_, _, rfl, .inl rfl⟩

/-- Where a block ends, no statement goes on. -/
theorem ends_of_follows (h : Follows level rest) (line : Nat) : ∃ t ts,
    lineTokens (lineAt line level) rest = t :: ts ∧ (t.kind = .dedent ∨ t.kind = .finish) := by
  cases level with
  | zero =>
    rcases h with rfl | ⟨outer, houter, -⟩
    · rw [lineTokens_end]
      exact ⟨_, _, rfl, .inr rfl⟩
    · cases houter
  | succ level =>
    obtain ⟨closed, hleave⟩ := lineTokens_leave h line
    exact ⟨_, _, hleave, .inl rfl⟩

/-! ## Statement by statement -/

/-- A statement is read up to the text behind it, from the line behind it on. -/
def Reads (s : Statement) : Prop :=
  ∀ level line fuel rest, level + s.depth ≤ 99 → Follows (level + 1) rest →
    16 * (s.text level).length ≤ fuel →
    statement fuel (lineTokens (lineAt line level) (s.text level ++ rest)) =
      .ok (s.refs line, lineTokens (lineAt (line + s.height) level) rest)

/-- Statements of one level are read up to where the level ends. -/
def ReadsAll (first : Statement) (more : Body) : Prop :=
  ∀ level line fuel rest, level + max first.depth more.depth ≤ 99 → Follows level rest →
    16 * (first.text level ++ more.text level).length < fuel →
    statements fuel (lineTokens (lineAt line level) (first.text level ++ (more.text level ++ rest))) =
      .ok (first.refs line ++ more.refs (line + first.height),
        lineTokens (lineAt (line + first.height + more.height) level) rest)

theorem reads_leaf (l : Leaf) : Reads (.leaf l) := by
  intro level line fuel rest _ _ hfuel
  simp only [Statement.text, List.length_append, List.length_singleton] at hfuel
  obtain ⟨fuel, rfl⟩ : ∃ left, fuel = left + 2 := ⟨fuel - 2, by omega⟩
  have htokens : lineTokens (lineAt line level) (spaces level ++ (l.chars ++ '\n' :: rest)) =
      l.kinds.map (onLine line) ++ onLine line .newline :: lineTokens (lineAt (line + 1) level) rest :=
    (lineTokens_back (l.opens _) line level 0).trans (l.tokens_chars.trans (congrArg _ (tokens_feed rfl)))
  rw [Statement.text, List.append_assoc, List.append_assoc, List.singleton_append, htokens]
  exact l.run_statement (by omega)

theorem reads_compound {head : Head} {first : Statement} {more : Body} (h : ReadsAll first more) :
    Reads (.compound head first more) := by
  intro level line fuel rest hdepth hfollows hfuel
  rw [Statement.depth] at hdepth
  have hhead : 4 ≤ head.chars.length := by
    cases head <;> simp [Head.chars, spaced, Word.chars]
  -- The head alone pays for the steps down to the block.
  simp only [Statement.text, List.length_append, List.length_cons] at hfuel
  obtain ⟨fuel, rfl⟩ : ∃ left, fuel = left + 12 := ⟨fuel - 12, by omega⟩
  obtain ⟨cs, hblock, hopens⟩ := first.exists_opens (level + 1) (more.text (level + 1) ++ rest)
  -- The block ends with its level, and what stands behind it goes on one level further out.
  let behind := line + 1 + first.height + more.height
  obtain ⟨closed, hleave⟩ := lineTokens_leave hfollows behind
  obtain ⟨t, ts, hnext, hcontinues⟩ := continues_of_follows hfollows behind
  have hbody : ∀ left, fuel ≤ left →
      statements left (lineTokens (lineAt (line + 1) (level + 1)) (spaces (level + 1) ++ cs)) =
      .ok (first.refs (line + 1) ++ more.refs (line + 1 + first.height), onLine closed .dedent :: t :: ts) := by
    intro left hleft
    have hroom : 16 * (first.text (level + 1) ++ more.text (level + 1)).length < left := by
      rw [List.length_append]
      omega
    rw [← hblock, h (level + 1) (line + 1) left rest (by omega) hfollows hroom, hleave, hnext]
  have hheight : line + (Statement.compound head first more).height = behind := by
    rw [Statement.height]
    omega
  have htext : (Statement.compound head first more).text level ++ rest =
      spaces level ++ (head.chars ++ '\n' :: (spaces (level + 1) ++ cs)) := by
    simp [Statement.text, ← hblock]
  rw [htext, lineTokens_head head hopens (by omega), hheight, hnext]
  exact run_compound head hbody rfl rfl (hcontinues.ne_keyword (by decide)) (hcontinues.ne_keyword (by decide))

theorem readsAll_nil {first : Statement} (h : Reads first) : ReadsAll first .nil := by
  intro level line fuel rest hdepth hfollows hfuel
  obtain ⟨fuel, rfl⟩ := Nat.exists_eq_succ_of_ne_zero (Nat.ne_zero_of_lt hfuel)
  have hfirst := h level line fuel rest (by simpa [Body.depth] using hdepth) hfollows.deeper
    (by simpa [Body.text] using Nat.le_of_lt_succ hfuel)
  obtain ⟨t, ts, htokens, hends⟩ := ends_of_follows hfollows (line + first.height)
  simp only [Body.text, Body.refs, Body.height, List.nil_append, List.append_nil, Nat.add_zero]
  rw [htokens] at hfirst ⊢
  rw [statements, run_bind hfirst, run_bind run_peek]
  rcases hends with hkind | hkind <;> rw [hkind] <;> rfl

theorem readsAll_cons {first s : Statement} {more : Body} (h : Reads first) (hmore : ReadsAll s more) :
    ReadsAll first (.cons s more) := by
  intro level line fuel rest hdepth hfollows hfuel
  obtain ⟨fuel, rfl⟩ := Nat.exists_eq_succ_of_ne_zero (Nat.ne_zero_of_lt hfuel)
  simp only [Body.text, Body.depth, List.length_append] at hfuel hdepth
  have hpos := first.length_text_pos level
  let behind := s.text level ++ (more.text level ++ rest)
  have hfirst : statement fuel (lineTokens (lineAt line level) (first.text level ++ behind)) =
      .ok (first.refs line, lineTokens (lineAt (line + first.height) level) behind) :=
    h level line fuel behind (by omega) (follows_text s _) (by omega)
  have hrest : statements fuel (lineTokens (lineAt (line + first.height) level) behind) =
      .ok (s.refs (line + first.height) ++ more.refs (line + first.height + s.height),
        lineTokens (lineAt (line + first.height + s.height + more.height) level) rest) :=
    hmore level (line + first.height) fuel rest (by omega) hfollows (by rw [List.length_append]; omega)
  have hlist : statements (fuel + 1) (lineTokens (lineAt line level) (first.text level ++ behind)) =
      .ok (first.refs line ++ (s.refs (line + first.height) ++ more.refs (line + first.height + s.height)),
        lineTokens (lineAt (line + first.height + s.height + more.height) level) rest) := by
    obtain ⟨cs, htext, hopens⟩ := s.exists_opens level (more.text level ++ rest)
    obtain ⟨word, -, ts, htokens⟩ := tokens_opens hopens (lineAt (line + first.height) level)
    have hnext : lineTokens (lineAt (line + first.height) level) behind =
        onLine (line + first.height) (.keyword word) :: ts := by
      show lineTokens _ (s.text level ++ (more.text level ++ rest)) = _
      rw [htext]
      exact (lineTokens_back hopens (line + first.height) level 0).trans htokens
    -- The keyword of the next statement is no end of the block, so the list goes on.
    rw [hnext] at hrest hfirst
    rw [statements, run_bind hfirst, run_bind run_peek]
    show (statements fuel >>= _) _ = _
    rw [run_bind hrest]
    rfl
  simpa [Body.text, Body.refs, Body.height, behind, Nat.add_assoc] using hlist

mutual

theorem Statement.reads : ∀ s : Statement, Reads s
  | .leaf l => reads_leaf l
  | .compound _ first more => reads_compound (more.readsAll first.reads)

theorem Body.readsAll {first : Statement} (h : Reads first) : ∀ more : Body, ReadsAll first more
  | .nil => readsAll_nil h
  | .cons s more => readsAll_cons h (more.readsAll s.reads)

end

/-! ## Programs from their text -/

instance : Std.TransCmp Ref.order :=
  inferInstanceAs <| Std.TransCmp <| compareLex (compareOn Ref.line) <|
    compareLex (compareOn Ref.specifier) (compareOn Ref.names)

namespace Body

/-- The text of a program. -/
def program (b : Body) : String := String.ofList (b.text 0)

/-- The lexer takes the text as it is. -/
theorem completeLines_text (s : Statement) (more : Body) :
    completeLines (cons s more).program.toList = (cons s more).text 0 := by
  have hunified : Text.unifyNewlines ((cons s more).text 0) = (cons s more).text 0 :=
    Text.unifyNewlines_eq_self fun c hc => ((cons s more).plain 0 c hc).1
  have hlast : ((cons s more).text 0).getLast? = some '\n' :=
    more.getLast?_behind 0 (s.getLast?_text 0)
  rw [program, String.toList_ofList]
  simp only [completeLines, hunified, hlast, if_true]

theorem run_source (s : Statement) (more : Body) (hdepth : (cons s more).depth ≤ 99)
    (hfuel : 16 * ((cons s more).text 0).length < fuel) :
    source fuel (lineTokens .start ((cons s more).text 0)) = .ok ((cons s more).refs 1, []) := by
  have hread : statements fuel (lineTokens (lineAt 1 0) ((cons s more).text 0)) =
      .ok ((cons s more).refs 1, lineTokens (lineAt (1 + s.height + more.height) 0) []) := by
    have hall := more.readsAll s.reads 0 1 fuel [] (by rwa [Nat.zero_add]) (.inl rfl) hfuel
    rwa [List.append_nil] at hall
  obtain ⟨cs, htext, hopens⟩ := s.exists_opens 0 (more.text 0)
  obtain ⟨word, -, ts, htokens⟩ := tokens_opens hopens (lineAt 1 0)
  have hstart : lineTokens .start ((cons s more).text 0) = onLine 1 (.keyword word) :: ts := by
    rw [text, htext]
    exact (lineTokens_back hopens 1 0 0).trans htokens
  -- A statement stands at the start, so the source is not read as an empty one.
  rw [lineTokens_end] at hread
  rw [hstart, source, run_bind run_peek, if_neg (by simp [onLine]), run_bind (hstart ▸ hread)]
  rfl

end Body

/-- The imports of a program are told wherever they stand in it, each once and with its line, and sorted. -/
theorem imports_of_program (b : Body) (hdepth : b.depth ≤ 99) : ∃ refs, imports b.program = .ok refs ∧
    refs.Perm (b.refs 1) ∧ refs.Pairwise fun a c => (Ref.order a c).isLE = true := by
  refine ⟨(b.refs 1).mergeSort fun a c => (Ref.order a c).isLE, ?_, List.mergeSort_perm .., pairwise_mergeSort_isLE _⟩
  cases b with
  | nil =>
    -- A text of no lines is read as one that is blank.
    have hblank : completeLines Body.nil.program.toList = ['\n'] := by rfl
    exact imports_of_run hblank (by decide) (by with_unfolding_all rfl)
  | cons s more =>
    have hnul : ((Body.cons s more).text 0).contains '\x00' = false := by
      rw [Bool.eq_false_iff, Ne, List.contains_iff_mem]
      exact fun hin => ((Body.cons s more).plain 0 _ hin).2 rfl
    exact imports_of_run (Body.completeLines_text s more) hnul (Body.run_source s more hdepth (by omega))

/-! ### A function in a conditional -/

def oneLetter (c : Char) (h : c.isAlpha = true := by decide)
    (hfree : keywords.contains (String.ofList [c]) = false := by decide) : Word :=
  ⟨c, [], .inl h, by simp, hfree⟩

/-- A conditional that holds a line with imports and a function, and another such line behind it. -/
def nested : Body :=
  let plain := Statement.leaf <| .modules ⟨.word (oneLetter 'b'), none⟩
    [⟨.dot (oneLetter 'a') (.word (oneLetter 'c')), some (oneLetter 'd')⟩]
  let parent := Statement.leaf <| .names ⟨2, none, by decide⟩ .all
  let last := Statement.leaf <| .names ⟨0, some (.word (oneLetter 'e')), by simp⟩
    (.listed ⟨oneLetter 'f', some (oneLetter 'g')⟩ [⟨oneLetter 'h', none⟩])
  let function := Statement.compound (.function (oneLetter 'l')) parent .nil
  .cons (.compound (.conditional (oneLetter 'r')) plain (.cons function .nil)) (.cons last .nil)

theorem imports_of_program_nested : nested.depth ≤ 99 ∧
    nested.program = "if r:\n    import b, a.c as d\n    def l():\n        from .. import *\nfrom e import f as g, h\n" ∧
    ∃ refs, imports nested.program = .ok refs ∧
      refs.Perm [⟨2, "b", [], 0, .python⟩, ⟨2, "a.c", [], 0, .python⟩, ⟨4, "", [], 2, .python⟩,
        ⟨5, "e", ["f", "h"], 0, .python⟩] ∧
      refs.Pairwise fun a c => (Ref.order a c).isLE = true :=
  ⟨by decide, by rfl, imports_of_program nested (by decide)⟩

end LayerGate.Import.Indented
