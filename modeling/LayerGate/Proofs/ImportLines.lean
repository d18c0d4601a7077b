import Mathlib
import LayerGate.Proofs.LineTokens
import LayerGate.Proofs.TokenReading

/-!
# Lines with imports, and lines with blocks

Import statements as a program writes them, and the lines that stand over a block.  Each form has its
characters and its tokens: the lexer makes the ones of the others, and the parser reads the imports out
of them.
-/

namespace LayerGate.Import.Indented

open Parse

variable {p : Place} {c : Char} {rest : List Char} {t : Token} {ts : List Token} {fuel line : Nat}

/-! ## Words -/

/-- An identifier of letters, digits and underscores that is no keyword. -/
structure Word where
  first : Char
  tail : List Char
  isStart : first.isAlpha = true ∨ first = '_'
  isPart : ∀ c ∈ tail, c.isAlphanum = true ∨ c = '_'
  isFree : keywords.contains (String.ofList (first :: tail)) = false

namespace Word

variable (w : Word)

def chars : List Char := w.first :: w.tail

theorem mem_chars (h : c ∈ w.chars) : c.isAlphanum = true ∨ c = '_' := by
  rcases List.mem_cons.1 h with rfl | h
  · rcases w.isStart with halpha | hscore
    · exact .inl (by rw [Char.isAlphanum, halpha, Bool.true_or])
    · exact .inr hscore
  · exact w.isPart c h

theorem ascii (h : c ∈ w.chars) : c.toNat < 0x80 := by
  rcases w.mem_chars h with h | rfl
  · exact Text.toNat_lt_of_isAlphanum h
  · decide

theorem isIdentifierPart_of_mem (h : c ∈ w.chars) : Text.isIdentifierPart c = true := by
  rw [Text.isIdentifierPart, if_pos (w.ascii h)]
  simpa using w.mem_chars h

def text : String := String.ofList w.chars

def name : Name where
  text := w.text
  isPlain := by
    refine ⟨fun h => ?_, ?_⟩
    · have hnil := congrArg String.toList h
      rw [text, String.toList_ofList] at hnil
      cases hnil
    · rw [text, String.toList_ofList, List.all_eq_true]
      exact fun c hc => w.isIdentifierPart_of_mem hc

/-- A word that is no keyword stands for itself. -/
theorem ofWord?_chars : Kind.ofWord? w.chars = some (.name w.name) := by
  have hidentifier : Text.isIdentifier w.chars = true := by
    have hstart : Text.isIdentifierStart w.first = true := by
      rw [Text.isIdentifierStart, if_pos (w.ascii (List.mem_cons_self ..))]
      simpa using w.isStart
    rw [chars, Text.isIdentifier, hstart, Bool.true_and, List.all_eq_true]
    exact fun c hc => w.isIdentifierPart_of_mem (List.mem_cons_of_mem _ hc)
  have hname : Name.ofWord? w.chars = some w.name := by
    have hcompatible : Text.compatible w.chars = w.chars := Text.compatible_ascii fun c hc => w.ascii hc
    simp only [Name.ofWord?, hcompatible]
    exact dif_pos ⟨hidentifier, w.name.isPlain⟩
  rw [Kind.ofWord?, hname]
  exact if_neg (by rw [chars, w.isFree]; simp)

theorem isWordStart_first : isWordStart w.first = true := by
  rcases w.isStart with h | h <;> simp [isWordStart, h]

theorem isWordChar_of_mem (h : c ∈ w.tail) : isWordChar c = true := by
  rcases w.isPart c h with h | h <;> simp [isWordChar, h]

theorem tokens_chars (hends : EndsWord rest) :
    tokens p (w.chars ++ rest) = p.token (.name w.name) :: tokens p rest :=
  tokens_word w.isWordStart_first (fun _ hc => w.isWordChar_of_mem hc) w.ofWord?_chars hends

/-- No operator and no number goes on with a word. -/
theorem endsOp : EndsOp (w.chars ++ rest) := by
  intro c hc
  obtain rfl : w.first = c := Option.some.inj hc
  have hne : ∀ d, isWordStart d = false → w.first ≠ d := by
    rintro d hd heq
    rw [← heq, w.isWordStart_first] at hd
    cases hd
  refine ⟨fun hin => ?_, ?_⟩
  · have hnone : ∀ d ∈ "=*></.".toList, isWordStart d = false := List.all_iff_forall_prop.1 (by decide)
    exact hne w.first (hnone _ hin) rfl
  · rw [Bool.eq_false_iff]
    intro hdigit
    rcases w.isStart with halpha | hscore
    · simp only [Char.isAlpha, Char.isUpper, Char.isLower, Char.isDigit, Bool.or_eq_true, Bool.and_eq_true,
        decide_eq_true_eq, ge_iff_le, UInt32.le_iff_toNat_le] at halpha hdigit
      have hbounds : '9'.val.toNat = 57 ∧ 'A'.val.toNat = 65 ∧ 'a'.val.toNat = 97 := ⟨rfl, rfl, rfl⟩
      omega
    · rw [hscore] at hdigit
      exact absurd hdigit (by decide)

end Word

/-- A blank, a line end or a bracket ends an operator. -/
theorem endsOp_cons (h : c ∉ "=*></.".toList) (hdigit : c.isDigit = false) : EndsOp (c :: rest) := by
  intro d hd
  obtain rfl : c = d := Option.some.inj hd
  exact ⟨h, hdigit⟩

theorem endsWord_cons (h : isWordChar c = false) (hquote : isQuote c = false) : EndsWord (c :: rest) := by
  intro d hd
  obtain rfl : c = d := Option.some.inj hd
  exact ⟨h, hquote⟩

/-- A word, and what stands behind it after a space. -/
def spaced (word : String) (cs : List Char) : List Char := word.toList ++ ' ' :: cs

theorem spaced_append (word : String) (cs ds : List Char) :
    spaced word cs ++ ds = spaced word (cs ++ ds) := by
  rw [spaced, spaced, List.append_assoc, List.cons_append]

theorem length_lt_spaced (word : String) (cs : List Char) : cs.length < (spaced word cs).length := by
  rw [spaced, List.length_append, List.length_cons]
  omega

/-- The words that a statement starts with. -/
def openers : List String := ["import", "from", "if", "while", "def", "class"]

theorem words_are_keywords : ∀ word ∈ "as" :: openers, word.toList.head?.any isWordStart = true ∧
    word.toList.tail.all isWordChar = true ∧ Kind.ofWord? word.toList = some (.keyword word) := by
  decide

theorem tokens_spaced {word : String} (h : word ∈ "as" :: openers) :
    tokens p (spaced word rest) = p.token (.keyword word) :: tokens p rest := by
  obtain ⟨hstart, htail, hkind⟩ := words_are_keywords word h
  rw [spaced]
  cases hchars : word.toList with
  | nil =>
    rw [hchars] at hstart
    cases hstart
  | cons c tail =>
    rw [hchars] at hstart htail hkind
    have hends : EndsWord (' ' :: rest) := endsWord_cons (by decide) (by decide)
    exact (tokens_word hstart (List.all_eq_true.1 htail) hkind hends).trans (congrArg _ tokens_space)

/-! ## Dotted names -/

/-- Words with dots between them. -/
inductive Dotted where
  | word (w : Word)
  | dot (w : Word) (more : Dotted)

namespace Dotted

def chars : Dotted → List Char
  | word w => w.chars
  | dot w more => w.chars ++ '.' :: more.chars

def kinds : Dotted → List Kind
  | word w => [.name w.name]
  | dot w more => .name w.name :: .op "." :: more.kinds

def text (d : Dotted) : String := String.ofList d.chars

theorem endsOp (d : Dotted) : EndsOp (d.chars ++ rest) := by
  cases d with
  | word w => exact w.endsOp
  | dot w more =>
    rw [chars, List.append_assoc]
    exact w.endsOp

theorem tokens_chars (d : Dotted) (hends : EndsWord rest) :
    tokens p (d.chars ++ rest) = d.kinds.map p.token ++ tokens p rest := by
  induction d with
  | word w => exact w.tokens_chars hends
  | dot w more ih =>
    have hdot : tokens p ('.' :: (more.chars ++ rest)) = p.token (.op ".") :: tokens p (more.chars ++ rest) :=
      tokens_op isOp_dot more.endsOp rfl
    have hends' : EndsWord ('.' :: (more.chars ++ rest)) := endsWord_cons (by decide) (by decide)
    rw [chars, List.append_assoc, List.cons_append, w.tokens_chars hends', hdot, ih]
    rfl

theorem length_pos (d : Dotted) : 0 < d.chars.length := by
  cases d <;> simp [chars, Word.chars]

theorem text_dot (w : Word) (more : Dotted) : (dot w more).text = w.text ++ "." ++ more.text := by
  rw [← String.toList_inj]
  simp [text, chars, Word.text]

theorem run_dottedName (d : Dotted) (hfuel : d.chars.length ≤ fuel) (ht : t.kind ≠ .op ".") :
    dottedName fuel (d.kinds.map (onLine line) ++ t :: ts) = .ok (d.text, t :: ts) := by
  induction d generalizing fuel with
  | word w =>
    obtain ⟨fuel, rfl⟩ := Nat.exists_eq_succ_of_ne_zero
      (Nat.pos_iff_ne_zero.1 (Nat.lt_of_lt_of_le (length_pos _) hfuel))
    show dottedName (fuel + 1) (onLine line (.name w.name) :: t :: ts) = _
    rw [dottedName, run_bind (run_name rfl), acceptOp, run_accept_else ht]
    rfl
  | dot w more ih =>
    obtain ⟨fuel, rfl⟩ := Nat.exists_eq_succ_of_ne_zero
      (Nat.pos_iff_ne_zero.1 (Nat.lt_of_lt_of_le (length_pos _) hfuel))
    have hrest : more.chars.length ≤ fuel := by
      simp [chars, Word.chars] at hfuel
      omega
    show dottedName (fuel + 1) (onLine line (.name w.name) :: onLine line (.op ".") ::
      (more.kinds.map (onLine line) ++ t :: ts)) = _
    rw [dottedName, run_bind (run_name rfl), acceptOp, run_accept_then (by rfl), run_bind (ih hrest), text_dot]
    rfl

end Dotted

/-! ## Other names -/

/-- The other name that an import is given, if it is given one. -/
abbrev Alias := Option Word

namespace Alias

def chars : Alias → List Char
  | none => []
  | some w => ' ' :: spaced "as" w.chars

def kinds : Alias → List Kind
  | none => []
  | some w => [.keyword "as", .name w.name]

theorem tokens_chars (a : Alias) (hends : EndsWord rest) :
    tokens p (chars a ++ rest) = (kinds a).map p.token ++ tokens p rest := by
  cases a with
  | none => rfl
  | some w =>
    have hword : tokens p (w.chars ++ rest) = p.token (.name w.name) :: tokens p rest :=
      w.tokens_chars hends
    have hkeyword : tokens p (spaced "as" (w.chars ++ rest)) =
        p.token (.keyword "as") :: tokens p (w.chars ++ rest) := tokens_spaced (by decide)
    exact tokens_space.trans (hkeyword.trans (congrArg _ hword))

theorem endsWord (a : Alias) (hends : EndsWord rest) : EndsWord (chars a ++ rest) := by
  cases a with
  | none => exact hends
  | some w => exact endsWord_cons (by decide) (by decide)

theorem run_alias? (a : Alias) (ht : t.kind ≠ .keyword "as") :
    alias? ((kinds a).map (onLine line) ++ t :: ts) = .ok ((), t :: ts) := by
  cases a with
  | none =>
    show alias? (t :: ts) = _
    rw [alias?, acceptWord, run_accept_else ht]
    rfl
  | some w =>
    show alias? (onLine line (.keyword "as") :: onLine line (.name w.name) :: t :: ts) = _
    rw [alias?, acceptWord, run_accept_then (by rfl), run_bind (run_name rfl)]
    rfl

end Alias

/-! ## Items and lists of them -/

/-- A module that is imported, and its other name. -/
structure Module where
  subject : Dotted
  other : Alias

namespace Module

variable (m : Module)

def chars : List Char := m.subject.chars ++ Alias.chars m.other

def kinds : List Kind := m.subject.kinds ++ Alias.kinds m.other

theorem tokens_chars (hends : EndsWord rest) :
    tokens p (m.chars ++ rest) = m.kinds.map p.token ++ tokens p rest := by
  rw [chars, kinds, List.append_assoc, m.subject.tokens_chars (Alias.endsWord _ hends),
    Alias.tokens_chars _ hends, List.map_append, List.append_assoc]

theorem run_dottedName (hfuel : m.chars.length ≤ fuel) (ht : t.kind ≠ .op ".") :
    dottedName fuel (m.kinds.map (onLine line) ++ t :: ts) =
      .ok (m.subject.text, (Alias.kinds m.other).map (onLine line) ++ t :: ts) := by
  have hsubject : m.subject.chars.length ≤ fuel :=
    Nat.le_trans (List.length_append ▸ Nat.le_add_right ..) hfuel
  rw [kinds, List.map_append, List.append_assoc]
  cases m.other with
  | none => exact m.subject.run_dottedName hsubject ht
  | some w => exact m.subject.run_dottedName hsubject (by simp [onLine])

end Module

/-- A name that is imported from a module, and its other name. -/
structure Binding where
  subject : Word
  other : Alias

namespace Binding

variable (b : Binding)

def chars : List Char := b.subject.chars ++ Alias.chars b.other

def kinds : List Kind := .name b.subject.name :: Alias.kinds b.other

theorem tokens_chars (hends : EndsWord rest) :
    tokens p (b.chars ++ rest) = b.kinds.map p.token ++ tokens p rest := by
  rw [chars, kinds, List.append_assoc, b.subject.tokens_chars (Alias.endsWord _ hends),
    Alias.tokens_chars _ hends]
  rfl

theorem run_importedName (ht : t.kind ≠ .keyword "as") :
    importedName (b.kinds.map (onLine line) ++ t :: ts) = .ok (b.subject.name, t :: ts) := by
  show importedName (onLine line (.name b.subject.name) ::
    ((Alias.kinds b.other).map (onLine line) ++ t :: ts)) = _
  rw [importedName, run_bind (run_name (by rfl)), run_bind (Alias.run_alias? b.other ht)]
  rfl

end Binding

section Commas

variable {α : Type} {chars : α → List Char} {kinds : α → List Kind}

/-- Items with commas between them. -/
def commas (chars : α → List Char) : α → List α → List Char
  | a, [] => chars a
  | a, b :: more => chars a ++ ',' :: ' ' :: commas chars b more

def commaKinds (kinds : α → List Kind) : α → List α → List Kind
  | a, [] => kinds a
  | a, b :: more => kinds a ++ .op "," :: commaKinds kinds b more

theorem tokens_commas
    (hitem : ∀ {rest}, EndsWord rest → ∀ a, tokens p (chars a ++ rest) = (kinds a).map p.token ++ tokens p rest)
    (hends : EndsWord rest) (a : α) (more : List α) :
    tokens p (commas chars a more ++ rest) = (commaKinds kinds a more).map p.token ++ tokens p rest := by
  induction more generalizing a with
  | nil => exact hitem hends a
  | cons b more ih =>
    have hcomma : tokens p (',' :: ' ' :: (commas chars b more ++ rest)) =
        p.token (.op ",") :: tokens p (' ' :: (commas chars b more ++ rest)) :=
      tokens_op (isOp_of_mem (by decide)) (endsOp_cons (by decide) (by decide)) rfl
    have hends' : EndsWord (',' :: ' ' :: (commas chars b more ++ rest)) :=
      endsWord_cons (by decide) (by decide)
    rw [commas, commaKinds, List.append_assoc, List.cons_append, List.cons_append, hitem hends', hcomma,
      tokens_space, ih, List.map_append, List.append_assoc]
    rfl

end Commas

theorem exists_succ_of_length_le {cs : List Char} (hpos : 0 < cs.length) (h : cs.length ≤ fuel) :
    ∃ left, fuel = left + 1 :=
  Nat.exists_eq_succ_of_ne_zero (Nat.pos_iff_ne_zero.1 (Nat.lt_of_lt_of_le hpos h))

/-- A list of modules is read to its end. -/
theorem run_importedModules {at_ : Nat} (m : Module) (more : List Module)
    (hfuel : (commas Module.chars m more).length < fuel) (ht : t.kind = .newline) :
    importedModules fuel at_ ((commaKinds Module.kinds m more).map (onLine line) ++ t :: ts) =
      .ok ((m :: more).map fun m => ⟨at_, m.subject.text, [], 0, .python⟩, t :: ts) := by
  obtain ⟨fuel, rfl⟩ := Nat.exists_eq_succ_of_ne_zero (Nat.ne_zero_of_lt hfuel)
  induction more generalizing m fuel with
  | nil =>
    have hname : m.chars.length ≤ fuel := Nat.le_of_lt_succ hfuel
    show importedModules (fuel + 1) at_ (m.kinds.map (onLine line) ++ t :: ts) = _
    rw [importedModules, run_bind (m.run_dottedName hname (by simp [ht])),
      run_bind (Alias.run_alias? _ (by simp [ht])), acceptOp, run_accept_else (by simp [ht])]
    rfl
  | cons next more ih =>
    rw [commas, List.length_append, List.length_cons, List.length_cons] at hfuel
    obtain ⟨fuel, rfl⟩ : ∃ left, fuel = left + 1 := ⟨fuel - 1, by omega⟩
    have hname : m.chars.length ≤ fuel + 1 := by omega
    have hrest : (commas Module.chars next more).length < fuel.succ := by omega
    rw [commaKinds, List.map_append, List.append_assoc]
    show importedModules (fuel + 2) at_ (m.kinds.map (onLine line) ++ onLine line (.op ",") ::
      ((commaKinds Module.kinds next more).map (onLine line) ++ t :: ts)) = _
    rw [importedModules, run_bind (m.run_dottedName hname (by simp [onLine])),
      run_bind (Alias.run_alias? _ (by simp [onLine])), acceptOp, run_accept_then (by rfl),
      run_bind (ih next fuel hrest)]
    rfl

/-- A list of names is read to its end. -/
theorem run_openNames (b : Binding) (more : List Binding)
    (hfuel : (commas Binding.chars b more).length ≤ fuel) (ht : t.kind = .newline) :
    openNames fuel ((commaKinds Binding.kinds b more).map (onLine line) ++ t :: ts) =
      .ok ((b :: more).map fun b => b.subject.name, t :: ts) := by
  have hpos : ∀ b : Binding, 0 < b.chars.length := fun b => by
    simp [Binding.chars, Word.chars]
  induction more generalizing b fuel with
  | nil =>
    obtain ⟨fuel, rfl⟩ := exists_succ_of_length_le (hpos b) hfuel
    show openNames (fuel + 1) (b.kinds.map (onLine line) ++ t :: ts) = _
    rw [openNames, run_bind (b.run_importedName (by simp [ht])), acceptOp, run_accept_else (by simp [ht])]
    rfl
  | cons next more ih =>
    rw [commas, List.length_append, List.length_cons, List.length_cons] at hfuel
    obtain ⟨fuel, rfl⟩ := exists_succ_of_length_le (hpos b) (Nat.le_trans (Nat.le_add_right ..) hfuel)
    have hrest : (commas Binding.chars next more).length ≤ fuel := by
      have := hpos b
      omega
    rw [commaKinds, List.map_append, List.append_assoc]
    show openNames (fuel + 1) (b.kinds.map (onLine line) ++ onLine line (.op ",") ::
      ((commaKinds Binding.kinds next more).map (onLine line) ++ t :: ts)) = _
    rw [openNames, run_bind (b.run_importedName (by simp [onLine])), acceptOp, run_accept_then (by rfl),
      run_bind (ih next hrest)]
    rfl

/-! ## Statements -/

/-- The dots in front of a module are counted, however they were read. -/
theorem run_leadingDots (n : Nat) (hfuel : n ≤ fuel) (hone : t.kind ≠ .op ".") (hthree : t.kind ≠ .op "...") :
    leadingDots fuel ((dotKinds n).map (onLine line) ++ t :: ts) = .ok (n, t :: ts) := by
  have hnone : ∀ fuel, leadingDots fuel (t :: ts) = .ok (0, t :: ts) := fun fuel => by
    cases fuel with
    | zero => rfl
    | succ fuel =>
      rw [leadingDots, acceptOp, run_accept_else hone, acceptOp, run_accept_else hthree]
      rfl
  have hdot : ∀ {fuel m : Nat} {rest : List Token}, leadingDots fuel rest = .ok (m, t :: ts) →
      leadingDots (fuel + 1) (onLine line (.op ".") :: rest) = .ok (1 + m, t :: ts) := fun h => by
    rw [leadingDots, acceptOp, run_accept_then (by rfl), run_bind h]
    rfl
  induction n using dotKinds.induct generalizing fuel with
  | case1 => exact hnone fuel
  | case2 =>
    obtain ⟨fuel, rfl⟩ : ∃ left, fuel = left + 1 := ⟨fuel - 1, by omega⟩
    exact hdot (hnone fuel)
  | case3 =>
    obtain ⟨fuel, rfl⟩ : ∃ left, fuel = left + 2 := ⟨fuel - 2, by omega⟩
    exact hdot (hdot (hnone fuel))
  | case4 n ih =>
    obtain ⟨fuel, rfl⟩ : ∃ left, fuel = left + 1 := ⟨fuel - 1, by omega⟩
    show leadingDots (fuel + 1) (onLine line (.op "...") :: ((dotKinds n).map (onLine line) ++ t :: ts)) = _
    rw [leadingDots, acceptOp, run_accept_else (by simp [onLine]), acceptOp, run_accept_then (by rfl),
      run_bind (ih (by omega)), Nat.add_comm 3 n]
    rfl

/-- What a `from` names: so many dots, and a module that only behind dots may be left out. -/
structure Origin where
  level : Nat
  module? : Option Dotted
  isKnown : level ≠ 0 ∨ module? ≠ none

namespace Origin

variable (o : Origin)

def chars : List Char := List.replicate o.level '.' ++ (o.module?.map Dotted.chars).getD []

def kinds : List Kind := dotKinds o.level ++ (o.module?.map Dotted.kinds).getD []

def module : String := (o.module?.map Dotted.text).getD ""

theorem tokens_chars : tokens p (o.chars ++ ' ' :: rest) = o.kinds.map p.token ++ tokens p (' ' :: rest) := by
  obtain ⟨level, module?, -⟩ := o
  cases module? with
  | none =>
    have hdots : tokens p (List.replicate level '.' ++ ' ' :: rest) =
        (dotKinds level).map p.token ++ tokens p (' ' :: rest) :=
      tokens_dots level (endsOp_cons (by decide) (by decide))
    simpa [chars, kinds] using hdots
  | some d =>
    have hends : EndsWord (' ' :: rest) := endsWord_cons (by decide) (by decide)
    have hdots : tokens p (List.replicate level '.' ++ (d.chars ++ ' ' :: rest)) =
        (dotKinds level).map p.token ++ tokens p (d.chars ++ ' ' :: rest) :=
      tokens_dots level d.endsOp
    simpa [chars, kinds, d.tokens_chars hends] using hdots

end Origin

/-- The names that a `from` asks for. -/
inductive Names where
  | all
  | listed (first : Binding) (more : List Binding)

namespace Names

def chars : Names → List Char
  | all => ['*']
  | listed first more => commas Binding.chars first more

def kinds : Names → List Kind
  | all => [.op "*"]
  | listed first more => commaKinds Binding.kinds first more

def texts : Names → List String
  | all => []
  | listed first more => (first :: more).map fun b => b.subject.text

theorem tokens_chars (ns : Names) : tokens p (ns.chars ++ '\n' :: rest) =
    ns.kinds.map p.token ++ tokens p ('\n' :: rest) := by
  cases ns with
  | all => exact tokens_op (isOp_of_mem (by decide)) (endsOp_cons (by decide) (by decide)) rfl
  | listed first more =>
    exact tokens_commas (fun hends b => b.tokens_chars hends) (endsWord_cons (by decide) (by decide)) first more

end Names

/-- A statement that imports. -/
inductive Leaf where
  | modules (first : Module) (more : List Module)
  | names (origin : Origin) (asked : Names)

namespace Leaf

def chars : Leaf → List Char
  | modules first more => spaced "import" (commas Module.chars first more)
  | names origin asked =>
    spaced "from" (origin.chars ++ ' ' :: spaced "import" asked.chars)

def kinds : Leaf → List Kind
  | modules first more => .keyword "import" :: commaKinds Module.kinds first more
  | names origin asked => .keyword "from" :: (origin.kinds ++ .keyword "import" :: asked.kinds)

/-- What the statement imports: each module of an `import`, or all names from one. -/
def refs (line : Nat) : Leaf → List Ref
  | modules first more => (first :: more).map fun m => ⟨line, m.subject.text, [], 0, .python⟩
  | names origin asked => [⟨line, origin.module, asked.texts, origin.level, .python⟩]

theorem tokens_chars (l : Leaf) : tokens p (l.chars ++ '\n' :: rest) =
    l.kinds.map p.token ++ tokens p ('\n' :: rest) := by
  have himport : ∀ rest, tokens p (spaced "import" rest) = p.token (.keyword "import") :: tokens p rest :=
    fun _ => tokens_spaced (by decide)
  have hfrom : ∀ rest, tokens p (spaced "from" rest) = p.token (.keyword "from") :: tokens p rest :=
    fun _ => tokens_spaced (by decide)
  cases l with
  | modules first more =>
    have hends : EndsWord ('\n' :: rest) := endsWord_cons (by decide) (by decide)
    rw [chars, kinds, spaced_append, himport, tokens_commas (fun hends m => Module.tokens_chars m hends) hends]
    rfl
  | names origin asked =>
    rw [chars, kinds]
    simp only [spaced_append, List.append_assoc, List.cons_append, List.map_append, List.map_cons]
    rw [hfrom, origin.tokens_chars, tokens_space, himport, asked.tokens_chars]

/-- From the word behind the module on, the names are read. -/
theorem run_asked {at_ level : Nat} {module : String} (ns : Names) (hfuel : ns.chars.length ≤ fuel)
    (ht : t.kind = .newline) :
    (do
      expectWord "import"
      let names ←
        if ← acceptOp "*" then pure []
        else if ← acceptOp "(" then enclosedNames fuel
        else openNames fuel
      return ⟨at_, module, names.map Name.text, level, .python⟩ : Parse Ref)
      (onLine line (.keyword "import") :: (ns.kinds.map (onLine line) ++ t :: ts)) =
      .ok (⟨at_, module, ns.texts, level, .python⟩, t :: ts) := by
  rw [expectWord, run_bind (run_expect (by rfl))]
  cases ns with
  | all =>
    show (acceptOp "*" >>= _) (onLine line (.op "*") :: t :: ts) = _
    rw [acceptOp, run_bind (run_accept (by rfl)), acceptOp, run_bind (run_accept_not (by simp [ht]))]
    rfl
  | listed first more =>
    obtain ⟨kinds, hkinds⟩ : ∃ kinds, (Names.listed first more).kinds = .name first.subject.name :: kinds := by
      cases more <;> exact ⟨_, rfl⟩
    have hread : openNames fuel ((Names.listed first more).kinds.map (onLine line) ++ t :: ts) =
        .ok ((first :: more).map fun b => b.subject.name, t :: ts) := run_openNames first more hfuel ht
    rw [hkinds, List.map_cons, List.cons_append] at hread
    rw [hkinds, List.map_cons, List.cons_append, acceptOp, run_bind (run_accept_not (by simp [onLine])),
      acceptOp, run_bind (run_accept_not (by simp [onLine]))]
    show (openNames fuel >>= _) _ = _
    rw [run_bind hread]
    simp [Names.texts, Word.name]
    rfl

theorem run_fromImport {at_ : Nat} (o : Origin) (ns : Names)
    (hfuel : (o.chars ++ ' ' :: spaced "import" ns.chars).length ≤ fuel) (ht : t.kind = .newline) :
    fromImport fuel at_ ((o.kinds ++ .keyword "import" :: ns.kinds).map (onLine line) ++ t :: ts) =
      .ok (⟨at_, o.module, ns.texts, o.level, .python⟩, t :: ts) := by
  obtain ⟨level, module?, hknown⟩ := o
  have hlevel : level ≤ fuel := by
    simp [Origin.chars] at hfuel
    omega
  have hasked : ns.chars.length ≤ fuel := by
    have := length_lt_spaced "import" ns.chars
    simp at hfuel
    omega
  rw [List.map_append, List.append_assoc, List.map_cons, List.cons_append]
  cases module? with
  | none =>
    have hkinds : Origin.kinds ⟨level, none, hknown⟩ = dotKinds level := by simp [Origin.kinds]
    rw [hkinds, fromImport, run_bind (run_leadingDots level hlevel (by simp [onLine]) (by simp [onLine])),
      run_bind run_peek, if_pos ⟨by simpa using hknown, rfl⟩, run_bind run_pure]
    exact run_asked ns hasked ht
  | some d =>
    have hkinds : Origin.kinds ⟨level, some d, hknown⟩ = dotKinds level ++ d.kinds := by simp [Origin.kinds]
    have hname : d.chars.length ≤ fuel := by
      simp [Origin.chars] at hfuel
      omega
    obtain ⟨w, kinds, hd⟩ : ∃ (w : Word) (kinds : List Kind), d.kinds = .name w.name :: kinds := by
      cases d with
      | word w => exact ⟨w, [], rfl⟩
      | dot w more => exact ⟨w, .op "." :: more.kinds, rfl⟩
    have hread : dottedName fuel (d.kinds.map (onLine line) ++
        onLine line (.keyword "import") :: (ns.kinds.map (onLine line) ++ t :: ts)) =
        .ok (d.text, onLine line (.keyword "import") :: (ns.kinds.map (onLine line) ++ t :: ts)) :=
      d.run_dottedName hname (by simp [onLine])
    rw [hd, List.map_cons, List.cons_append] at hread
    rw [hkinds, hd, List.map_append, List.append_assoc, List.map_cons, List.cons_append, fromImport,
      run_bind (run_leadingDots level hlevel (by simp [onLine]) (by simp [onLine])), run_bind run_peek,
      if_neg (by simp [onLine]), run_bind hread]
    exact run_asked ns hasked ht

/-- The parser finds what the statement imports. -/
theorem run_simpleStatement (l : Leaf) (hfuel : l.chars.length ≤ fuel) (ht : t.kind = .newline) :
    simpleStatement fuel (l.kinds.map (onLine line) ++ t :: ts) = .ok (l.refs line, t :: ts) := by
  cases l with
  | modules first more =>
    have hlist : (commas Module.chars first more).length < fuel :=
      Nat.lt_of_lt_of_le (length_lt_spaced "import" _) hfuel
    show importedModules fuel line ((commaKinds Module.kinds first more).map (onLine line) ++ t :: ts) = _
    exact run_importedModules first more hlist ht
  | names origin asked =>
    have horigin : (origin.chars ++ ' ' :: spaced "import" asked.chars).length ≤ fuel :=
      Nat.le_of_lt (Nat.lt_of_lt_of_le (length_lt_spaced "from" _) hfuel)
    show (fromImport fuel line >>= fun r => pure [r])
      ((origin.kinds ++ .keyword "import" :: asked.kinds).map (onLine line) ++ t :: ts) = _
    rw [run_bind (run_fromImport origin asked horigin ht)]
    rfl

/-- A line that holds nothing else is read as the statement. -/
theorem run_statement (l : Leaf) (hfuel : l.chars.length ≤ fuel) :
    statement (fuel + 2) (l.kinds.map (onLine line) ++ onLine line .newline :: ts) = .ok (l.refs line, ts) := by
  have hline : statement (fuel + 2) (l.kinds.map (onLine line) ++ onLine line .newline :: ts) =
      simpleStatements (fuel + 1) (l.kinds.map (onLine line) ++ onLine line .newline :: ts) := by
    cases l <;> rfl
  rw [hline, simpleStatements, run_bind (l.run_simpleStatement hfuel rfl), acceptOp,
    run_accept_else (by simp [onLine]), run_bind (run_expect (by rfl))]
  rfl

end Leaf

/-! ## What stands over a block -/

/-- The first line of a statement that has a block. -/
inductive Head where
  | conditional (w : Word)
  | loop (w : Word)
  | function (w : Word)
  | type (w : Word)

namespace Head

def chars : Head → List Char
  | conditional w => spaced "if" (w.chars ++ [':'])
  | loop w => spaced "while" (w.chars ++ [':'])
  | function w => spaced "def" (w.chars ++ ['(', ')', ':'])
  | type w => spaced "class" (w.chars ++ [':'])

def tokens (line : Nat) : Head → List Token
  | conditional w => [.keyword "if", .name w.name, .op ":"].map (onLine line)
  | loop w => [.keyword "while", .name w.name, .op ":"].map (onLine line)
  | function w =>
    [onLine line (.keyword "def"), onLine line (.name w.name), ⟨.op "(", line, 1⟩, onLine line (.op ")"),
      onLine line (.op ":")]
  | type w => [.keyword "class", .name w.name, .op ":"].map (onLine line)

theorem tokens_chars {level : Nat} (h : Head) : Indented.tokens (lineAt line level) (h.chars ++ '\n' :: rest) =
    h.tokens line ++ Indented.tokens (lineAt line level) ('\n' :: rest) := by
  have hcolon : Indented.tokens (lineAt line level) (':' :: '\n' :: rest) =
      onLine line (.op ":") :: Indented.tokens (lineAt line level) ('\n' :: rest) :=
    tokens_op (c := ':') (isOp_of_mem (by decide)) (endsOp_cons (c := '\n') (by decide) (by decide)) rfl
  have hname : ∀ w : Word, Indented.tokens (lineAt line level) (w.chars ++ ':' :: '\n' :: rest) =
      onLine line (.name w.name) :: onLine line (.op ":") :: Indented.tokens (lineAt line level) ('\n' :: rest) :=
    fun w => (w.tokens_chars (endsWord_cons (c := ':') (by decide) (by decide))).trans (congrArg _ hcolon)
  have hword : ∀ {word : String} (rest : List Char), word ∈ "as" :: openers →
      Indented.tokens (lineAt line level) (spaced word rest) =
        onLine line (.keyword word) :: Indented.tokens (lineAt line level) rest :=
    fun _ h => tokens_spaced h
  cases h with
  | conditional w | loop w | type w =>
    rw [chars, spaced_append, hword _ (by decide), List.append_assoc, List.singleton_append, hname]
    rfl
  | function w =>
    -- Behind the closing bracket the lexer is where it was in front of the opening one.
    have hleave : Place.bracket? ⟨line, marginsAt level, [('(', line)]⟩ ')' = some (lineAt line level) := rfl
    have henter : (lineAt line level).bracket? '(' = some ⟨line, marginsAt level, [('(', line)]⟩ := rfl
    have hclose : Indented.tokens ⟨line, marginsAt level, [('(', line)]⟩ (')' :: ':' :: '\n' :: rest) =
        onLine line (.op ")") :: Indented.tokens (lineAt line level) (':' :: '\n' :: rest) :=
      tokens_op (isOp_of_mem (by decide)) (endsOp_cons (by decide) (by decide)) hleave
    have hopen : Indented.tokens (lineAt line level) ('(' :: ')' :: ':' :: '\n' :: rest) =
        ⟨.op "(", line, 1⟩ ::
          Indented.tokens ⟨line, marginsAt level, [('(', line)]⟩ (')' :: ':' :: '\n' :: rest) :=
      tokens_op (isOp_of_mem (by decide)) (endsOp_cons (by decide) (by decide)) henter
    have hfunction : Indented.tokens (lineAt line level) (w.chars ++ '(' :: ')' :: ':' :: '\n' :: rest) =
        onLine line (.name w.name) :: Indented.tokens (lineAt line level) ('(' :: ')' :: ':' :: '\n' :: rest) :=
      w.tokens_chars (endsWord_cons (c := '(') (by decide) (by decide))
    rw [chars, spaced_append, hword _ (by decide), List.append_assoc]
    simp only [List.cons_append, List.nil_append, hfunction, hopen, hclose, hcolon]
    rfl

end Head

variable {refs : List Ref} {body : List Token} {u : Token}

theorem run_block {i : Token} (hbody : statements fuel body = .ok (refs, u :: ts)) (hi : i.kind = .indent)
    (hu : u.kind = .dedent) : block (fuel + 1) (onLine line .newline :: i :: body) = .ok (refs, ts) := by
  rw [block, run_accept_then (by rfl), run_accept_then hi, run_bind hbody, run_bind (run_expect hu)]
  rfl

theorem run_colonBlock {i : Token} (hbody : statements fuel body = .ok (refs, u :: ts)) (hi : i.kind = .indent)
    (hu : u.kind = .dedent) : (expectOp ":" >>= fun _ => block (fuel + 1))
      (onLine line (.op ":") :: onLine line .newline :: i :: body) = .ok (refs, ts) := by
  rw [expectOp, run_bind (run_expect (by rfl)), run_block hbody hi hu]

theorem run_otherwise (ht : t.kind ≠ .keyword "else") : otherwise (fuel + 1) (t :: ts) = .ok ([], t :: ts) := by
  rw [otherwise, acceptWord, run_accept_else ht]
  rfl

theorem run_parameters : parameters (fuel + 1) true ")" false false false false (onLine line (.op ")") :: ts) =
    .ok ((), onLine line (.op ")") :: ts) := by
  rw [parameters, run_bind run_peek]
  rfl

/-- With its block a statement reads what the block reads, unless an `elif` or an `else` comes behind. -/
theorem run_compound (h : Head) {i : Token}
    (hbody : ∀ left, fuel ≤ left → statements left body = .ok (refs, u :: t :: ts)) (hi : i.kind = .indent)
    (hu : u.kind = .dedent) (helif : t.kind ≠ .keyword "elif") (helse : t.kind ≠ .keyword "else") :
    statement (fuel + 12) (h.tokens line ++ onLine line .newline :: i :: body) = .ok (refs, t :: ts) := by
  cases h with
  | conditional w =>
    show conditional (fuel + 11) (onLine line (.name w.name) :: onLine line (.op ":") ::
      onLine line .newline :: i :: body) = _
    rw [conditional, run_bind named_name, expectOp, run_bind (run_expect (by rfl)),
      run_bind (run_block (hbody (fuel + 9) (by omega)) hi hu), acceptWord, run_accept_else helif,
      run_bind (run_otherwise helse), List.append_nil]
    rfl
  | loop w =>
    show (do
      let _ ← named (fuel + 11)
      expectOp ":"
      let refs ← block (fuel + 11)
      return refs ++ (← otherwise (fuel + 11))) (onLine line (.name w.name) :: onLine line (.op ":") ::
      onLine line .newline :: i :: body) = _
    rw [run_bind named_name, expectOp, run_bind (run_expect (by rfl)),
      run_bind (run_block (hbody (fuel + 10) (by omega)) hi hu), run_bind (run_otherwise helse),
      List.append_nil]
    rfl
  | function w =>
    show function (fuel + 11) (onLine line (.name w.name) :: ⟨.op "(", line, 1⟩ :: onLine line (.op ")") ::
      onLine line (.op ":") :: onLine line .newline :: i :: body) = _
    rw [function, run_bind (run_name (by rfl)), expectOp, run_bind (run_expect (by rfl)),
      run_bind run_parameters, expectOp, run_bind (run_expect (by rfl)), acceptOp,
      run_accept_else (by simp [onLine])]
    exact run_colonBlock (hbody (fuel + 9) (by omega)) hi hu
  | type w =>
    show (do
      let _ ← name
      if ← acceptOp "(" then arguments (fuel + 11) false
      expectOp ":"
      block (fuel + 11)) (onLine line (.name w.name) :: onLine line (.op ":") ::
      onLine line .newline :: i :: body) = _
    rw [run_bind (run_name (by rfl)), acceptOp, run_accept_else (by simp [onLine])]
    exact run_colonBlock (hbody (fuel + 10) (by omega)) hi hu

end LayerGate.Import.Indented
