import Mathlib.Data.Bool.AllAny
import Mathlib.Data.List.TakeWhile
import LayerGate.Import.Indented.Lexer

/-!
# Tokens of laid-out lines

What the lexer makes of text that is laid out with four spaces a level: words, operators and line ends
one by one, and at the start of a line the indentations that are opened or closed there.
-/

namespace LayerGate.Import.Indented

variable {p : Place} {c : Char} {cs tail rest : List Char} {kind : Kind}

/-! ## Single tokens -/

/-- A token may start with the character. -/
structure StartsToken (c : Char) : Prop where
  solid : isBlank c = false
  joins : c ≠ '\\'
  feed : c ≠ '\n'
  hash : c ≠ '#'

theorem tokens_of_scan {t : Token} {after : Place} {more : Nat} (hc : StartsToken c)
    (h : p.scan c rest = .token t after more) : tokens p (c :: rest) = t :: tokens after (rest.drop more) := by
  rw [tokens, hc.solid, h]
  · simp only [Bool.false_eq_true, if_false, if_neg hc.hash]
  · exact fun heq => absurd heq hc.joins
  · exact fun _ heq => absurd heq hc.joins
  · exact fun heq => absurd heq hc.joins
  · exact fun heq => absurd heq hc.feed

theorem tokens_space : tokens p (' ' :: rest) = tokens p rest := by
  rw [tokens]
  · rfl
  · exact fun heq => absurd heq (by decide)
  · exact fun _ heq => absurd heq (by decide)
  · exact fun heq => absurd heq (by decide)
  · exact fun heq => absurd heq (by decide)

theorem tokens_feed (h : p.brackets = []) :
    tokens p ('\n' :: rest) = p.token .newline :: lineTokens { p with line := p.line + 1 } rest := by
  rw [tokens, h]
  rfl

/-! ## Words -/

/-- The word ends here, and no quote makes it the mark of a string. -/
def EndsWord (cs : List Char) : Prop := ∀ c ∈ cs.head?, isWordChar c = false ∧ isQuote c = false

theorem startsToken_of_isWordStart (h : isWordStart c = true) : StartsToken c := by
  have hne : ∀ d, isWordStart d = false → c ≠ d := by
    rintro d hd rfl
    rw [hd] at h
    cases h
  refine ⟨?_, hne _ (by decide), hne _ (by decide), hne _ (by decide)⟩
  simp [isBlank, hne ' ' (by decide), hne '\t' (by decide), hne '\x0c' (by decide)]

/-- A word is one token. -/
theorem tokens_word (hstart : isWordStart c = true) (htail : ∀ d ∈ tail, isWordChar d = true)
    (hkind : Kind.ofWord? (c :: tail) = some kind) (hends : EndsWord rest) :
    tokens p (c :: (tail ++ rest)) = p.token kind :: tokens p rest := by
  have htake : (tail ++ rest).takeWhile isWordChar = tail := by
    rw [List.takeWhile_append_of_pos htail]
    cases rest with
    | nil => simp
    | cons d rest => simp [(hends d rfl).1]
  have hscan : p.scan c (tail ++ rest) = .token (p.token kind) p tail.length := by
    rw [Place.scan, if_pos hstart, Place.scanWord, htake, List.drop_left, hkind]
    cases marks? (c :: tail) with
    | none => rfl
    | some marks =>
      cases rest with
      | nil => rfl
      | cons d rest => simp [(hends d rfl).2]
  rw [tokens_of_scan (startsToken_of_isWordStart hstart) hscan, List.drop_left]

/-! ## Operators -/

/-- No operator and no number goes on here. -/
def EndsOp (cs : List Char) : Prop := ∀ c ∈ cs.head?, c ∉ "=*></.".toList ∧ c.isDigit = false

/-- An operator that stands alone where none goes on. -/
theorem operator_of_endsOp (h : EndsOp cs) : operator c cs = String.ofList [c] := by
  have hsecond : ∀ op ∈ threeCharOps ++ twoCharOps,
      op.toList[1]?.any "=*></.".toList.contains = true := by decide
  have hnone : ∀ op ∈ threeCharOps ++ twoCharOps, ∀ n, op ≠ String.ofList (c :: cs.take n) := by
    rintro op hop n rfl
    obtain ⟨d, hget, hd⟩ := (Option.any_eq_true ..).1 (hsecond _ hop)
    rw [List.contains_iff_mem] at hd
    rw [String.toList_ofList] at hget
    cases n with
    | zero => simp at hget
    | succ n =>
      cases cs with
      | nil => simp at hget
      | cons e cs =>
        simp only [List.take_succ_cons, List.getElem?_cons_succ, List.getElem?_cons_zero,
          Option.some.injEq] at hget
        exact (h e rfl).1 (hget ▸ hd)
  rw [operator, if_neg, if_neg]
  · intro hin
    rw [List.contains_iff_mem] at hin
    exact hnone _ (List.mem_append_right _ hin) 1 rfl
  · intro hin
    rw [List.contains_iff_mem] at hin
    exact hnone _ (List.mem_append_left _ hin) 2 rfl

/-- What makes a character an operator of its own. -/
structure IsOp (c : Char) : Prop where
  starts : StartsToken c
  noWord : isWordStart c = false
  noDigit : c.isDigit = false
  noQuote : isQuote c = false
  printable : Text.isPrintable c = true

theorem isOp_of_mem (h : c ∈ ".,:*()".toList) : IsOp c := by
  have hall : ∀ d ∈ ".,:*()".toList, (isBlank d = false ∧ d ≠ '\\' ∧ d ≠ '\n' ∧ d ≠ '#') ∧
      isWordStart d = false ∧ d.isDigit = false ∧ isQuote d = false ∧ Text.isPrintable d = true :=
    List.all_iff_forall_prop.1 (by decide)
  obtain ⟨⟨hblank, hjoins, hfeed, hhash⟩, hword, hdigit, hquote, hprintable⟩ := hall c h
  exact ⟨⟨hblank, hjoins, hfeed, hhash⟩, hword, hdigit, hquote, hprintable⟩

theorem isOp_dot : IsOp '.' := isOp_of_mem (by decide)

theorem not_number_of_endsOp (hdigit : c.isDigit = false) (h : EndsOp cs) :
    ¬ (c.isDigit = true ∨ (c = '.' ∧ cs.head?.any Char.isDigit = true)) := by
  rintro (hc | ⟨-, hnext⟩)
  · rw [hdigit] at hc
    cases hc
  · obtain ⟨d, hd, hdigit⟩ := (Option.any_eq_true ..).1 hnext
    rw [(h d hd).2] at hdigit
    cases hdigit

theorem tokens_op {after : Place} (hop : IsOp c) (hends : EndsOp rest) (hafter : p.bracket? c = some after) :
    tokens p (c :: rest) = after.token (.op (String.ofList [c])) :: tokens after rest := by
  have hscan : p.scan c rest = .token (after.token (.op (String.ofList [c]))) after 0 := by
    rw [Place.scan, if_neg (by simp [hop.noWord]),
      if_neg (not_number_of_endsOp hop.noDigit hends), if_neg (by simp [hop.noQuote]),
      operator_of_endsOp hends, hafter]
    simp [hop.printable]
  rw [tokens_of_scan hop.starts hscan, List.drop_zero]

/-! ## Dots -/

/-- A run of dots is read by threes. -/
def dotKinds : Nat → List Kind
  | 0 => []
  | 1 => [.op "."]
  | 2 => [.op ".", .op "."]
  | n + 3 => .op "..." :: dotKinds n

/-- An operator of dots is read as it is. -/
theorem scan_dot {symbol : String} (hdigit : cs.head?.any Char.isDigit = false)
    (hop : operator '.' cs = symbol) :
    p.scan '.' cs = .token (p.token (.op symbol)) p (symbol.length - 1) := by
  have hnumber : ¬ ('.'.isDigit = true ∨ ('.' = '.' ∧ cs.head?.any Char.isDigit = true)) := by
    rw [hdigit]
    decide
  rw [Place.scan, if_neg (by decide), if_neg hnumber, if_neg (by decide), hop]
  by_cases hone : symbol.length = 1
  · simp only [hone, if_true, show p.bracket? '.' = some p from rfl, isOp_dot.printable]
  · simp only [if_neg hone]

theorem tokens_two_dots (hends : EndsOp rest) :
    tokens p ('.' :: '.' :: rest) = p.token (.op ".") :: tokens p ('.' :: rest) := by
  have hthree : threeCharOps.contains (String.ofList ('.' :: ('.' :: rest).take 2)) = false := by
    cases rest with
    | nil => decide
    | cons d rest =>
      have hd : d ≠ '.' := by
        rintro rfl
        exact absurd (hends '.' rfl).1 (by decide)
      simp [threeCharOps, ← String.toList_inj, hd]
  have hop : operator '.' ('.' :: rest) = "." := by
    rw [operator, hthree]
    rfl
  rw [tokens_of_scan isOp_dot.starts (scan_dot (by rfl) hop)]
  rfl

theorem tokens_ellipsis : tokens p ('.' :: '.' :: '.' :: rest) = p.token (.op "...") :: tokens p rest := by
  have hop : operator '.' ('.' :: '.' :: rest) = "..." := by
    rw [operator, List.take_succ_cons, List.take_succ_cons, List.take_zero]
    rfl
  rw [tokens_of_scan isOp_dot.starts (scan_dot (by rfl) hop)]
  rfl

theorem tokens_dots (n : Nat) (hends : EndsOp rest) :
    tokens p (List.replicate n '.' ++ rest) = (dotKinds n).map p.token ++ tokens p rest := by
  have hone : tokens p ('.' :: rest) = p.token (.op ".") :: tokens p rest := tokens_op isOp_dot hends rfl
  induction n using dotKinds.induct with
  | case1 => rfl
  | case2 => exact hone
  | case3 => exact (tokens_two_dots hends).trans (congrArg _ hone)
  | case4 n ih => exact tokens_ellipsis.trans (congrArg _ ih)

/-! ## Margins -/

/-- The margins of text that is indented so many levels. -/
def marginsAt : Nat → List (Nat × Nat)
  | 0 => []
  | level + 1 => (4 * (level + 1), 4 * (level + 1)) :: marginsAt level

/-- The start of a line within text of a level. -/
def lineAt (line level : Nat) : Place := ⟨line, marginsAt level, []⟩

variable {line level : Nat}

theorem length_marginsAt (level : Nat) : (marginsAt level).length = level := by
  induction level with
  | zero => rfl
  | succ level ih => rw [marginsAt, List.length_cons, ih]

theorem column_lineAt : (lineAt line level).column = (4 * level, 4 * level) := by
  cases level <;> rfl

theorem indent_same : (lineAt line level).indent (4 * level) (4 * level) = .ok ([], marginsAt level) := by
  rw [Place.indent, column_lineAt]
  simp [lineAt]

theorem indent_deeper (h : level < 99) : (lineAt line level).indent (4 * (level + 1)) (4 * (level + 1)) =
    .ok ([.indent], marginsAt (level + 1)) := by
  have hroom : ¬ maxMargins ≤ (lineAt line level).margins.length + 1 := by
    rw [lineAt, length_marginsAt, maxMargins]
    omega
  rw [Place.indent, column_lineAt]
  simp only [if_neg (show ¬ 4 * (level + 1) = 4 * level by omega),
    if_pos (show 4 * level < 4 * (level + 1) by omega), if_neg hroom,
    if_neg (show ¬ 4 * (level + 1) ≤ 4 * level by omega)]
  rfl

/-- Margins that are left behind, and the others. -/
theorem span_marginsAt (level more : Nat) :
    ((marginsAt (level + more)).takeWhile fun m => 4 * level < m.1).length = more ∧
      ((marginsAt (level + more)).dropWhile fun m => 4 * level < m.1) = marginsAt level := by
  induction more with
  | zero => cases level <;> simp [marginsAt]
  | succ more ih =>
    have hdeeper : 4 * level < 4 * (level + more + 1) := by omega
    rw [← Nat.add_assoc, marginsAt]
    simp [hdeeper, ih]

theorem indent_back (more : Nat) : (lineAt line (level + more)).indent (4 * level) (4 * level) =
    .ok (List.replicate more .dedent, marginsAt level) := by
  cases more with
  | zero => exact indent_same
  | succ more =>
    obtain ⟨hclosed, hkept⟩ := span_marginsAt level (more + 1)
    have hcolumn : (marginsAt level).head?.getD (0, 0) = (4 * level, 4 * level) :=
      @column_lineAt line level
    rw [Place.indent, column_lineAt]
    simp only [if_neg (show ¬ 4 * level = 4 * (level + (more + 1)) by omega),
      if_neg (show ¬ 4 * (level + (more + 1)) < 4 * level by omega)]
    simp only [lineAt, hkept, hcolumn, ne_eq, not_true_eq_false, if_false, List.map_const', hclosed]

theorem margin_spaces {column narrow : Nat} (n : Nat) (hc : StartsToken c) :
    margin column narrow 0 0 (List.replicate n ' ' ++ c :: cs) =
      .found (column + n) (narrow + n) 0 (c :: cs) := by
  obtain ⟨⟨hspace, htab⟩, hfeed⟩ : (c ≠ ' ' ∧ c ≠ '\t') ∧ c ≠ '\x0c' := by
    simpa [isBlank] using hc.solid
  induction n generalizing column narrow with
  | zero =>
    rw [List.replicate_zero, List.nil_append, margin]
    · rfl
    · exact fun _ heq => absurd (List.cons.inj heq).1 hspace
    · exact fun _ heq => absurd (List.cons.inj heq).1 htab
    · exact fun _ heq => absurd (List.cons.inj heq).1 hfeed
    · exact fun heq => absurd (List.cons.inj heq).1 hc.joins
    · exact fun _ heq => absurd (List.cons.inj heq).1 hc.joins
    · exact fun _ heq => absurd (List.cons.inj heq).1 hc.joins
  | succ n ih =>
    rw [List.replicate_succ, List.cons_append, margin, ih]
    congr 1 <;> omega

/-- At the start of a line the indentation is told, and then what the line holds. -/
theorem lineTokens_indented {n : Nat} {kinds : List Kind} {margins : List (Nat × Nat)}
    (hc : StartsToken c) (hbrackets : p.brackets = []) (hindent : p.indent n n = .ok (kinds, margins)) :
    lineTokens p (List.replicate n ' ' ++ c :: cs) =
      kinds.map { p with margins := margins }.token ++ tokens { p with margins := margins } (c :: cs) := by
  obtain ⟨line, before, brackets⟩ := p
  cases hbrackets
  have hmargin : margin 0 0 0 0 (List.replicate n ' ' ++ c :: cs) = .found n n 0 (c :: cs) := by
    rw [margin_spaces n hc, Nat.zero_add]
  have hhash : ¬ (c = '\n' ∨ c = '#') := by
    rintro (h | h)
    · exact hc.feed h
    · exact hc.hash h
  rw [lineTokens]
  split
  · rename_i hstray
    rw [hmargin] at hstray
    cases hstray
  · rename_i hstray
    rw [hmargin] at hstray
    cases hstray
  · rename_i column narrow joined rest hfound
    rw [hmargin] at hfound
    obtain ⟨rfl, rfl, rfl, rfl⟩ := Margin.found.inj hfound
    simp only [if_neg hhash, Nat.add_zero, List.isEmpty_nil, if_true, hindent]

theorem lineTokens_nil (h : p.brackets = []) : lineTokens p [] =
    (p.margins.map fun _ => ({ p with line := p.line - 1 } : Place).token .dedent) ++
      [({ p with line := p.line - 1 } : Place).token .finish] := by
  rw [lineTokens]
  split
  · rename_i hstray
    simp [margin] at hstray
  · rename_i hstray
    simp [margin] at hstray
  · rename_i column narrow joined rest hfound
    rw [margin] at hfound
    · obtain ⟨-, -, rfl, rfl⟩ := Margin.found.inj hfound
      simp [h]
    · simp
    · simp
    · simp
    · simp
    · simp
    · simp

end LayerGate.Import.Indented
