import LayerGate.Proofs.WebStatements

/-!
# Specifiers and literals

Where the reader finds a specifier, a literal opens in the text.  The specifier is the content of that
literal if the quote that ends it is the one that opened it, and if nothing between them was blanked;
otherwise the literal is another one, or there is none.
-/

namespace LayerGate.Import.Web

open Text (isBlank isWord)

variable {c quote closing : Char} {cs front body content out rest : List Char} {mode : Mode}

/-! ## Literals of a text -/

/-- The content of the literal whose opening quote stands at `start`: up to the next such quote. -/
def literalAt? (text : List Char) (start : Nat) : Option (List Char) :=
  match text.drop start with
  | [] => none
  | quote :: cs =>
    if isStringQuote quote ∧ quote ∈ cs then some (cs.takeWhile fun c => c ≠ quote) else none

theorem takeWhile_ne (h : quote ∉ content) :
    (content ++ quote :: rest).takeWhile (fun c => c ≠ quote) = content := by
  have hne : ∀ c ∈ content, decide (c ≠ quote) = true := by
    rintro c hc
    rw [decide_eq_true_eq]
    rintro rfl
    exact h hc
  rw [List.takeWhile_append_of_pos hne]
  simp

theorem literalAt?_eq_some_iff {text : List Char} {start : Nat} :
    literalAt? text start = some content ↔ ∃ quote rest, isStringQuote quote = true ∧
      text.drop start = quote :: (content ++ quote :: rest) ∧ quote ∉ content := by
  unfold literalAt?
  constructor
  · intro h
    split at h
    · cases h
    · rename_i quote cs hdrop
      split at h
      · rename_i hfits
        obtain ⟨content', rest, rfl, hplain⟩ := List.eq_append_cons_of_mem hfits.2
        rw [takeWhile_ne hplain] at h
        obtain rfl := Option.some.inj h
        exact ⟨quote, rest, hfits.1, hdrop, hplain⟩
      · cases h
  · rintro ⟨quote, rest, hquote, hdrop, hplain⟩
    rw [hdrop]
    show (if _ then some _ else none) = _
    rw [takeWhile_ne hplain, if_pos ⟨hquote, by simp⟩]

/-! ## Where specifiers stand -/

/-- Where an import stands: the line of its keyword, and the specifier with its quotes. -/
structure Site where
  line : Int
  start : Nat
  size : Nat

/-- What a text has there. -/
def Site.piece (s : Site) (cs : List Char) : List Char := (cs.drop s.start).take s.size

/-- What stands between the quotes. -/
def Site.name (s : Site) (cs : List Char) : List Char := Text.trim isBlank (s.piece cs).tail.dropLast

def Site.ref (s : Site) (cs : List Char) : Ref := ⟨s.line, String.ofList (s.name cs), [], 0, .javascript⟩

/-- The places of the imports in a text whose comments are blanked, the text standing at `start`. -/
def sitesFrom (line : Int) (start : Nat) (inWord : Bool) : List Char → List Site
  | [] => []
  | c :: cs =>
    match if inWord then none else clause? (c :: cs) with
    | none => sitesFrom (if c = '\n' then line + 1 else line) (start + 1) (isWord c) cs
    | some (body, n) =>
      let later := sitesFrom (line + countLines (c :: cs.take (n - 1))) (start + 1 + (n - 1)) false
        (cs.drop (n - 1))
      if (Text.trim isBlank body).isEmpty then later
      else ⟨line, start + (n - (body.length + 2)), body.length + 2⟩ :: later
termination_by cs => cs.length
decreasing_by all_goals (simp; try omega)

def sites (source : String) : List Site := sitesFrom 1 0 false (blankComments source.toList)

/-- What the reader makes sure of where it finds a specifier. -/
structure Site.Fits (s : Site) (code : List Char) (opening : Char) (body : List Char) (closing : Char)
    (rest : List Char) : Prop where
  drop_start : code.drop s.start = opening :: (body ++ closing :: rest)
  size : s.size = body.length + 2
  opening : isStringQuote opening = true
  closing : isStringQuote closing = true
  specifier : IsSpecifier body
  named : Text.trim isBlank body ≠ []

variable {s : Site} {code : List Char} {opening : Char}

theorem Site.piece_of_drop (hdrop : cs.drop s.start = opening :: (body ++ closing :: rest))
    (hsize : s.size = body.length + 2) : s.piece cs = opening :: (body ++ [closing]) := by
  have hlength : s.size = (opening :: (body ++ [closing])).length := by simp [hsize]
  have happend : opening :: (body ++ closing :: rest) = opening :: (body ++ [closing]) ++ rest := by simp
  rw [Site.piece, hdrop, happend, hlength, List.take_left]

theorem Site.Fits.piece (h : s.Fits code opening body closing rest) :
    s.piece code = opening :: (body ++ [closing]) :=
  s.piece_of_drop h.drop_start h.size

theorem Site.Fits.name (h : s.Fits code opening body closing rest) :
    s.name code = Text.trim isBlank body := by
  rw [Site.name, h.piece]
  simp

/-- A site of an import that is read at `start`. -/
theorem fits_of_clause? {line : Int} {start n : Nat} (hcode : code.drop start = cs)
    (h : clause? cs = some (body, n)) (hnamed : Text.trim isBlank body ≠ []) :
    ∃ opening closing rest, Site.Fits ⟨line, start + (n - (body.length + 2)), body.length + 2⟩ code
      opening body closing rest := by
  obtain ⟨before, later, m, hcs, hspecifier, rfl⟩ := clause?_eq_some h
  obtain ⟨opening, closing, rest, rfl, hopening, hclosing, hbody, rfl⟩ :=
    specifier?_eq_some_iff.1 hspecifier
  refine ⟨opening, closing, rest, ⟨?_, rfl, hopening, hclosing, hbody, hnamed⟩⟩
  show code.drop (start + (before.length + (body.length + 2) - (body.length + 2))) = _
  rw [Nat.add_sub_cancel, ← List.drop_drop, hcode, hcs, List.drop_left]

/-- The imports are what stands at the sites, and each site fits. -/
theorem importsFrom_eq_map_sitesFrom {line : Int} {start : Nat} {inWord : Bool}
    (hcode : code.drop start = cs) :
    importsFrom line inWord cs = (sitesFrom line start inWord cs).map (fun s => s.ref code) ∧
      ∀ s ∈ sitesFrom line start inWord cs,
        ∃ opening body closing rest, s.Fits code opening body closing rest := by
  fun_induction sitesFrom line start inWord cs with
  | case1 => simp [importsFrom]
  | case2 line start inWord c cs hnone ih =>
    simp only [dite_eq_ite] at hnone ih
    rw [importsFrom, hnone]
    exact ih (by rw [← List.drop_drop, hcode]; rfl)
  | case3 line start inWord c cs body n hsome later hblank ih =>
    simp only [dite_eq_ite] at hsome
    rw [importsFrom, hsome]
    show (if _ then _ else _) = _ ∧ _
    rw [if_pos hblank]
    exact ih (by rw [← List.drop_drop, ← List.drop_drop, hcode]; rfl)
  | case4 line start inWord c cs body n hsome later hblank ih =>
    simp only [dite_eq_ite] at hsome
    have hclause : clause? (c :: cs) = some (body, n) := by
      split at hsome
      · cases hsome
      · exact hsome
    have hnamed : Text.trim isBlank body ≠ [] := by simpa using hblank
    obtain ⟨opening, closing, rest, hfits⟩ := fits_of_clause? hcode hclause hnamed
    obtain ⟨himports, hlater⟩ := ih (by rw [← List.drop_drop, ← List.drop_drop, hcode]; rfl)
    refine ⟨?_, ?_⟩
    · rw [importsFrom, hsome]
      show (if _ then _ else _) = _
      rw [if_neg hblank, himports, List.map_cons, Site.ref, hfits.name]
    · intro s hs
      rcases List.mem_cons.1 hs with rfl | hs
      · exact ⟨opening, body, closing, rest, hfits⟩
      · exact hlater s hs

/-! ## Blanking behind a quote -/

theorem isQuote_blank (c : Char) : isQuote (blank c) = false := by
  unfold blank
  split <;> decide

/-- A quote that is left in place does not stand in a comment, and no comment runs on behind it. -/
theorem blankFrom_behind_quote (mode : Mode) (cs : List Char) {n : Nat}
    (hquote : isQuote quote = true) (hdrop : (blankFrom mode cs).drop n = quote :: out) :
    ∃ rest mode', cs.drop n = quote :: rest ∧ ¬ mode'.IsComment ∧ out = blankFrom mode' rest := by
  have hcode : ¬ Mode.code.IsComment := by rintro (h | h) <;> cases h
  have hliteral : ∀ q, ¬ (Mode.literal q).IsComment := by rintro q (h | h) <;> cases h
  -- A blank is no quote, so the quote stands further on.
  have hblank : ∀ c {out'}, blank c :: out' ≠ quote :: out := by
    intro c out' heq
    rw [← (List.cons.inj heq).1, isQuote_blank] at hquote
    cases hquote
  have hspace : ∀ {out'}, ' ' :: out' ≠ quote :: out := hblank 'x'
  fun_induction blankFrom mode cs generalizing n with
  | case1 => simp at hdrop
  | case2 cs ih | case3 cs ih | case9 cs ih =>
    rcases n with _ | _ | n
    · exact absurd hdrop hspace
    · exact absurd hdrop hspace
    · exact ih hdrop
  | case4 c cs _ _ _ ih =>
    rcases n with _ | n
    · obtain ⟨rfl, rfl⟩ := List.cons.inj hdrop
      exact ⟨cs, _, rfl, hliteral c, rfl⟩
    · exact ih hdrop
  | case5 c cs _ _ _ ih =>
    rcases n with _ | n
    · obtain ⟨rfl, rfl⟩ := List.cons.inj hdrop
      exact ⟨cs, _, rfl, hcode, rfl⟩
    · exact ih hdrop
  | case6 q c cs ih =>
    rcases n with _ | _ | n
    · obtain ⟨rfl, -⟩ := List.cons.inj hdrop
      exact absurd hquote (by decide)
    · obtain ⟨rfl, rfl⟩ := List.cons.inj hdrop
      exact ⟨cs, _, rfl, hliteral q, rfl⟩
    · exact ih hdrop
  | case7 q c cs _ ih =>
    rcases n with _ | n
    · obtain ⟨rfl, rfl⟩ := List.cons.inj hdrop
      refine ⟨cs, _, rfl, ?_, rfl⟩
      split
      · exact hcode
      · exact hliteral q
    · exact ih hdrop
  | case8 c cs ih | case10 c cs _ ih =>
    rcases n with _ | n
    · exact absurd hdrop (hblank c)
    · exact ih hdrop

/-- A text and what blanking makes of it agree, at least up to the first comment. -/
inductive AgreesToComment : List Char → List Char → Prop
  | whole (cs : List Char) : AgreesToComment cs cs
  | comment {c : Char} {rest out : List Char} (front : List Char) : c = '*' ∨ c = '/' →
      HasNoComment out → AgreesToComment (front ++ '/' :: c :: rest) (front ++ ' ' :: ' ' :: out)

theorem AgreesToComment.cons (h : AgreesToComment cs out) (c : Char) :
    AgreesToComment (c :: cs) (c :: out) := by
  cases h with
  | whole => exact .whole _
  | comment front hd hout => exact .comment (c :: front) hd hout

theorem agreesToComment_blankFrom (mode : Mode) (cs : List Char) (hmode : ¬ mode.IsComment) :
    AgreesToComment cs (blankFrom mode cs) := by
  have hcode : ¬ Mode.code.IsComment := by rintro (h | h) <;> cases h
  have hliteral : ∀ q, ¬ (Mode.literal q).IsComment := by rintro q (h | h) <;> cases h
  fun_induction blankFrom mode cs with
  | case1 => exact .whole []
  | case2 cs _ => exact .comment [] (.inl rfl) (blanked_blankFrom .blockComment cs (by simp))
  | case3 cs _ => exact .comment [] (.inr rfl) (blanked_blankFrom .lineComment cs (by simp))
  | case4 c cs _ _ _ ih => exact (ih (hliteral c)).cons c
  | case5 c cs _ _ _ ih => exact (ih hcode).cons c
  | case6 q c cs ih => exact ((ih (hliteral q)).cons c).cons '\\'
  | case7 q c cs _ ih =>
    refine (ih ?_).cons c
    split
    · exact hcode
    · exact hliteral q
  | case8 c cs _ => exact absurd (.inl rfl) hmode
  | case9 cs _ => exact absurd (.inr rfl) hmode
  | case10 c cs _ _ => exact absurd (.inr rfl) hmode

/-! ## Blanks at the ends -/

theorem trim_prefix_dropWhile (p : Char → Bool) (cs : List Char) : Text.trim p cs <+: cs.dropWhile p := by
  obtain ⟨tail, htail⟩ := List.dropWhile_suffix p (l := (cs.dropWhile p).reverse)
  refine ⟨tail.reverse, ?_⟩
  rw [Text.trim, ← List.reverse_append, htail, List.reverse_reverse]

/-- Up to a character that is not trimmed, only the front is. -/
theorem dropWhile_prefix_trim {p : Char → Bool} (hc : p c = false) (front rest : List Char) :
    (front ++ [c]).dropWhile p <+: Text.trim p (front ++ c :: rest) := by
  obtain ⟨kept, hkept⟩ : ∃ kept, (front ++ [c]).dropWhile p = kept ++ [c] := by
    rw [List.dropWhile_append]
    split
    · exact ⟨[], by simp [hc]⟩
    · exact ⟨_, rfl⟩
  have hdrop : (front ++ c :: rest).dropWhile p = kept ++ c :: rest := by
    rw [← List.singleton_append, ← List.append_assoc, List.dropWhile_append, hkept]
    simp
  have hback : (kept ++ c :: rest).reverse.dropWhile p = rest.reverse.dropWhile p ++ c :: kept.reverse := by
    rw [List.reverse_append, List.reverse_cons, List.append_assoc, List.dropWhile_append]
    split
    · rename_i hempty
      rw [List.isEmpty_iff.1 hempty, List.singleton_append, List.dropWhile_cons, hc]
      rfl
    · rfl
  rw [Text.trim, hdrop, hback, hkept]
  simp

theorem mem_trim {p : Char → Bool} (hc : p c = false) (h : c ∈ cs) : c ∈ Text.trim p cs := by
  obtain ⟨front, rest, rfl⟩ := List.append_of_mem h
  refine (dropWhile_prefix_trim hc front rest).subset ?_
  rw [List.dropWhile_append]
  split
  · simp [hc]
  · exact List.mem_append_right _ (List.mem_singleton_self c)

theorem mem_of_mem_trim {p : Char → Bool} (h : c ∈ Text.trim p cs) : c ∈ cs :=
  (List.dropWhile_sublist p).subset ((trim_prefix_dropWhile p cs).subset h)

theorem HasNoComment.not_opensComment (h : HasNoComment cs) : ¬ OpensComment cs := by
  cases h with
  | nil => rintro (h | h) <;> simp at h
  | code hopens => exact hopens
  | literal hquote => exact not_opensComment_of_isQuote hquote

theorem HasNoComment.dropWhile_isBlank (h : HasNoComment cs) : HasNoComment (cs.dropWhile isBlank) := by
  induction h with
  | nil => exact .nil
  | @code c cs hopens hquote hrest ih =>
    rw [List.dropWhile_cons]
    split
    · exact ih
    · exact .code hopens hquote hrest
  | @literal quote body cs hquote hbody hrest _ =>
    have hkept : isBlank quote = false := by
      simp only [isQuote, Bool.or_eq_true, decide_eq_true_eq] at hquote
      rcases hquote with (rfl | rfl) | rfl <;> decide
    rw [List.cons_append, List.dropWhile_cons, hkept]
    exact .literal hquote hbody hrest

/-! ## When the two agree -/

/-- No quotes stand in the text. -/
def Unquoted (cs : List Char) : Prop := ∀ c ∈ cs, isStringQuote c = false

/-- The first quote and what stands in front of it are determined. -/
theorem eq_of_unquoted {a b x y : List Char} {q r : Char} (ha : Unquoted a) (hb : Unquoted b)
    (hq : isStringQuote q = true) (hr : isStringQuote r = true) (h : a ++ q :: x = b ++ r :: y) :
    a = b ∧ q = r := by
  have htake : ∀ {a x : List Char} {q : Char}, Unquoted a → isStringQuote q = true →
      (a ++ q :: x).takeWhile (fun c => !isStringQuote c) = a := by
    intro a x q ha hq
    rw [List.takeWhile_append_of_pos fun c hc => by simp [ha c hc]]
    simp [hq]
  obtain rfl : a = b := by rw [← htake ha hq, h, htake hb hr]
  exact ⟨rfl, (List.cons.inj (List.append_cancel_left h)).1⟩

/-- Text without quotes stands in front of the first one. -/
theorem exists_eq_append_of_unquoted {a b x y : List Char} {q : Char} (ha : Unquoted a)
    (hq : isStringQuote q = true) (h : a ++ x = b ++ q :: y) : ∃ c, b = a ++ c ∧ x = c ++ q :: y := by
  rcases List.append_eq_append_iff.1 h with ⟨c, hb, hx⟩ | ⟨c, rfl, hc⟩
  · exact ⟨c, hb, hx⟩
  · cases c with
    | nil => exact ⟨[], by simp, hc.symm⟩
    | cons d c =>
      obtain ⟨rfl, -⟩ := List.cons.inj hc
      rw [ha q (by simp)] at hq
      cases hq

theorem exists_first_quote (h : ¬ Unquoted cs) :
    ∃ a q x, cs = a ++ q :: x ∧ Unquoted a ∧ isStringQuote q = true := by
  induction cs with
  | nil => exact absurd (fun _ hc => nomatch hc) h
  | cons c cs ih =>
    by_cases hc : isStringQuote c = true
    · exact ⟨[], c, cs, rfl, List.forall_mem_nil _, hc⟩
    · rw [Bool.not_eq_true] at hc
      obtain ⟨a, q, x, rfl, ha, hq⟩ := ih fun hcs => h (List.forall_mem_cons.2 ⟨hc, hcs⟩)
      exact ⟨c :: a, q, x, rfl, List.forall_mem_cons.2 ⟨hc, ha⟩, hq⟩

/-- If a comment starts between the quotes, blanking it shows. -/
theorem trim_ne_of_comment {tail : List Char} (hc : c = '*' ∨ c = '/') (hout : HasNoComment out)
    (htail : tail <+: out) :
    Text.trim isBlank (front ++ '/' :: c :: rest) ≠ Text.trim isBlank (front ++ ' ' :: ' ' :: tail) := by
  intro heq
  have hkept : isBlank c = false := by rcases hc with rfl | rfl <;> decide
  have hopens : (front ++ ['/', c]).dropWhile isBlank <+:
      (front ++ ' ' :: ' ' :: tail).dropWhile isBlank := by
    have hprefix := dropWhile_prefix_trim hkept (front ++ ['/']) rest
    simp only [List.append_assoc, List.cons_append, List.nil_append] at hprefix
    rw [heq] at hprefix
    exact hprefix.trans (trim_prefix_dropWhile isBlank _)
  rw [List.dropWhile_append, List.dropWhile_append] at hopens
  split at hopens
  · -- Only blanks in front: then a comment is left behind the blanked one.
    have hleft : ['/', c].dropWhile isBlank = ['/', c] := by
      rw [List.dropWhile_cons_of_neg (by decide)]
    have hright : (' ' :: ' ' :: tail).dropWhile isBlank = tail.dropWhile isBlank := by
      rw [List.dropWhile_cons_of_pos (by decide), List.dropWhile_cons_of_pos (by decide)]
    rw [hleft, hright] at hopens
    obtain ⟨more, rfl⟩ := htail
    have hcomment : ['/', c] <+: (tail ++ more).dropWhile isBlank := by
      rw [List.dropWhile_append]
      split
      · rename_i hempty
        rw [List.isEmpty_iff.1 hempty] at hopens
        simp at hopens
      · exact hopens.trans (List.prefix_append ..)
    have hnone := hout.dropWhile_isBlank.not_opensComment
    rcases hc with rfl | rfl
    · exact hnone (.inl hcomment)
    · exact hnone (.inr hcomment)
  · -- Otherwise the slash stands against a blank.
    rw [List.prefix_append_right_inj, List.cons_prefix_cons] at hopens
    exact absurd hopens.1 (by decide)

/-- What is read as a specifier in the blanked text has the text of the literal that opens in the
text, only if nothing of the literal was blanked and the quotes that end them are one. -/
theorem eq_of_same_trim {closing : Char} {later : List Char} (hagree : AgreesToComment cs out)
    (hcs : cs = content ++ quote :: rest) (hquote : isStringQuote quote = true)
    (hout : out = body ++ closing :: later) (hclosing : isStringQuote closing = true)
    (hbody : Unquoted body) (htrim : Text.trim isBlank content = Text.trim isBlank body) :
    content = body ∧ quote = closing := by
  have hcontent : Unquoted content := by
    intro c hc
    by_contra hquoted
    rw [Bool.not_eq_false] at hquoted
    have hmem : c ∈ Text.trim isBlank content := mem_trim (isBlank_of_isStringQuote hquoted) hc
    rw [htrim] at hmem
    rw [hbody c (mem_of_mem_trim hmem)] at hquoted
    cases hquoted
  cases hagree with
  | whole => exact eq_of_unquoted hcontent hbody hquote hclosing (hcs.symm.trans hout)
  | @comment d after blanked front hd hnone =>
    by_cases hfront : Unquoted front
    · -- The comment starts between the quotes.
      exfalso
      have hslashes : Unquoted ['/', d] := by
        rcases hd with rfl | rfl <;> exact List.all_iff_forall_prop.1 (by decide)
      have hspaces : Unquoted [' ', ' '] := List.all_iff_forall_prop.1 (by decide)
      have hopening : Unquoted (front ++ ['/', d]) := List.forall_mem_append.2 ⟨hfront, hslashes⟩
      have hblanks : Unquoted (front ++ [' ', ' ']) := List.forall_mem_append.2 ⟨hfront, hspaces⟩
      obtain ⟨content', rfl, -⟩ := exists_eq_append_of_unquoted hopening hquote (by simpa using hcs)
      obtain ⟨body', rfl, hblanked⟩ := exists_eq_append_of_unquoted hblanks hclosing (by simpa using hout)
      simp only [List.append_assoc, List.cons_append, List.nil_append] at htrim
      exact trim_ne_of_comment hd hnone (hblanked ▸ List.prefix_append ..) htrim
    · -- The quotes stand in front of the comment, where both texts agree.
      obtain ⟨a, q, x, rfl, ha, hq⟩ := exists_first_quote hfront
      rw [List.append_assoc, List.cons_append] at hcs hout
      obtain ⟨rfl, rfl⟩ := eq_of_unquoted ha hcontent hq hquote hcs
      exact eq_of_unquoted hcontent hbody hq hclosing hout

/-! ## The specifiers of a text -/

/-- The reader takes the literal that opens at a site, up to blanks at its ends, if and only if the
same quote ends what it takes and nothing of it is blanked. -/
theorem literalAt?_iff_of_fits {s : Site} {text : List Char}
    (h : s.Fits (blankComments text) opening body closing rest) :
    (∃ content, literalAt? text s.start = some content ∧
        Text.trim isBlank content = s.name (blankComments text)) ↔
      (s.piece (blankComments text)).head? = (s.piece (blankComments text)).getLast? ∧
        s.piece text = s.piece (blankComments text) := by
  have hends : (opening :: (body ++ [closing])).head? = (opening :: (body ++ [closing])).getLast? ↔
      opening = closing := by
    rw [← List.cons_append, List.getLast?_concat]
    simp
  have hunquoted : Unquoted body := fun c hc => (h.specifier.plain c hc).1
  rw [h.name, h.piece, hends]
  constructor
  · rintro ⟨content, hliteral, htrim⟩
    obtain ⟨quote, later, hquote, hdrop, hplain⟩ := literalAt?_eq_some_iff.1 hliteral
    -- The opening quote is left in place, so the text goes on outside of comments.
    obtain ⟨behind, mode, htext, hmode, hblanked⟩ :=
      blankFrom_behind_quote .code text (isQuote_of_isStringQuote h.opening) h.drop_start
    obtain ⟨rfl, hbehind⟩ := List.cons.inj (htext.symm.trans hdrop)
    obtain ⟨rfl, rfl⟩ := eq_of_same_trim (agreesToComment_blankFrom mode behind hmode) hbehind hquote
      hblanked.symm h.closing hunquoted htrim
    refine ⟨rfl, ?_⟩
    exact s.piece_of_drop hdrop h.size
  · rintro ⟨rfl, hpiece⟩
    refine ⟨body, literalAt?_eq_some_iff.2 ⟨opening, (text.drop s.start).drop s.size, h.opening, ?_, ?_⟩, rfl⟩
    · calc text.drop s.start = s.piece text ++ (text.drop s.start).drop s.size :=
            (List.take_append_drop ..).symm
        _ = opening :: (body ++ opening :: (text.drop s.start).drop s.size) := by
            rw [hpiece, List.cons_append, List.append_assoc, List.singleton_append]
    · intro hin
      have hplain := hunquoted opening hin
      rw [h.opening] at hplain
      cases hplain

theorem imports_head {source : String} (s : Statement) (h : source.toList = s.head) :
    imports source = [s.ref 1] := by
  rw [imports, blankComments, h, ← List.append_nil s.head, s.blankFrom_head, s.importsFrom_head, blankFrom,
    importsFrom]

theorem imports_doubleQuoted {name : String}
    (hplain : ∀ c ∈ name.toList, c ≠ '\x22' ∧ c ≠ '\\' ∧ c ≠ '\n')
    (hnamed : Text.trim isBlank name.toList ≠ []) (hsingle : '\x27' ∉ name.toList) :
    imports ("import x from \x22" ++ name ++ "\x22") =
      [⟨1, String.ofList (Text.trim isBlank name.toList), [], 0, .javascript⟩] := by
  have hunquoted : ∀ c ∈ name.toList, isStringQuote c = false ∧ c ≠ '\\' ∧ c ≠ '\n' := by
    intro c hc
    refine ⟨?_, (hplain c hc).2⟩
    rw [Bool.eq_false_iff]
    intro hquote
    rcases isStringQuote_iff.1 hquote with rfl | rfl
    · exact hsingle hc
    · exact (hplain _ hc).1 rfl
  have hlead : "import x from \x22".toList =
      "import".toList ++ (' ' :: (['x'] ++ " from ".toList) ++ ['\x22']) := by
    decide
  have hbinding : ∀ c ∈ ['x'], isBindingChar c = true := List.all_iff_forall_prop.1 (by decide)
  refine imports_head (.binding ⟨['x'], hbinding⟩ ⟨'\x22', name.toList, rfl, hunquoted, hnamed⟩) ?_
  rw [String.toList_append, String.toList_append, hlead, List.append_assoc, List.append_assoc,
    List.append_assoc]
  rfl

theorem imports_eq_map_sites (source : String) :
    imports source = (sites source).map (fun s => s.ref (blankComments source.toList)) ∧
      ∀ s ∈ sites source, ∃ opening body closing rest,
        s.Fits (blankComments source.toList) opening body closing rest :=
  importsFrom_eq_map_sitesFrom rfl

theorem unquoted_of_mem_imports {r : Ref} {source : String} (h : r ∈ imports source) :
    Unquoted r.module.toList := by
  obtain ⟨hmap, hfits⟩ := imports_eq_map_sites source
  rw [hmap] at h
  obtain ⟨s, hs, rfl⟩ := List.mem_map.1 h
  obtain ⟨opening, body, closing, rest, hs⟩ := hfits s hs
  intro c hc
  rw [Site.ref, String.toList_ofList, hs.name] at hc
  exact (hs.specifier.plain c (mem_of_mem_trim hc)).1

/-- Each import is read at a site, and its module is the content of the literal that opens there if and
only if the same quote ends what is read and nothing of it is blanked.  In double quotes, a specifier
without them is the module if and only if it holds no single quote. -/
theorem specifiers_are_literals (source : String) :
    imports source = (sites source).map (fun s => s.ref (blankComments source.toList)) ∧
      (∀ s ∈ sites source,
        (∃ content, literalAt? source.toList s.start = some content ∧
            Text.trim isBlank content = s.name (blankComments source.toList)) ↔
          (s.piece (blankComments source.toList)).head? =
              (s.piece (blankComments source.toList)).getLast? ∧
            s.piece source.toList = s.piece (blankComments source.toList)) ∧
      ∀ name : String, (∀ c ∈ name.toList, c ≠ '\x22' ∧ c ≠ '\\' ∧ c ≠ '\n') →
        Text.trim isBlank name.toList ≠ [] →
        (imports ("import x from \x22" ++ name ++ "\x22") =
            [⟨1, String.ofList (Text.trim isBlank name.toList), [], 0, .javascript⟩] ↔
          '\x27' ∉ name.toList) := by
  obtain ⟨himports, hfits⟩ := imports_eq_map_sites source
  refine ⟨himports, fun s hs => ?_, fun name hplain hnamed => ⟨fun hread hsingle => ?_, ?_⟩⟩
  · obtain ⟨opening, body, closing, rest, hs⟩ := hfits s hs
    exact literalAt?_iff_of_fits hs
  · -- A module holds no quote.
    have hmem : '\x27' ∈ Text.trim isBlank name.toList := mem_trim (by decide) hsingle
    have hunquoted := unquoted_of_mem_imports (hread ▸ List.mem_singleton_self _)
    rw [String.toList_ofList] at hunquoted
    exact absurd (hunquoted _ hmem) (by decide)
  · exact imports_doubleQuoted hplain hnamed

/-- A single quote cuts the specifier off, and what is left is the content of no literal. -/
theorem specifier_cut_at_apostrophe :
    ∃ r ∈ imports "import x from \x22it\x27s\x22", ¬ ∃ start content,
      literalAt? "import x from \x22it\x27s\x22".toList start = some content ∧
        r.module = String.ofList (Text.trim isBlank content) := by
  have hclause : clause? (blankComments "import x from \x22it\x27s\x22".toList) = some ("it".toList, 18) := by
    rfl
  have hliterals : ∀ start < 20, ∀ content ∈ literalAt? "import x from \x22it\x27s\x22".toList start,
      content = "it\x27s".toList := by
    decide
  refine ⟨⟨1, "it", [], 0, .javascript⟩, ?_, ?_⟩
  · rw [imports, importsFrom_of_clause? hclause (by decide)]
    exact List.mem_cons_self ..
  · rintro ⟨start, content, hliteral, hmodule⟩
    have hstart : start < 20 := by
      by_contra hout
      have hnil : "import x from \x22it\x27s\x22".toList.drop start = [] :=
        List.drop_eq_nil_of_le (Nat.le_of_not_lt hout)
      rw [literalAt?, hnil] at hliteral
      cases hliteral
    rw [hliterals start hstart content hliteral] at hmodule
    exact absurd hmodule (by decide)

end LayerGate.Import.Web
