import Mathlib.Data.List.Forall2
import LayerGate.Import.Web.Clause

/-!
# Texts without comments

A text without comments stays as it is when its comments are blanked, and blanking leaves such a text.
That a quote opens no literal must not change on the way: what closes a literal is never in a comment,
and no backslash of a comment stands before it.
-/

namespace LayerGate.Import.Web

variable {c quote : Char} {cs body rest out : List Char} {mode : Mode}

/-! ## Literals -/

/-- What stands between the quotes of a literal.  A backslash goes with the character behind it, and a
line end only stands in a template. -/
inductive IsBody (quote : Char) : List Char → Prop
  | nil : IsBody quote []
  | escaped {c : Char} {body : List Char} : IsBody quote body → IsBody quote ('\\' :: c :: body)
  | plain {c : Char} {body : List Char} : c ≠ '\\' → c ≠ quote → (c = '\n' → quote = '\x60') →
      IsBody quote body → IsBody quote (c :: body)

/-- The literal whose opening quote stands before the text is closed in it. -/
def Closes (quote : Char) (cs : List Char) : Prop :=
  ∃ body rest, IsBody quote body ∧ cs = body ++ quote :: rest

theorem ne_backslash_of_isQuote (h : isQuote quote = true) : quote ≠ '\\' := by
  rintro rfl
  exact absurd h (by decide)

theorem isClosed_cons (hc : c ≠ '\\') : isClosed quote (c :: cs) =
    if c = quote then true else if c = '\n' ∧ quote ≠ '\x60' then false else isClosed quote cs := by
  rw [isClosed]
  · exact fun h _ => hc h
  · exact fun _ _ h _ => hc h

theorem isClosed_of_isBody (hquote : isQuote quote = true) (h : IsBody quote body) :
    isClosed quote (body ++ quote :: rest) = true := by
  induction h with
  | nil => rw [List.nil_append, isClosed_cons (ne_backslash_of_isQuote hquote), if_pos rfl]
  | escaped _ ih => exact ih
  | @plain c body hbackslash hne hfeed _ ih =>
    have hline : ¬ (c = '\n' ∧ quote ≠ '\x60') := fun h => h.2 (hfeed h.1)
    rw [List.cons_append, isClosed_cons hbackslash, if_neg hne, if_neg hline]
    exact ih

theorem isClosed_iff (hquote : isQuote quote = true) : isClosed quote cs = true ↔ Closes quote cs := by
  constructor
  · intro h
    fun_induction isClosed quote cs with
    | case1 => cases h
    | case2 => cases h
    | case3 c cs ih =>
      obtain ⟨body, rest, hbody, rfl⟩ := ih h
      exact ⟨'\\' :: c :: body, rest, .escaped hbody, rfl⟩
    | case4 cs _ _ => exact ⟨[], cs, .nil, rfl⟩
    | case5 => cases h
    | case6 c cs hlast hpair hne hline ih =>
      obtain ⟨body, rest, hbody, rfl⟩ := ih h
      have hbackslash : c ≠ '\\' := by
        rintro rfl
        cases body with
        | nil => exact hpair _ _ rfl rfl
        | cons d body => exact hpair _ _ rfl rfl
      refine ⟨c :: body, rest, .plain hbackslash hne (fun hfeed => ?_) hbody, rfl⟩
      by_contra htemplate
      exact hline ⟨hfeed, htemplate⟩
  · rintro ⟨body, rest, hbody, rfl⟩
    exact isClosed_of_isBody hquote hbody

/-! ## Blanking, character by character -/

/-- A comment starts at the front of the text. -/
def OpensComment (cs : List Char) : Prop := ['/', '*'] <+: cs ∨ ['/', '/'] <+: cs

theorem opensComment_cons_iff :
    OpensComment (c :: cs) ↔ c = '/' ∧ (cs.head? = some '*' ∨ cs.head? = some '/') := by
  cases cs <;> simp [OpensComment, eq_comm, ← and_or_left]

/-- Outside of comments, one character is kept at a time. -/
theorem blankFrom_code (h : ¬ OpensComment (c :: cs)) : blankFrom .code (c :: cs) =
    c :: blankFrom (if isQuote c ∧ isClosed c cs then .literal c else .code) cs := by
  rw [opensComment_cons_iff] at h
  rw [blankFrom]
  · split <;> rfl
  · rintro rest rfl rfl
    exact h ⟨rfl, .inl rfl⟩
  · rintro rest rfl rfl
    exact h ⟨rfl, .inr rfl⟩

theorem blankFrom_literal_cons (hc : c ≠ '\\') : blankFrom (.literal quote) (c :: cs) =
    c :: blankFrom (if c = quote then .code else .literal quote) cs := by
  rw [blankFrom]
  exact fun _ _ h _ => hc h

/-- A literal is kept as it is. -/
theorem blankFrom_literal (hquote : isQuote quote = true) (h : IsBody quote body) :
    blankFrom (.literal quote) (body ++ quote :: rest) = body ++ quote :: blankFrom .code rest := by
  induction h with
  | nil =>
    rw [List.nil_append, blankFrom_literal_cons (ne_backslash_of_isQuote hquote), if_pos rfl]
    rfl
  | @escaped c body _ ih =>
    rw [List.cons_append, List.cons_append, blankFrom, ih]
    rfl
  | @plain c body hbackslash hne _ _ ih =>
    rw [List.cons_append, blankFrom_literal_cons hbackslash, if_neg hne, ih]
    rfl

/-- The character stays, or it is no line end and gives way to a blank. -/
def KeptOrBlank (c b : Char) : Prop := b = c ∨ c ≠ '\n' ∧ b = ' '

theorem keptOrBlank_blank (c : Char) : KeptOrBlank c (blank c) := by
  unfold KeptOrBlank blank
  split
  · rename_i hfeed
    exact .inl hfeed.symm
  · rename_i hother
    exact .inr ⟨hother, rfl⟩

theorem keptOrBlank_blankFrom (mode : Mode) (cs : List Char) :
    List.Forall₂ KeptOrBlank cs (blankFrom mode cs) := by
  have hslash : KeptOrBlank '/' ' ' := keptOrBlank_blank '/'
  have hstar : KeptOrBlank '*' ' ' := keptOrBlank_blank '*'
  have hkept : ∀ c, KeptOrBlank c c := fun _ => .inl rfl
  fun_induction blankFrom mode cs with
  | case1 => exact .nil
  | case2 cs ih => exact .cons hslash (.cons hstar ih)
  | case3 cs ih => exact .cons hslash (.cons hslash ih)
  | case4 c cs _ _ _ ih => exact .cons (hkept c) ih
  | case5 c cs _ _ _ ih => exact .cons (hkept c) ih
  | case6 quote c cs ih => exact .cons (hkept '\\') (.cons (hkept c) ih)
  | case7 quote c cs _ ih => exact .cons (hkept c) ih
  | case8 c cs ih => exact .cons (keptOrBlank_blank c) ih
  | case9 cs ih => exact .cons hstar (.cons hslash ih)
  | case10 c cs _ ih => exact .cons (keptOrBlank_blank c) ih

/-- Blanking opens no comment. -/
theorem opensComment_of_keptOrBlank (h : List.Forall₂ KeptOrBlank cs out)
    (hopens : OpensComment (c :: out)) : OpensComment (c :: cs) := by
  rw [opensComment_cons_iff] at hopens ⊢
  cases h with
  | nil => exact hopens
  | @cons a b cs out hab _ =>
    obtain ⟨hslash, hhead⟩ := hopens
    rcases hab with rfl | ⟨-, rfl⟩
    · exact ⟨hslash, hhead⟩
    · exact absurd hhead (by simp)

/-! ## Quotes that open nothing -/

theorem blank_ne_backslash (c : Char) : blank c ≠ '\\' := by
  unfold blank
  split <;> decide

/-- A blank closes no literal. -/
theorem isClosed_blank_cons (hquote : isQuote quote = true) (h : isClosed quote out = false) :
    isClosed quote (blank c :: out) = false := by
  have hne : blank c ≠ quote := by
    rintro rfl
    unfold blank at hquote
    split at hquote <;> exact absurd hquote (by decide)
  rw [isClosed_cons (blank_ne_backslash c), if_neg hne, h]
  exact ite_self _

/-- A quote that opens no literal before one text opens none before the other, also if a backslash
stands between. -/
structure StaysOpen (quote : Char) (cs out : List Char) : Prop where
  plain : isClosed quote cs = false → isClosed quote out = false
  escaped : isClosed quote ('\\' :: cs) = false → isClosed quote ('\\' :: out) = false

theorem StaysOpen.cons (h : StaysOpen quote cs out) (c : Char) :
    StaysOpen quote (c :: cs) (c :: out) where
  plain hopen := by
    by_cases hbackslash : c = '\\'
    · subst hbackslash
      exact h.escaped hopen
    · rw [isClosed_cons hbackslash] at hopen ⊢
      split
      · rename_i hquote
        rw [if_pos hquote] at hopen
        exact hopen
      · rename_i hne
        rw [if_neg hne] at hopen
        split
        · rfl
        · rename_i hline
          rw [if_neg hline] at hopen
          exact h.plain hopen
  escaped hopen := h.plain hopen

/-- In a comment a backslash is blanked like any other character, and does not go with the next one
any more. -/
structure FadesOpen (quote : Char) (cs out : List Char) : Prop extends StaysOpen quote cs out where
  faded : isClosed quote ('\\' :: cs) = false → isClosed quote out = false

/-- A blanked line end still ends what is no template. -/
theorem isClosed_blank_of_open (hquote : isQuote quote = true) (h : StaysOpen quote cs out)
    (hfaded : c = '\\' → isClosed quote ('\\' :: cs) = false → isClosed quote out = false)
    (hopen : isClosed quote (c :: cs) = false) : isClosed quote (blank c :: out) = false := by
  by_cases hbackslash : c = '\\'
  · subst hbackslash
    exact isClosed_blank_cons hquote (hfaded rfl hopen)
  · rw [isClosed_cons hbackslash] at hopen
    split at hopen
    · cases hopen
    · rename_i hne
      split at hopen
      · rename_i hline
        obtain ⟨rfl, htemplate⟩ := hline
        show isClosed quote ('\n' :: out) = false
        rw [isClosed_cons hbackslash, if_neg hne, if_pos ⟨rfl, htemplate⟩]
      · exact isClosed_blank_cons hquote (h.plain hopen)

theorem StaysOpen.blank_cons (hquote : isQuote quote = true) (h : StaysOpen quote cs out)
    (hfaded : c = '\\' → isClosed quote ('\\' :: cs) = false → isClosed quote out = false) :
    FadesOpen quote (c :: cs) (blank c :: out) where
  plain := isClosed_blank_of_open hquote h hfaded
  escaped hopen := h.plain hopen
  faded hopen := isClosed_blank_cons hquote (h.plain hopen)

def Mode.IsComment (mode : Mode) : Prop := mode = .lineComment ∨ mode = .blockComment

/-- Blanking closes no literal that was open.  A comment may begin behind a backslash, and backslashes
in it vanish, but it ends with a slash or before a line end, and there both texts are in step again. -/
theorem staysOpen_blankFrom (hquote : isQuote quote = true) (mode : Mode) (cs : List Char) :
    StaysOpen quote cs (blankFrom mode cs) ∧
      (mode.IsComment → FadesOpen quote cs (blankFrom mode cs)) := by
  have hslash : '/' ≠ '\\' := by decide
  have hstar : '*' ≠ '\\' := by decide
  have hcode : ¬ Mode.code.IsComment := by rintro (h | h) <;> cases h
  have hliteral : ∀ q, ¬ (Mode.literal q).IsComment := by rintro q (h | h) <;> cases h
  have hboth : ∀ {cs out}, FadesOpen quote cs out → ∀ {mode : Mode},
      StaysOpen quote cs out ∧ (mode.IsComment → FadesOpen quote cs out) :=
    fun h => ⟨h.toStaysOpen, fun _ => h⟩
  have hnever : ∀ {c cs out}, c ≠ '\\' → c = '\\' → isClosed quote ('\\' :: cs) = false →
      isClosed quote out = false := fun hne heq => absurd heq hne
  fun_induction blankFrom mode cs with
  | case1 => exact ⟨⟨fun h => h, fun h => h⟩, fun _ => ⟨⟨fun h => h, fun h => h⟩, fun _ => rfl⟩⟩
  | case2 cs ih =>
    -- What opens or ends a comment is no backslash, so nothing is out of step behind it.
    have hrest := StaysOpen.blank_cons (c := '*') hquote ih.1 (hnever hstar)
    exact hboth (StaysOpen.blank_cons (c := '/') hquote hrest.toStaysOpen (hnever hslash))
  | case3 cs ih =>
    have hrest := StaysOpen.blank_cons (c := '/') hquote ih.1 (hnever hslash)
    exact hboth (StaysOpen.blank_cons (c := '/') hquote hrest.toStaysOpen (hnever hslash))
  | case4 c cs _ _ _ ih => exact ⟨ih.1.cons c, fun h => absurd h hcode⟩
  | case5 c cs _ _ _ ih => exact ⟨ih.1.cons c, fun h => absurd h hcode⟩
  | case6 q c cs ih => exact ⟨(ih.1.cons c).cons '\\', fun h => absurd h (hliteral q)⟩
  | case7 q c cs _ ih => exact ⟨ih.1.cons c, fun h => absurd h (hliteral q)⟩
  | case8 c cs ih =>
    refine hboth (ih.1.blank_cons hquote ?_)
    -- Behind a backslash the comment goes on.
    rintro rfl
    exact (ih.2 (.inl rfl)).faded
  | case9 cs ih =>
    have hrest := StaysOpen.blank_cons (c := '/') hquote ih.1 (hnever hslash)
    exact hboth (StaysOpen.blank_cons (c := '*') hquote hrest.toStaysOpen (hnever hstar))
  | case10 c cs _ ih => exact hboth (ih.1.blank_cons hquote fun _ => (ih.2 (.inr rfl)).faded)

/-! ## Texts without comments -/

/-- A text of literals and of characters outside of them, where no comment starts and no quote opens a
literal. -/
inductive HasNoComment : List Char → Prop
  | nil : HasNoComment []
  | code {c : Char} {cs : List Char} : ¬ OpensComment (c :: cs) →
      (isQuote c = true → ¬ Closes c cs) → HasNoComment cs → HasNoComment (c :: cs)
  | literal {quote : Char} {body cs : List Char} : isQuote quote = true → IsBody quote body →
      HasNoComment cs → HasNoComment (quote :: body ++ quote :: cs)

theorem not_opensComment_of_isQuote (h : isQuote c = true) : ¬ OpensComment (c :: cs) := by
  rw [opensComment_cons_iff]
  rintro ⟨rfl, -⟩
  exact absurd h (by decide)

/-- Without comments there is nothing to blank. -/
theorem blankFrom_of_hasNoComment (h : HasNoComment cs) : blankFrom .code cs = cs := by
  induction h with
  | nil => rfl
  | @code c cs hcomment hquote _ ih =>
    have hopen : ¬ (isQuote c = true ∧ isClosed c cs = true) := by
      rintro ⟨hq, hclosed⟩
      exact hquote hq ((isClosed_iff hq).1 hclosed)
    rw [blankFrom_code hcomment, if_neg hopen, ih]
  | @literal quote body cs hquote hbody _ ih =>
    have hclosed : isClosed quote (body ++ quote :: cs) = true := isClosed_of_isBody hquote hbody
    rw [List.cons_append, blankFrom_code (not_opensComment_of_isQuote hquote), if_pos ⟨hquote, hclosed⟩,
      blankFrom_literal hquote hbody, ih]

/-- What blanking comes to: outside of a literal a text without comments, within one its end first. -/
def Blanked : Mode → List Char → Prop
  | .literal quote, out => ∃ body rest, IsBody quote body ∧ out = body ++ quote :: rest ∧
      HasNoComment rest
  | _, out => HasNoComment out

theorem hasNoComment_blank (h : HasNoComment cs) (c : Char) : HasNoComment (blank c :: cs) := by
  have hcases : blank c = '\n' ∨ blank c = ' ' := by
    unfold blank
    split
    · exact .inl rfl
    · exact .inr rfl
  refine .code ?_ ?_ h
  · rw [opensComment_cons_iff]
    rintro ⟨hslash, -⟩
    rw [hslash] at hcases
    exact absurd hcases (by decide)
  · intro hquote
    rcases hcases with heq | heq <;> rw [heq] at hquote <;> exact absurd hquote (by decide)

/-- What is left after blanking has no comment; a literal that was begun is to be closed. -/
theorem blanked_blankFrom (mode : Mode) (cs : List Char)
    (h : ∀ quote, mode = .literal quote → isQuote quote = true ∧ isClosed quote cs = true) :
    Blanked mode (blankFrom mode cs) := by
  fun_induction blankFrom mode cs with
  | case1 mode =>
    cases mode with
    | literal quote => exact nomatch (h quote rfl).2
    | code | lineComment | blockComment => exact .nil
  | case2 cs ih => exact hasNoComment_blank (hasNoComment_blank (ih nofun) '*') '/'
  | case3 cs ih => exact hasNoComment_blank (hasNoComment_blank (ih nofun) '/') '/'
  | case4 c cs _ _ hliteral ih =>
    obtain ⟨body, rest, hbody, hout, hrest⟩ := ih fun quote hmode => Mode.literal.inj hmode ▸ hliteral
    rw [hout]
    exact .literal hliteral.1 hbody hrest
  | case5 c cs hblock hline hcode ih =>
    -- Nothing opens here that did not open before: no comment, and no literal either.
    refine .code (fun hopens => ?_) (fun hquote hcloses => ?_) (ih nofun)
    · obtain ⟨rfl, hhead⟩ := opensComment_cons_iff.1
        (opensComment_of_keptOrBlank (keptOrBlank_blankFrom .code cs) hopens)
      cases cs with
      | nil => rcases hhead with hhead | hhead <;> cases hhead
      | cons d cs =>
        rcases hhead with hhead | hhead <;> cases hhead
        · exact hblock cs rfl rfl
        · exact hline cs rfl rfl
    · have hopen : isClosed c cs = false := by
        rw [Bool.eq_false_iff]
        exact fun hclosed => hcode ⟨hquote, hclosed⟩
      have hstays := (staysOpen_blankFrom hquote .code cs).1.plain hopen
      rw [(isClosed_iff hquote).2 hcloses] at hstays
      cases hstays
  | case6 quote c cs ih =>
    obtain ⟨body, rest, hbody, hout, hrest⟩ := ih h
    refine ⟨'\\' :: c :: body, rest, .escaped hbody, ?_, hrest⟩
    rw [hout]
    rfl
  | case7 quote c cs hpair ih =>
    obtain ⟨hquote, hclosed⟩ := h quote rfl
    have hbackslash : c ≠ '\\' := by
      rintro rfl
      cases cs with
      | nil => cases hclosed
      | cons d cs => exact hpair d cs rfl rfl
    rw [isClosed_cons hbackslash] at hclosed
    -- The literal ends here, or it goes on with a character that does not break it off.
    by_cases hend : c = quote
    · subst hend
      rw [if_pos rfl] at ih ⊢
      exact ⟨[], _, .nil, rfl, ih nofun⟩
    · rw [if_neg hend] at ih hclosed ⊢
      split at hclosed
      · cases hclosed
      · rename_i hline
        obtain ⟨body, rest, hbody, hout, hrest⟩ := ih fun q hmode => Mode.literal.inj hmode ▸ ⟨hquote, hclosed⟩
        refine ⟨c :: body, rest, .plain hbackslash hend (fun hfeed => ?_) hbody, ?_, hrest⟩
        · by_contra htemplate
          exact hline ⟨hfeed, htemplate⟩
        · rw [hout]
          rfl
  | case8 c cs ih =>
    by_cases hfeed : c = '\n'
    · rw [if_pos hfeed] at ih ⊢
      exact hasNoComment_blank (ih nofun) c
    · rw [if_neg hfeed] at ih ⊢
      exact hasNoComment_blank (ih nofun) c
  | case9 cs ih => exact hasNoComment_blank (hasNoComment_blank (ih nofun) '/') '*'
  | case10 c cs _ ih => exact hasNoComment_blank (ih nofun) c

theorem hasNoComment_blankComments (cs : List Char) : HasNoComment (blankComments cs) :=
  blanked_blankFrom .code cs nofun

theorem blankComments_eq_self_iff : blankComments cs = cs ↔ HasNoComment cs := by
  constructor
  · intro h
    rw [← h]
    exact hasNoComment_blankComments cs
  · exact blankFrom_of_hasNoComment

/-- Blanking keeps the length of a text and each of its characters, but for some that are no line ends
and give way to blanks.  No comment is left then, and the texts that it keeps are those without
comments.  So it changes nothing to blank twice, and a text and the blanked one have the same imports on
the same lines. -/
theorem blanking_keeps_imports (source : String) :
    let blanked := String.ofList (blankComments source.toList)
    blanked.length = source.length ∧
      List.Forall₂ (fun c b => b = c ∨ c ≠ '\n' ∧ b = ' ') source.toList blanked.toList ∧
      HasNoComment blanked.toList ∧
      (blanked = source ↔ HasNoComment source.toList) ∧
      String.ofList (blankComments blanked.toList) = blanked ∧
      imports blanked = imports source := by
  intro blanked
  have hchars : blanked.toList = blankComments source.toList := String.toList_ofList
  have hkept := keptOrBlank_blankFrom .code source.toList
  have hnone : HasNoComment blanked.toList := hchars ▸ hasNoComment_blankComments source.toList
  have htwice : blankComments blanked.toList = blanked.toList := blankComments_eq_self_iff.2 hnone
  refine ⟨?_, hchars ▸ hkept, hnone, ?_, ?_, ?_⟩
  · rw [← String.length_toList, ← String.length_toList, hchars]
    exact hkept.length_eq.symm
  · rw [← blankComments_eq_self_iff, ← hchars, String.toList_inj]
  · rw [htwice, String.ofList_toList]
  · unfold imports
    rw [htwice, hchars]

end LayerGate.Import.Web
