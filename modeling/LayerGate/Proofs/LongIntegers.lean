import LayerGate.Proofs.Results
import LayerGate.Value.Toml.Document
import Mathlib.Data.List.TakeDrop

/-!
# Integers that a document stops at

Every reader of a TOML document leaves an end of the text that it was given.  So an integer that is too
long to be read stands in the document, and a document in which no run of digits is that long is read or
has a problem.
-/

namespace LayerGate.Value.Toml

variable {α β : Type} {cs ds rest : List Char} {n fuel : Nat}

/-! ## Runs of digits -/

/-- Somewhere in the text, nothing but underscores stands between `n` digits. -/
def HasDigits (n : Nat) (cs : List Char) : Prop :=
  ∃ run, run <:+: cs ∧ (∀ c ∈ run, c.isDigit = true ∨ c = '_') ∧ run.countP Char.isDigit = n

theorem HasDigits.mono (h : HasDigits n cs) (hcs : cs <:+: ds) : HasDigits n ds := by
  obtain ⟨run, hrun, hdigits, hcount⟩ := h
  exact ⟨run, hrun.trans hcs, hdigits, hcount⟩

/-! ## What a reader leaves -/

/-- The reader leaves an end of the text, and gives up on an integer only if it is in the text and too
long; `left` says where a result tells what it leaves. -/
inductive Reads (cs : List Char) (left : α → List Char) : Except Fault α → Prop
  | ok {a : α} : left a <:+ cs → Reads cs left (.ok a)
  | problem {p : Problem} {k : Nat} : Reads cs left (.error (.problem p k))
  | longInteger {n : Nat} : 4300 < n → HasDigits n cs → Reads cs left (.error (.longInteger n))

namespace Reads

variable {left : α → List Char} {left' : β → List Char} {r : Except Fault α} {f : α → Except Fault β}
  {p : Problem} {a : α}

theorem fail : Reads cs left (fail p rest) := .problem

theorem mono (h : Reads ds left r) (hds : ds <:+ cs) : Reads cs left r := by
  cases h with
  | ok hleft => exact .ok (hleft.trans hds)
  | problem => exact .problem
  | longInteger hlong hdigits => exact .longInteger hlong (hdigits.mono hds.isInfix)

theorem bind (h : Reads cs left r) (hf : ∀ a, left a <:+ cs → Reads cs left' (f a)) :
    Reads cs left' (r >>= f) := by
  cases h with
  | ok hleft => exact hf _ hleft
  | problem => exact .problem
  | longInteger hlong hdigits => exact .longInteger hlong hdigits

/-- The next reader goes on where the first one stopped. -/
theorem andThen (h : Reads cs left r) (hf : ∀ a, Reads (left a) left' (f a)) :
    Reads cs left' (r >>= f) := h.bind fun a hleft => (hf a).mono hleft

theorem map {g : α → β} (h : Reads cs left r) (hg : ∀ a, left' (g a) = left a) :
    Reads cs left' (r.map g) := by
  cases h with
  | ok hleft => exact .ok (by rw [hg]; exact hleft)
  | problem => exact .problem
  | longInteger hlong hdigits => exact .longInteger hlong hdigits

end Reads

/-- A reader that leaves the text behind its result. -/
abbrev ReadsPair (cs : List Char) (r : Except Fault (α × List Char)) : Prop := Reads cs Prod.snd r

theorem skipBlanks_suffix : skipBlanks cs <:+ cs := List.dropWhile_suffix _

/-! ## Blanks and text -/

theorem reads_refuseBarred {barred : Char → Bool} {part : List Char} :
    Reads cs (fun _ => cs) (refuseBarred barred part rest) := by
  unfold refuseBarred
  split
  · exact .ok List.suffix_rfl
  · exact .fail

theorem reads_skipComment : Reads cs id (skipComment cs) := by
  unfold skipComment
  split
  · rename_i rest
    simp only [List.span_eq_takeWhile_dropWhile]
    have hline {part after : List Char} :
        Reads ('#' :: rest) (fun _ => rest) (refuseBarred isBarred part after) :=
      reads_refuseBarred.mono (List.suffix_cons ..)
    exact hline.andThen fun _ => .ok (List.dropWhile_suffix _)
  · exact .ok List.suffix_rfl

theorem reads_skipFiller : Reads cs id (skipFiller fuel cs) := by
  induction fuel generalizing cs with
  | zero => exact .ok List.suffix_rfl
  | succ fuel ih =>
    rw [skipFiller]
    have hdrop : cs.dropWhile isBlankOrBreak <:+ cs := List.dropWhile_suffix _
    split
    · rename_i rest heq
      rw [heq] at hdrop
      exact (reads_skipComment.mono hdrop).andThen fun rest' => ih
    · exact .ok hdrop

theorem suffix_of_cutAt? {mark before after : List Char} (h : cutAt? mark cs = some (before, after)) :
    after <:+ cs := by
  induction cs generalizing before with
  | nil => cases h
  | cons c cs ih =>
    rw [cutAt?] at h
    split at h
    · cases h
      exact List.drop_suffix ..
    · obtain ⟨⟨before', after'⟩, hcut, hpair⟩ := Option.map_eq_some_iff.1 h
      cases hpair
      exact (ih hcut).trans (List.suffix_cons ..)

theorem reads_literal {barred : Char → Bool} {mark : List Char} :
    ReadsPair cs (literal barred mark cs) := by
  unfold literal
  split
  · exact .fail
  · rename_i content after hcut
    exact (reads_refuseBarred.mono (suffix_of_cutAt? hcut)).andThen fun _ => .ok List.suffix_rfl

theorem reads_hexChar {width : Nat} : ReadsPair cs (hexChar width cs) := by
  unfold hexChar
  simp only
  split
  · exact .fail
  · split
    · exact .ok (List.drop_suffix ..)
    · exact .fail

theorem reads_escape {multiline : Bool} : ReadsPair cs (escape multiline cs) := by
  unfold escape
  split
  · exact .fail
  · rename_i c rest
    have hrest : rest <:+ c :: rest := List.suffix_cons ..
    split
    · have hdrop : (c :: rest).dropWhile isBlank <:+ c :: rest := List.dropWhile_suffix _
      split
      · exact .ok (List.nil_suffix ..)
      · rename_i more heq
        rw [heq] at hdrop
        exact .ok (((List.dropWhile_suffix _).trans (List.suffix_cons ..)).trans hdrop)
      · exact .fail
    · split
      · exact (reads_hexChar.mono hrest).map fun _ => rfl
      · split
        · exact (reads_hexChar.mono hrest).map fun _ => rfl
        · split
          · exact .ok hrest
          · exact .fail

theorem reads_basic {multiline : Bool} {done : List Char} :
    ReadsPair cs (basic multiline fuel done cs) := by
  induction fuel generalizing done cs with
  | zero => exact .fail
  | succ fuel ih =>
    unfold basic
    split
    · exact .fail
    · rename_i rest
      split
      · exact .ok (List.suffix_cons ..)
      · split
        · rename_i after
          exact .ok (List.suffix_append ['\x22', '\x22', '\x22'] after)
        · exact ih.mono (List.suffix_cons ..)
    · exact (reads_escape.mono (List.suffix_cons ..)).andThen fun _ => ih
    · exact iteInduction (fun _ => .fail) fun _ => ih.mono (List.suffix_cons ..)

theorem extraQuotes_suffix {quote : Char} {content : List Char} :
    (extraQuotes quote content cs).2 <:+ cs := by
  unfold extraQuotes
  split
  · split
    · exact List.suffix_rfl
    · split
      · exact List.suffix_append [_, _] _
      · exact List.suffix_cons ..
  · split
    · exact List.nil_suffix ..
    · exact List.suffix_rfl
  · exact List.suffix_rfl

theorem dropFirstBreak_suffix : dropFirstBreak cs <:+ cs := by
  unfold dropFirstBreak
  split
  · exact List.suffix_cons ..
  · exact List.suffix_rfl

theorem reads_literalLines : ReadsPair cs (literalLines cs) :=
  (reads_literal.mono dropFirstBreak_suffix).andThen fun _ => .ok extraQuotes_suffix

theorem reads_basicLines : ReadsPair cs (basicLines cs) :=
  (reads_basic.mono dropFirstBreak_suffix).andThen fun _ => .ok extraQuotes_suffix

/-! ## Numbers and dates -/

/-- `ds` are the digits of a run that stands in front of `rest`. -/
def Run (isDigit : Char → Bool) (cs ds rest : List Char) : Prop :=
  ∃ run, run ++ rest = cs ∧ (∀ c ∈ run, isDigit c = true ∨ c = '_') ∧ run.countP isDigit = ds.length

namespace Run

variable {isDigit : Char → Bool} {ds : List Char} {d : Char}

theorem nil : Run isDigit cs [] cs := ⟨[], rfl, List.forall_mem_nil _, rfl⟩

theorem digit (h : Run isDigit cs ds rest) (hd : isDigit d = true) :
    Run isDigit (d :: cs) (d :: ds) rest := by
  obtain ⟨run, rfl, hdigits, hcount⟩ := h
  exact ⟨d :: run, rfl, List.forall_mem_cons.2 ⟨.inl hd, hdigits⟩,
    by rw [List.countP_cons_of_pos hd, hcount, List.length_cons]⟩

theorem mark (h : Run isDigit cs ds rest) (hmark : isDigit '_' = false) :
    Run isDigit ('_' :: cs) ds rest := by
  obtain ⟨run, rfl, hdigits, hcount⟩ := h
  exact ⟨'_' :: run, rfl, List.forall_mem_cons.2 ⟨.inr rfl, hdigits⟩,
    by rw [List.countP_cons_of_neg (by rw [hmark]; exact Bool.false_ne_true), hcount]⟩

theorem suffix (h : Run isDigit cs ds rest) : rest <:+ cs := by
  obtain ⟨run, rfl, -, -⟩ := h
  exact List.suffix_append ..

theorem hasDigits (h : Run Char.isDigit cs ds rest) : HasDigits ds.length cs := by
  obtain ⟨run, rfl, hdigits, hcount⟩ := h
  exact ⟨run, (List.prefix_append ..).isInfix, hdigits, hcount⟩

end Run

section
variable {isDigit : Char → Bool} {digits : List Char}

theorem run_moreDigits (hmark : isDigit '_' = false) (cs : List Char) :
    Run isDigit cs (moreDigits isDigit cs).1 (moreDigits isDigit cs).2 := by
  fun_induction moreDigits isDigit cs with
  | case1 d rest hd ds after heq ih =>
    rw [heq] at ih
    exact (ih.digit hd).mark hmark
  | case2 => exact .nil
  | case3 d rest _ hd ds after heq ih =>
    rw [heq] at ih
    exact ih.digit hd
  | case4 => exact .nil
  | case5 => exact .nil

theorem run_of_digits? (hmark : isDigit '_' = false) (h : digits? isDigit cs = some (digits, rest)) :
    Run isDigit cs digits rest := by
  unfold digits? at h
  split at h
  · split at h
    · rename_i hd
      cases h
      exact (run_moreDigits hmark _).digit hd
    · cases h
  · cases h

end

theorem suffix_of_based? {m : Nat} (h : based? cs = some (m, rest)) : rest <:+ cs := by
  have hread : ∀ {base isDigit more}, isDigit '_' = false →
      based?.read base isDigit more = some (m, rest) → rest <:+ more := by
    intro base isDigit more hmark hread
    obtain ⟨⟨ds, after⟩, hdigits, hpair⟩ := Option.map_eq_some_iff.1 hread
    cases hpair
    exact (run_of_digits? hmark hdigits).suffix
  unfold based? at h
  split at h
  · exact (hread (by decide) h).trans (List.suffix_append ['0', 'x'] _)
  · exact (hread (by decide) h).trans (List.suffix_append ['0', 'b'] _)
  · exact (hread (by decide) h).trans (List.suffix_append ['0', 'o'] _)
  · cases h

theorem run_of_whole? {whole : List Char} (h : whole? cs = some (whole, rest)) :
    Run Char.isDigit cs whole rest := by
  unfold whole? at h
  split at h
  · cases h
    exact Run.nil.digit (by decide)
  · exact run_of_digits? (by decide) h

theorem suffix_of_fraction? {ds : List Char} (h : fraction? cs = some (ds, rest)) : rest <:+ cs := by
  unfold fraction? at h
  split at h
  · exact (run_of_digits? (by decide) h).suffix.trans (List.suffix_cons ..)
  · cases h

theorem sign_suffix : (sign cs).2 <:+ cs := by
  unfold sign
  split
  · exact List.suffix_cons ..
  · exact List.suffix_cons ..
  · exact List.suffix_rfl

theorem suffix_of_exponent? {power : Int} (h : exponent? cs = some (power, rest)) : rest <:+ cs := by
  unfold exponent? at h
  split at h
  · split at h
    · cases h
    · rename_i e more hexponent
      obtain ⟨⟨ds, after⟩, hdigits, hpair⟩ := Option.map_eq_some_iff.1 h
      cases hpair
      have hrun : rest <:+ (sign more).2 := (run_of_digits? (by decide) hdigits).suffix
      exact (hrun.trans sign_suffix).trans (List.suffix_cons ..)
  · cases h

/-- Where nothing was read, what stands in for it tells what is left. -/
theorem getD_suffix (left : α → List Char) {o : Option α} {a : α} (ha : left a <:+ cs)
    (h : ∀ b, o = some b → left b <:+ cs) : left (o.getD a) <:+ cs := by
  cases o with
  | none => exact ha
  | some b => exact h b rfl

theorem reads_of_decimal? {r : Except Fault (Value × List Char)} (h : decimal? cs = some r) :
    ReadsPair cs r := by
  obtain ⟨⟨whole, more⟩, hwhole, rfl⟩ := Option.map_eq_some_iff.1 h
  have hrun : Run Char.isDigit (sign cs).2 whole more := run_of_whole? hwhole
  have hmore : more <:+ cs := hrun.suffix.trans sign_suffix
  have hfraction : ((fraction? more).getD ([], more)).2 <:+ more :=
    getD_suffix Prod.snd List.suffix_rfl fun _ => suffix_of_fraction?
  have hexponent (behind : List Char × List Char) :
      ((exponent? behind.2).getD (0, behind.2)).2 <:+ behind.2 :=
    getD_suffix Prod.snd List.suffix_rfl fun _ => suffix_of_exponent?
  have hleft := ((hexponent _).trans hfraction).trans hmore
  refine iteInduction (fun _ => iteInduction (fun hlong => ?_) fun _ => ?_) fun _ => ?_
  · exact .longInteger hlong (hrun.hasDigits.mono sign_suffix.isInfix)
  · exact .ok hleft
  · exact .ok hleft

theorem reads_of_number? {r : Except Fault (Value × List Char)} (h : number? cs = some r) :
    ReadsPair cs r := by
  unfold number? at h
  split at h
  · rename_i hbased
    cases h
    exact .ok (suffix_of_based? hbased)
  · exact reads_of_decimal? h

theorem suffix_of_wordNumber? {v : Value} (h : wordNumber? cs = some (v, rest)) : rest <:+ cs := by
  have hsign : (sign cs).2 <:+ cs := sign_suffix
  unfold wordNumber? at h
  simp only at h
  split at h
  · cases h
    rename_i heq
    rw [heq] at hsign
    exact (List.suffix_append ['i', 'n', 'f'] _).trans hsign
  · cases h
    rename_i heq
    rw [heq] at hsign
    exact (List.suffix_append ['n', 'a', 'n'] _).trans hsign
  · cases h

theorem suffix_of_twoDigits? {low high m : Nat} (h : twoDigits? low high cs = some (m, rest)) :
    rest <:+ cs := by
  unfold twoDigits? at h
  split at h
  · simp only at h
    split at h
    · cases h
      exact List.suffix_append [_, _] _
    · cases h
  · cases h

theorem suffix_of_expect? {c : Char} (h : expect? c cs = some rest) : rest <:+ cs := by
  unfold expect? at h
  split at h
  · split at h
    · cases h
      exact List.suffix_cons ..
    · cases h
  · cases h

theorem suffix_of_time? (h : time? cs = some rest) : rest <:+ cs := by
  unfold time? at h
  simp only [Option.bind_eq_bind, Option.bind_eq_some_iff] at h
  obtain ⟨⟨_, cs₁⟩, h₁, cs₂, h₂, ⟨_, cs₃⟩, h₃, cs₄, h₄, ⟨_, cs₅⟩, h₅, h⟩ := h
  have hclock : cs₅ <:+ cs :=
    ((((suffix_of_twoDigits? h₅).trans (suffix_of_expect? h₄)).trans (suffix_of_twoDigits? h₃)).trans
      (suffix_of_expect? h₂)).trans (suffix_of_twoDigits? h₁)
  simp only at h
  split at h
  · rename_i d more
    cases h
    split
    · exact ((List.dropWhile_suffix _).trans (List.suffix_append ['.', d] more)).trans hclock
    · exact hclock
  · cases h
    exact hclock

theorem offset_suffix : offset cs <:+ cs := by
  have hdistance {more : List Char} (hmore : more <:+ cs) :
      ((twoDigits? 0 23 more).bind fun hours => (expect? ':' hours.2).bind fun more =>
        (twoDigits? 0 59 more).map (·.2)).getD cs <:+ cs := by
    refine getD_suffix id List.suffix_rfl fun rest h => ?_
    obtain ⟨⟨_, cs₁⟩, h₁, h⟩ := Option.bind_eq_some_iff.1 h
    obtain ⟨cs₂, h₂, h⟩ := Option.bind_eq_some_iff.1 h
    obtain ⟨⟨_, cs₃⟩, h₃, rfl⟩ := Option.map_eq_some_iff.1 h
    exact (((suffix_of_twoDigits? h₃).trans (suffix_of_expect? h₂)).trans
      (suffix_of_twoDigits? h₁)).trans hmore
  unfold offset
  split
  · exact List.suffix_cons ..
  · exact List.suffix_cons ..
  · exact hdistance (List.suffix_cons ..)
  · exact hdistance (List.suffix_cons ..)
  · exact List.suffix_rfl

theorem suffix_of_date? {date : Date} (h : date? cs = some (date, rest)) : rest <:+ cs := by
  unfold date? at h
  split at h
  · rename_i a b c d more
    split at h
    · cases h
    · simp only [Option.bind_eq_bind, Option.bind_eq_some_iff] at h
      obtain ⟨cs₁, h₁, ⟨_, cs₂⟩, h₂, cs₃, h₃, ⟨_, cs₄⟩, h₄, h⟩ := h
      cases h
      exact ((((suffix_of_twoDigits? h₄).trans (suffix_of_expect? h₃)).trans
        (suffix_of_twoDigits? h₂)).trans (suffix_of_expect? h₁)).trans
          (List.suffix_append [a, b, c, d] more)
  · cases h

theorem timeOfDate_suffix : timeOfDate cs <:+ cs := by
  have htime {more : List Char} (hmore : more <:+ cs) : ((time? more).map offset).getD cs <:+ cs := by
    refine getD_suffix id List.suffix_rfl fun rest h => ?_
    obtain ⟨behind, hbehind, rfl⟩ := Option.map_eq_some_iff.1 h
    exact (offset_suffix.trans (suffix_of_time? hbehind)).trans hmore
  unfold timeOfDate
  split
  · exact htime (List.suffix_cons ..)
  · exact htime (List.suffix_cons ..)
  · exact htime (List.suffix_cons ..)
  · exact List.suffix_rfl

theorem reads_of_moment? {r : Except Fault (Value × List Char)} (h : moment? cs = some r) :
    ReadsPair cs r := by
  unfold moment? at h
  split at h
  · rename_i date more hdate
    cases h
    refine iteInduction (fun _ => ?_) fun _ => .fail
    exact .ok (timeOfDate_suffix.trans (suffix_of_date? hdate))
  · obtain ⟨more, htime, rfl⟩ := Option.map_eq_some_iff.1 h
    exact .ok (suffix_of_time? htime)

/-! ## Keys and values -/

theorem reads_keyPart : ReadsPair cs (keyPart cs) := by
  unfold keyPart
  split
  · exact (reads_literal.mono (List.suffix_cons ..)).map fun _ => rfl
  · exact (reads_basic.mono (List.suffix_cons ..)).map fun _ => rfl
  · simp only [List.span_eq_takeWhile_dropWhile]
    split
    · exact .fail
    · rename_i name rest _ heq
      rw [← (Prod.mk.inj heq).2]
      exact .ok (List.dropWhile_suffix _)

theorem reads_key : ReadsPair cs (key fuel cs) := by
  induction fuel generalizing cs with
  | zero => exact .fail
  | succ fuel ih =>
    rw [key]
    refine reads_keyPart.andThen fun (name, rest) => ?_
    have hblanks : skipBlanks rest <:+ rest := skipBlanks_suffix
    simp only
    split
    · rename_i more heq
      rw [heq] at hblanks
      have hmore := (skipBlanks_suffix.trans (List.suffix_cons ..)).trans hblanks
      exact Reads.andThen (ih.mono hmore) fun _ => .ok List.suffix_rfl
    · exact .ok hblanks

theorem reads_scalar : ReadsPair cs (scalar cs) := by
  unfold scalar
  simp only
  split
  · exact (reads_basicLines.mono (List.suffix_append ['\x22', '\x22', '\x22'] _)).map fun _ => rfl
  · exact (reads_basic.mono (List.suffix_cons ..)).map fun _ => rfl
  · exact (reads_literalLines.mono (List.suffix_append ['\x27', '\x27', '\x27'] _)).map fun _ => rfl
  · exact (reads_literal.mono (List.suffix_cons ..)).map fun _ => rfl
  · exact .ok (List.suffix_append ['t', 'r', 'u', 'e'] _)
  · exact .ok (List.suffix_append ['f', 'a', 'l', 's', 'e'] _)
  · split
    · rename_i r heq
      rcases Option.or_eq_some_iff.1 heq with hmoment | ⟨-, hnumber⟩
      · exact reads_of_moment? hmoment
      · exact reads_of_number? hnumber
    · rename_i hword
      exact .ok (suffix_of_wordNumber? hword)
    · exact .fail

theorem reads_addInline {marks : Marks} {fields : Fields} {key : Key} {v : Value} :
    Reads rest (fun _ => rest) (addInline marks fields key v rest) := by
  unfold addInline
  split
  · exact .fail
  · simp only
    split
    · exact .fail
    · split
      · exact .fail
      · exact .ok List.suffix_rfl

/-- What holds of the readers of values, all with the same fuel. -/
structure ValuesRead (fuel : Nat) : Prop where
  value : ∀ cs, ReadsPair cs (value fuel cs)
  items : ∀ cs, ReadsPair cs (items fuel cs)
  pairs : ∀ marks fields cs, ReadsPair cs (pairs fuel marks fields cs)
  pair : ∀ cs, Reads cs (·.2.2) (pair fuel cs)

namespace ValuesRead

theorem zero : ValuesRead 0 where
  value _ := .fail
  items _ := .fail
  pairs _ _ _ := .fail
  pair _ := .fail

theorem value_succ (h : ValuesRead fuel) : ReadsPair cs (Toml.value (fuel + 1) cs) := by
  unfold Toml.value
  split
  · contradiction
  · rename_i fuel' rest heq
    obtain rfl := Nat.succ.inj heq
    refine (reads_skipFiller.mono (List.suffix_cons ..)).andThen fun more => ?_
    split
    · exact .ok (List.suffix_cons ..)
    · exact (h.items _).andThen fun _ => .ok List.suffix_rfl
  · rename_i fuel' rest heq
    obtain rfl := Nat.succ.inj heq
    have hblanks : skipBlanks rest <:+ rest := skipBlanks_suffix
    have hopened : skipBlanks rest <:+ '{' :: rest := hblanks.trans (List.suffix_cons ..)
    split
    · rename_i more hclosed
      rw [hclosed] at hopened
      exact .ok ((List.suffix_cons ..).trans hopened)
    · exact Reads.andThen ((h.pairs _ _ _).mono hopened) fun _ => .ok List.suffix_rfl
  · exact reads_scalar

theorem items_succ (h : ValuesRead fuel) : ReadsPair cs (Toml.items (fuel + 1) cs) := by
  rw [Toml.items]
  refine (h.value cs).andThen fun (v, rest) => ?_
  refine reads_skipFiller.andThen fun more => ?_
  split
  · exact .ok (List.suffix_cons ..)
  · refine Reads.andThen (reads_skipFiller.mono (List.suffix_cons ..)) fun more' => ?_
    split
    · exact .ok (List.suffix_cons ..)
    · exact (h.items _).andThen fun _ => .ok List.suffix_rfl
  · exact .fail

theorem pairs_succ (h : ValuesRead fuel) {marks : Marks} {fields : Fields} :
    ReadsPair cs (Toml.pairs (fuel + 1) marks fields cs) := by
  rw [Toml.pairs]
  refine (h.pair cs).andThen fun (key, v, rest) => ?_
  refine reads_addInline.andThen fun fields => ?_
  have hblanks : skipBlanks rest <:+ rest := skipBlanks_suffix
  split
  · rename_i heq
    rw [heq] at hblanks
    exact .ok ((List.suffix_cons ..).trans hblanks)
  · rename_i heq
    rw [heq] at hblanks
    exact (h.pairs _ _ _).mono ((skipBlanks_suffix.trans (List.suffix_cons ..)).trans hblanks)
  · exact .fail

theorem pair_succ (h : ValuesRead fuel) : Reads cs (·.2.2) (Toml.pair (fuel + 1) cs) := by
  rw [Toml.pair]
  refine reads_key.andThen fun (key, rest) => ?_
  simp only
  split
  · rename_i more
    refine Reads.andThen ((h.value _).mono (skipBlanks_suffix.trans (List.suffix_cons ..))) fun _ => ?_
    exact .ok List.suffix_rfl
  · exact .fail

theorem succ (h : ValuesRead fuel) : ValuesRead (fuel + 1) where
  value _ := h.value_succ
  items _ := h.items_succ
  pairs _ _ _ := h.pairs_succ
  pair _ := h.pair_succ

end ValuesRead

/-- By induction on the fuel, for all four readers at once. -/
theorem valuesRead : ∀ fuel, ValuesRead fuel
  | 0 => .zero
  | fuel + 1 => (valuesRead fuel).succ

theorem reads_pair : Reads cs (·.2.2) (pair fuel cs) := (valuesRead fuel).pair cs

/-! ## Statements -/

theorem reads_declareTable {s : State} : ReadsPair cs (declareTable s cs) := by
  unfold declareTable
  refine Reads.andThen (reads_key.mono skipBlanks_suffix) fun (key, rest) => ?_
  simp only
  split
  · exact .problem
  · split
    · exact .fail
    · split
      · exact .ok (List.suffix_cons ..)
      · exact .fail

theorem reads_declareListTable {s : State} : ReadsPair cs (declareListTable s cs) := by
  unfold declareListTable
  refine Reads.andThen (reads_key.mono skipBlanks_suffix) fun (key, rest) => ?_
  simp only
  split
  · exact .problem
  · split
    · exact .fail
    · split
      · exact .ok (List.suffix_append [']', ']'] _)
      · exact .fail

theorem reads_addPair {s : State} : ReadsPair cs (addPair s cs) := by
  unfold addPair
  refine reads_pair.andThen fun (key, v, rest) => ?_
  simp only
  split
  · exact .problem
  · split
    · exact .problem
    · split
      · exact .fail
      · exact .ok List.suffix_rfl

theorem reads_statement {s : State} : ReadsPair cs (statement s cs) := by
  unfold statement
  split
  · exact reads_declareListTable.mono (List.suffix_append ['[', '['] _)
  · exact reads_declareTable.mono (List.suffix_cons ..)
  · exact .ok List.suffix_rfl
  · exact iteInduction (fun _ => reads_addPair) fun _ => .fail
  · exact .ok List.suffix_rfl

theorem reads_statements {s : State} : Reads cs (fun _ => []) (statements fuel s cs) := by
  induction fuel generalizing s cs with
  | zero => exact .ok (List.nil_suffix ..)
  | succ fuel ih =>
    rw [statements]
    have hblanks : skipBlanks cs <:+ cs := skipBlanks_suffix
    split
    · exact .ok (List.nil_suffix ..)
    · rename_i rest heq
      rw [heq] at hblanks
      exact ih.mono ((List.suffix_cons ..).trans hblanks)
    · refine Reads.andThen (reads_statement.mono hblanks) fun (s, rest) => ?_
      refine Reads.andThen (reads_skipComment.mono skipBlanks_suffix) fun more => ?_
      split
      · exact .ok (List.nil_suffix ..)
      · rename_i behind
        exact ih.mono (List.suffix_cons ..)
      · exact .fail

/-! ## Documents -/

theorem prefix_of_unifyPairs {run : List Char} (hrun : '\n' ∉ run) (h : run <+: unifyPairs cs) :
    run <+: cs := by
  fun_induction unifyPairs cs generalizing run with
  | case1 rest ih =>
    rcases List.prefix_cons_iff.1 h with rfl | ⟨run, rfl, -⟩
    · exact List.nil_prefix
    · exact absurd (List.mem_cons_self ..) hrun
  | case2 c rest _ ih =>
    rcases List.prefix_cons_iff.1 h with rfl | ⟨run, rfl, hprefix⟩
    · exact List.nil_prefix
    · exact List.cons_prefix_cons.2 ⟨rfl, ih (fun hn => hrun (List.mem_cons_of_mem _ hn)) hprefix⟩
  | case3 => exact h

theorem infix_of_unifyPairs {run : List Char} (hrun : '\n' ∉ run) (h : run <:+: unifyPairs cs) :
    run <:+: cs := by
  fun_induction unifyPairs cs with
  | case1 rest ih =>
    rcases List.infix_cons_iff.1 h with h | h
    · rcases List.prefix_cons_iff.1 h with rfl | ⟨run, rfl, -⟩
      · exact List.nil_infix
      · exact absurd (List.mem_cons_self ..) hrun
    · exact (ih h).trans (List.suffix_append ['\r', '\n'] rest).isInfix
  | case2 c rest hno ih =>
    rcases List.infix_cons_iff.1 h with h | h
    · have hcons : unifyPairs (c :: rest) = c :: unifyPairs rest := by
        rw [unifyPairs]
        exact hno
      rw [← hcons] at h
      exact (prefix_of_unifyPairs hrun h).isInfix
    · exact (ih h).trans (List.suffix_cons ..).isInfix
  | case3 => exact h

/-- A run of digits holds no line break, so it stands in the document as it was written. -/
theorem hasDigits_of_unifyPairs (h : HasDigits n (unifyPairs cs)) : HasDigits n cs := by
  obtain ⟨run, hrun, hdigits, hcount⟩ := h
  have hbreak : '\n' ∉ run := fun hn => absurd (hdigits _ hn) (by decide)
  exact ⟨run, infix_of_unifyPairs hbreak hrun, hdigits, hcount⟩

/-- A document that stops at an integer holds that many digits, and these are too many. -/
theorem hasDigits_of_read (h : read cs = .error (.longInteger n)) : 4300 < n ∧ HasDigits n cs := by
  have hreads : Reads (unifyPairs cs) (fun _ => []) (read cs) := reads_statements.map fun _ => rfl
  rw [h] at hreads
  cases hreads with
  | longInteger hlong hdigits => exact ⟨hlong, hasDigits_of_unifyPairs hdigits⟩

end LayerGate.Value.Toml
