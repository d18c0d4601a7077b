import LayerGate.Proofs.LongIntegers

/-!
# Documents that stop at an integer

An integer of too many digits does stop the reader: a document whose first line gives one to a bare key
is not read any further, whatever the key is and whatever follows.
-/

namespace LayerGate.Value.Toml

variable {cs rest name digits line : List Char} {fuel : Nat} {c d : Char}

/-- Characters that a predicate tells apart are different. -/
theorem ne_of_class {p : Char → Bool} (hd : p d = true) (hc : p c = false) : d ≠ c := by
  rintro rfl
  cases hd.symm.trans hc

theorem cons_ne_of_class {p : Char → Bool} (hd : p d = true) (hc : p c = false) :
    d :: cs ≠ c :: rest := fun h => ne_of_class hd hc (List.cons.inj h).1

theorem unifyPairs_append (h : '\r' ∉ cs) :
    unifyPairs (cs ++ '\n' :: rest) = cs ++ '\n' :: unifyPairs rest := by
  induction cs with
  | nil => rfl
  | cons c cs ih =>
    have hc : c ≠ '\r' := fun he => h (he ▸ List.mem_cons_self ..)
    have hcs := ih fun hmem => h (List.mem_cons_of_mem _ hmem)
    rw [List.cons_append, unifyPairs, hcs, List.cons_append]
    intro _ he
    exact absurd he hc

/-- Digits up to the end of a line are read in full. -/
theorem moreDigits_of_isDigit (h : ∀ c ∈ digits, c.isDigit = true) :
    moreDigits Char.isDigit (digits ++ '\n' :: rest) = (digits, '\n' :: rest) := by
  induction digits with
  | nil => rfl
  | cons d digits ih =>
    have hd := h d (List.mem_cons_self ..)
    have hmark : d ≠ '_' := by
      rintro rfl
      exact absurd hd (by decide)
    rw [List.cons_append, moreDigits, if_pos hd, ih fun c hc => h c (List.mem_cons_of_mem _ hc)]
    intro _ _ he
    exact absurd he hmark

/-! ## The integer -/

section
variable (hd : d.isDigit = true) (hdigits : ∀ c ∈ digits, c.isDigit = true)
include hd hdigits

theorem decimal?_of_isDigit (hzero : d ≠ '0') (hlong : 4300 < (d :: digits).length) :
    decimal? (d :: (digits ++ '\n' :: rest)) = some (.error (.longInteger (d :: digits).length)) := by
  have hsign : sign (d :: (digits ++ '\n' :: rest)) = (false, d :: (digits ++ '\n' :: rest)) := by
    unfold sign
    split
    · rename_i heq
      exact absurd heq (cons_ne_of_class hd rfl)
    · rename_i heq
      exact absurd heq (cons_ne_of_class hd rfl)
    · rfl
  have hwhole : whole? (d :: (digits ++ '\n' :: rest)) = some (d :: digits, '\n' :: rest) := by
    unfold whole?
    split
    · rename_i heq
      exact absurd (List.cons.inj heq).1 hzero
    · rw [digits?, if_pos hd, moreDigits_of_isDigit hdigits]
  have hfraction : fraction? ('\n' :: rest) = none := rfl
  have hexponent : exponent? ('\n' :: rest) = none := rfl
  unfold decimal?
  rw [hsign]
  simp only [hwhole, Option.map_some, hfraction, Option.getD_none, hexponent, Option.isNone_none,
    and_self, if_true, if_pos hlong]

omit hd in
theorem moment?_of_isDigit (hlong : 5 ≤ (d :: digits).length) :
    moment? (d :: (digits ++ '\n' :: rest)) = none := by
  match digits, hlong with
  | a :: b :: c :: e :: digits, _ =>
    have he : e ≠ '-' := ne_of_class (hdigits e (by simp)) rfl
    have hb : b ≠ ':' := ne_of_class (hdigits b (by simp)) rfl
    have hdate : date? (d :: a :: b :: c :: e :: (digits ++ '\n' :: rest)) = none := by
      simp [date?, expect?, he]
    have htime : time? (d :: a :: b :: c :: e :: (digits ++ '\n' :: rest)) = none := by
      have hcolon : expect? ':' (b :: c :: e :: (digits ++ '\n' :: rest)) = none := if_neg hb
      rw [time?, twoDigits?]
      simp only
      split
      · simp [hcolon]
      · rfl
    simp only [List.cons_append, moment?, hdate, htime, Option.map_none]

theorem scalar_of_isDigit (hzero : d ≠ '0') (hlong : 4300 < (d :: digits).length) :
    scalar (d :: (digits ++ '\n' :: rest)) = .error (.longInteger (d :: digits).length) := by
  have hscalar : (moment? (d :: (digits ++ '\n' :: rest))).or
      (number? (d :: (digits ++ '\n' :: rest))) =
        some (.error (.longInteger (d :: digits).length)) := by
    have hbased : based? (d :: (digits ++ '\n' :: rest)) = none := by
      unfold based?
      split
      all_goals first | rfl | exact absurd (List.cons.inj (by assumption)).1 hzero
    rw [moment?_of_isDigit hdigits (by omega), Option.none_or, number?, hbased]
    exact decimal?_of_isDigit hd hdigits hzero hlong
  rw [scalar]
  · simp only [hscalar]
  all_goals
    intro rest' heq
    exact absurd heq (cons_ne_of_class hd rfl)

theorem value_of_isDigit (hzero : d ≠ '0') (hlong : 4300 < (d :: digits).length) :
    value (fuel + 1) (d :: (digits ++ '\n' :: rest)) = .error (.longInteger (d :: digits).length) := by
  rw [value]
  · exact scalar_of_isDigit hd hdigits hzero hlong
  all_goals
    intro rest' heq
    exact absurd heq (cons_ne_of_class hd rfl)

end

theorem keyPart_of_isBareKey (hname : name ≠ []) (hbare : ∀ c ∈ name, isBareKey c = true) :
    keyPart (name ++ ' ' :: rest) = .ok (String.ofList name, ' ' :: rest) := by
  obtain ⟨c, more, rfl⟩ := List.exists_cons_of_ne_nil hname
  have hc : isBareKey c = true := hbare c (List.mem_cons_self ..)
  have hspan : (c :: more ++ ' ' :: rest).span isBareKey = (c :: more, ' ' :: rest) := by
    rw [List.span_eq_takeWhile_dropWhile, List.takeWhile_append_of_pos hbare,
      List.dropWhile_append_of_pos hbare]
    simp [isBareKey]
  rw [List.cons_append] at hspan ⊢
  rw [keyPart]
  · simp only [hspan]
  all_goals
    intro rest' heq
    exact absurd heq (cons_ne_of_class hc rfl)

theorem key_of_isBareKey (hname : name ≠ []) (hbare : ∀ c ∈ name, isBareKey c = true) :
    key (fuel + 1) (name ++ ' ' :: '=' :: rest) = .ok ([String.ofList name], '=' :: rest) := by
  rw [key, keyPart_of_isBareKey hname hbare]
  rfl

/-! ## The line -/

/-- A bare key is given an integer whose first digit is `d`. -/
def assignment (name : List Char) (d : Char) (digits : List Char) : List Char :=
  name ++ ' ' :: '=' :: ' ' :: d :: digits

theorem skipBlanks_cons (h : isBlank c = false) : skipBlanks (c :: cs) = c :: cs :=
  List.dropWhile_cons_of_neg (by rw [h]; exact Bool.false_ne_true)

theorem isBlank_eq_false {p : Char → Bool} (hc : p c = true) (hblank : p ' ' = false)
    (htab : p '\t' = false) : isBlank c = false := by
  rw [isBlank, decide_eq_false (ne_of_class hc hblank), decide_eq_false (ne_of_class hc htab)]
  rfl

theorem exists_cons_assignment (hname : name ≠ []) (hbare : ∀ c ∈ name, isBareKey c = true) :
    ∃ c line, isBareKey c = true ∧ assignment name d digits ++ '\n' :: rest = c :: line := by
  obtain ⟨c, more, rfl⟩ := List.exists_cons_of_ne_nil hname
  exact ⟨c, _, hbare c (List.mem_cons_self ..), rfl⟩

section
variable (hname : name ≠ []) (hbare : ∀ c ∈ name, isBareKey c = true)
  (hd : d.isDigit = true) (hzero : d ≠ '0') (hdigits : ∀ c ∈ digits, c.isDigit = true)
  (hlong : 4300 < (d :: digits).length)
include hname hbare hd hzero hdigits hlong

theorem pair_assignment (fuel : Nat) : pair (fuel + 2) (assignment name d digits ++ '\n' :: rest) =
    .error (.longInteger (d :: digits).length) := by
  have hblanks : skipBlanks (' ' :: d :: (digits ++ '\n' :: rest)) = d :: (digits ++ '\n' :: rest) :=
    (List.dropWhile_cons_of_pos rfl).trans (skipBlanks_cons (isBlank_eq_false hd rfl rfl))
  have hline : assignment name d digits ++ '\n' :: rest =
      name ++ ' ' :: '=' :: ' ' :: d :: (digits ++ '\n' :: rest) := by
    simp [assignment]
  rw [hline, pair, key_of_isBareKey hname hbare]
  show (value (fuel + 1) (skipBlanks (' ' :: d :: (digits ++ '\n' :: rest))) >>= _) = _
  rw [hblanks, value_of_isDigit hd hdigits hzero hlong]
  rfl

theorem statement_assignment {s : State} : statement s (assignment name d digits ++ '\n' :: rest) =
    .error (.longInteger (d :: digits).length) := by
  have hpair := @pair_assignment rest name digits d hname hbare hd hzero hdigits hlong
  obtain ⟨c, line, hc, hline⟩ := exists_cons_assignment hname hbare
  rw [hline] at hpair ⊢
  rw [statement]
  · rw [startsKey, hc]
    show addPair _ _ = _
    rw [addPair, hpair]
    rfl
  · intro rest' heq
    exact absurd heq (ne_of_class hc rfl)
  · exact ne_of_class hc rfl
  · exact ne_of_class hc rfl

/-- A document whose first line gives a bare key an integer of too many digits stops there. -/
theorem read_assignment : read (assignment name d digits ++ '\n' :: rest) =
    .error (.longInteger (d :: digits).length) := by
  have hbreak : '\r' ∉ assignment name d digits := by
    intro hmem
    rcases List.mem_append.1 hmem with hmem | hmem
    · exact absurd (hbare _ hmem) (by decide)
    · simp only [List.mem_cons, Char.reduceEq, false_or] at hmem
      rcases hmem with rfl | hmem
      · exact absurd hd (by decide)
      · exact absurd (hdigits _ hmem) (by decide)
  have hstatement := @statement_assignment (unifyPairs rest) name digits d hname hbare hd hzero
    hdigits hlong
  obtain ⟨c, line, hc, hline⟩ := @exists_cons_assignment (unifyPairs rest) name digits d hname hbare
  rw [read, unifyPairs_append hbreak, statements]
  rw [hline] at hstatement ⊢
  rw [skipBlanks_cons (isBlank_eq_false hc rfl rfl)]
  split
  · contradiction
  · rename_i heq
    exact absurd heq (cons_ne_of_class hc rfl)
  · rw [hstatement]
    rfl

end

/-- The document begins with a bare key that is given an integer of too many digits. -/
inductive BeginsTooLong : List Char → Prop
  | intro {name digits rest : List Char} {d : Char} : name ≠ [] → (∀ c ∈ name, isBareKey c = true) →
    d.isDigit = true → d ≠ '0' → (∀ c ∈ digits, c.isDigit = true) → 4300 < (d :: digits).length →
      BeginsTooLong (assignment name d digits ++ '\n' :: rest)

/-- Whatever follows, the reader comes no further. -/
theorem BeginsTooLong.read (h : BeginsTooLong cs) : ∃ n, Toml.read cs = .error (.longInteger n) := by
  cases h with
  | intro hname hbare hd hzero hdigits hlong =>
    exact ⟨_, read_assignment hname hbare hd hzero hdigits hlong⟩

end LayerGate.Value.Toml
