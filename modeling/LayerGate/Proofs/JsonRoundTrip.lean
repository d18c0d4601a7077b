import LayerGate.Proofs.JsonText

/-!
# Reading back what was printed

A printed value reads back as the value with the fields of its tables in the order of their keys,
which is the order in which they are printed.  This holds of values without reals and dates, which
have no text of their own, and without a key that stands twice in a table.
-/

namespace LayerGate.Value

/-! ## Values in their printed order -/

/-- By key. -/
def fieldLe (a b : String × Value) : Bool := (compare a.1 b.1).isLE

mutual

/-- The value with the fields of all its tables in the order of their keys. -/
def canonical : Value → Value
  | .list items => .list (canonicalItems items)
  | .table fields => .table ((canonicalFields fields).mergeSort fieldLe)
  | v => v

def canonicalItems : List Value → List Value
  | [] => []
  | v :: vs => v.canonical :: canonicalItems vs

def canonicalFields : Fields → Fields
  | [] => []
  | (k, v) :: fs => (k, v.canonical) :: canonicalFields fs

end

theorem canonicalItems_eq_map (items : List Value) :
    canonicalItems items = items.map canonical := by
  induction items with
  | nil => rfl
  | cons v vs ih => rw [canonicalItems, ih, List.map_cons]

theorem canonicalFields_eq_map (fields : Fields) :
    canonicalFields fields = fields.map fun f => (f.1, f.2.canonical) := by
  induction fields with
  | nil => rfl
  | cons f fs ih => rw [canonicalFields, ih, List.map_cons]

theorem canonical_list (items : List Value) :
    (Value.list items).canonical = .list (items.map canonical) := by
  rw [canonical, canonicalItems_eq_map]

theorem canonical_table (fields : Fields) :
    (Value.table fields).canonical =
      .table ((fields.mergeSort fieldLe).map fun f => (f.1, f.2.canonical)) := by
  have hsort : (fields.map fun f => (f.1, f.2.canonical)).mergeSort fieldLe =
      (fields.mergeSort fieldLe).map fun f => (f.1, f.2.canonical) := by
    symm
    apply List.map_mergeSort
    intro a _ b _
    rfl
  rw [canonical, canonicalFields_eq_map, hsort]

/-- No real and no date is in the value, and no key stands twice in a table. -/
inductive Printable : Value → Prop
  | null : Printable .null
  | bool (b : Bool) : Printable (.bool b)
  | int (n : Int) : Printable (.int n)
  | text (s : String) : Printable (.text s)
  | list {items : List Value} (h : ∀ v ∈ items, Printable v) : Printable (.list items)
  | table {fields : Fields} (hkeys : (fields.map (·.1)).Nodup) (h : ∀ f ∈ fields, Printable f.2) :
      Printable (.table fields)

namespace Json

/-! ## Blanks -/

theorem skipBlank_append {blank cs : List Char} (h : ∀ c ∈ blank, isBlank c = true) :
    skipBlank (blank ++ cs) = skipBlank cs :=
  List.dropWhile_append_of_pos h

theorem skipBlank_cons {c : Char} (h : isBlank c = false) (cs : List Char) :
    skipBlank (c :: cs) = c :: cs :=
  List.dropWhile_cons_of_neg (by simp [h])

theorem isBlank_of_mem_newline {depth : Nat} : ∀ c ∈ newline depth, isBlank c = true := by
  intro c hc
  rcases List.mem_cons.1 hc with rfl | hc
  · decide
  · rw [List.eq_of_mem_replicate hc]
    decide

section

variable {blank : List Char} (h : ∀ c ∈ blank, isBlank c = true) (fuel : Nat) (cs : List Char)

include h

theorem value?_blank : value? fuel (blank ++ cs) = value? fuel cs := by
  cases fuel with
  | zero => simp [value?]
  | succ fuel => rw [value?, value?, skipBlank_append h]

theorem items?_blank : items? fuel (blank ++ cs) = items? fuel cs := by
  cases fuel with
  | zero => simp [items?]
  | succ fuel => rw [items?, items?, value?_blank h]

theorem fields?_blank (done : Fields) : fields? fuel done (blank ++ cs) = fields? fuel done cs := by
  cases fuel with
  | zero => simp [fields?]
  | succ fuel => rw [fields?, fields?, skipBlank_append h]

end

/-! ## Groups -/

/-- The members with a comma and an indentation between them, and `close` behind the last. -/
def listing (indent : List Char) (close : List Char) : List (List Char) → List Char
  | [] => close
  | [m] => m ++ close
  | m :: ms => m ++ ',' :: (indent ++ listing indent close ms)

theorem listing_append (indent close rest : List Char) (members : List (List Char)) :
    listing indent close members ++ rest = listing indent (close ++ rest) members := by
  fun_induction listing indent close members with
  | case1 => rfl
  | case2 m => simp [listing]
  | case3 m ms hne ih => simp [listing, ih]

theorem listing_head (indent close : List Char) (c : Char) (cs : List Char)
    (ms : List (List Char)) : ∃ more, listing indent close ((c :: cs) :: ms) = c :: more := by
  cases ms with
  | nil => exact ⟨_, rfl⟩
  | cons m ms => exact ⟨_, rfl⟩

/-- Without what closes it a listing is shorter. -/
theorem length_listing (indent close m : List Char) (ms : List (List Char)) :
    (listing indent close (m :: ms)).length =
      (listing indent [] (m :: ms)).length + close.length := by
  have happend := listing_append indent [] close (m :: ms)
  rw [List.nil_append] at happend
  rw [← happend, List.length_append]

theorem flatten_intersperse_eq_listing (indent close m : List Char) (ms : List (List Char)) :
    (((m :: ms).map (indent ++ ·)).intersperse [',']).flatten ++ close =
      indent ++ listing indent close (m :: ms) := by
  induction ms generalizing m with
  | nil => simp [listing]
  | cons m' ms ih =>
    have hrest := ih m'
    simp only [List.map_cons] at hrest ⊢
    rw [List.intersperse_cons_cons, List.flatten_cons, List.flatten_cons, List.append_assoc,
      List.append_assoc, List.append_assoc, hrest]
    simp [listing]

theorem group_append (opening closing : Char) (depth : Nat) (m : List Char)
    (ms : List (List Char)) (rest : List Char) :
    group opening closing depth (m :: ms) ++ rest = opening ::
      (newline (depth + 1) ++
        listing (newline (depth + 1)) (newline depth ++ closing :: rest) (m :: ms)) := by
  show opening :: ((((m :: ms).map (newline (depth + 1) ++ ·)).intersperse [',']).flatten ++
    newline depth ++ [closing]) ++ rest = _
  rw [List.append_assoc, flatten_intersperse_eq_listing, List.cons_append, List.append_assoc,
    listing_append, List.append_assoc]
  rfl

/-- The text of the members is shorter than that of the group. -/
theorem length_listing_lt_group (opening closing : Char) (depth : Nat) (m : List Char)
    (ms : List (List Char)) :
    (listing (newline (depth + 1)) [] (m :: ms)).length + 1 <
      (group opening closing depth (m :: ms)).length := by
  have hgroup := group_append opening closing depth m ms []
  rw [List.append_nil] at hgroup
  rw [hgroup, List.length_cons, List.length_append,
    length_listing _ (newline depth ++ [closing]), List.length_append, List.length_singleton]
  omega

theorem newline_endsNumber (depth : Nat) (rest : List Char) : EndsNumber (newline depth ++ rest) :=
  EndsNumber.cons (by decide) (by decide) (by decide) (by decide) _

theorem comma_endsNumber (rest : List Char) : EndsNumber (',' :: rest) :=
  EndsNumber.cons (by decide) (by decide) (by decide) (by decide) _

/-! ## Values -/

/-- The printed value reads back, with whatever fuel its text has characters, and whatever follows it
that does not go on with a number. -/
def ReadsBack (depth : Nat) (v : Value) : Prop :=
  ∀ fuel rest, (print depth v).length ≤ fuel → EndsNumber rest →
    value? fuel (print depth v ++ rest) = some (v.canonical, rest)

theorem items?_listing (outer : Nat) {depth : Nat} {v : Value} {vs : List Value}
    (hread : ∀ w ∈ v :: vs, ReadsBack depth w) (fuel : Nat) (rest : List Char)
    (hfuel : (listing (newline depth) [] ((v :: vs).map (print depth))).length < fuel) :
    items? fuel (listing (newline depth) (newline outer ++ ']' :: rest)
      ((v :: vs).map (print depth))) = some ((v :: vs).map canonical, rest) := by
  obtain ⟨fuel, rfl⟩ : ∃ n, fuel = n + 1 := ⟨fuel - 1, by omega⟩
  have hv : ReadsBack depth v := hread v (List.mem_cons_self ..)
  induction vs generalizing v fuel with
  | nil =>
    simp only [List.map_cons, List.map_nil, listing, List.append_nil] at hfuel ⊢
    rw [items?, hv fuel _ (by omega) (newline_endsNumber _ _)]
    simp [skipBlank_append isBlank_of_mem_newline, skipBlank_cons (show isBlank ']' = false by decide)]
  | cons w vs ih =>
    simp only [List.map_cons, listing, List.length_append, List.length_cons] at hfuel ⊢
    rw [items?, hv fuel _ (by omega) (comma_endsNumber _)]
    obtain ⟨fuel, rfl⟩ : ∃ n, fuel = n + 1 := ⟨fuel - 1, by omega⟩
    have hrest := ih (fun x hx => hread x (List.mem_cons_of_mem _ hx)) fuel
      (by simp only [List.map_cons]; omega) (hread w (by simp))
    simp only [List.map_cons] at hrest
    simp [skipBlank_cons (show isBlank ',' = false by decide), items?_blank isBlank_of_mem_newline,
      hrest]

/-- A member of a printed table. -/
def member (depth : Nat) (f : String × Value) : List Char :=
  quote f.1 ++ ':' :: ' ' :: print depth f.2

/-- Fields whose keys are new go to the end. -/
theorem put_of_fresh {fields : Fields} {key : String} (h : key ∉ fields.map (·.1)) (v : Value) :
    fields.put key v = fields ++ [(key, v)] := by
  induction fields with
  | nil => rfl
  | cons f fields ih =>
    obtain ⟨k, w⟩ := f
    rw [List.map_cons, List.mem_cons, not_or] at h
    rw [Fields.put, if_neg fun he => h.1 he.symm, ih h.2]
    rfl

/-- Reading one member, up to what follows it. -/
theorem fields?_member {depth fuel : Nat} {f : String × Value} {done : Fields} {after : List Char}
    (hread : ReadsBack depth f.2) (hfresh : f.1 ∉ done.map (·.1))
    (hfuel : (member depth f).length ≤ fuel) (hafter : EndsNumber after) :
    fields? (fuel + 1) done (member depth f ++ after) =
      match skipBlank after with
      | ',' :: rest => fields? fuel (done ++ [(f.1, f.2.canonical)]) rest
      | '}' :: rest => some (done ++ [(f.1, f.2.canonical)], rest)
      | _ => none := by
  have hquote : skipBlank ('\x22' :: (f.1.toList.flatMap escape ++
      '\x22' :: ':' :: ' ' :: (print depth f.2 ++ after))) =
        '\x22' :: (f.1.toList.flatMap escape ++
          '\x22' :: ':' :: ' ' :: (print depth f.2 ++ after)) :=
    skipBlank_cons (by decide) _
  have hcolon : skipBlank (':' :: ' ' :: (print depth f.2 ++ after)) =
      ':' :: ' ' :: (print depth f.2 ++ after) :=
    skipBlank_cons (by decide) _
  have hvalue : value? fuel (' ' :: (print depth f.2 ++ after)) = some (f.2.canonical, after) := by
    have hlength : (print depth f.2).length ≤ fuel := by
      simp only [member, List.length_append, List.length_cons] at hfuel
      omega
    rw [← hread fuel after hlength hafter]
    have hblank : ∀ c ∈ [' '], isBlank c = true := by
      intro c hc
      rw [List.mem_singleton.1 hc]
      rfl
    exact value?_blank hblank fuel _
  have hput := put_of_fresh hfresh f.2.canonical
  have hsplit : member depth f ++ after = '\x22' :: (f.1.toList.flatMap escape ++
      '\x22' :: ':' :: ' ' :: (print depth f.2 ++ after)) := by
    simp [member, quote]
  rw [hsplit, fields?, hquote]
  simp only [text?_quote, hcolon, hvalue, hput, Option.bind_eq_bind, Option.bind_some]
  rfl

theorem fields?_listing (outer : Nat) {depth : Nat} {f : String × Value} {fs : Fields}
    (hread : ∀ g ∈ f :: fs, ReadsBack depth g.2) (done : Fields)
    (hkeys : (done.map (·.1) ++ (f :: fs).map (·.1)).Nodup) (fuel : Nat) (rest : List Char)
    (hfuel : (listing (newline depth) [] ((f :: fs).map (member depth))).length < fuel) :
    fields? fuel done (listing (newline depth) (newline outer ++ '}' :: rest)
      ((f :: fs).map (member depth))) =
        some (done ++ (f :: fs).map fun g => (g.1, g.2.canonical), rest) := by
  obtain ⟨fuel, rfl⟩ : ∃ n, fuel = n + 1 := ⟨fuel - 1, by omega⟩
  have hf : ReadsBack depth f.2 := hread f (List.mem_cons_self ..)
  have hfresh : f.1 ∉ done.map (·.1) := fun hmem =>
    (List.nodup_append.1 hkeys).2.2 f.1 hmem f.1 (by simp) rfl
  induction fs generalizing f fuel done with
  | nil =>
    simp only [List.map_cons, List.map_nil, listing, List.append_nil] at hfuel ⊢
    rw [fields?_member hf hfresh (by omega) (newline_endsNumber _ _),
      skipBlank_append isBlank_of_mem_newline, skipBlank_cons (by decide)]
    rfl
  | cons g fs ih =>
    simp only [List.map_cons, listing, List.length_append, List.length_cons] at hfuel ⊢
    rw [fields?_member hf hfresh (by omega) (comma_endsNumber _), skipBlank_cons (by decide)]
    obtain ⟨fuel, rfl⟩ : ∃ n, fuel = n + 1 := ⟨fuel - 1, by omega⟩
    -- The key of the member that was read is no key of those that follow.
    have hkeys' : ((done ++ [(f.1, f.2.canonical)]).map (·.1) ++ (g :: fs).map (·.1)).Nodup := by
      simpa using hkeys
    have hrest := ih (fun x hx => hread x (List.mem_cons_of_mem _ hx))
      (done ++ [(f.1, f.2.canonical)]) hkeys' fuel (by simp only [List.map_cons]; omega)
      (hread g (by simp)) (fun hmem => (List.nodup_append.1 hkeys').2.2 g.1 hmem g.1 (by simp) rfl)
    simp only [List.map_cons, List.append_assoc, List.singleton_append] at hrest
    simp only [fields?_blank isBlank_of_mem_newline, hrest]

/-! ## Whole values -/

theorem printItems_eq_map (depth : Nat) (items : List Value) :
    printItems depth items = items.map (print depth) := by
  induction items with
  | nil => rfl
  | cons v vs ih => rw [printItems, ih, List.map_cons]

theorem printFields_eq_map (depth : Nat) (fields : Fields) :
    printFields depth fields = fields.map fun f => (f.1, print depth f.2) := by
  induction fields with
  | nil => rfl
  | cons f fs ih => rw [printFields, ih, List.map_cons]

/-- A table is printed in the order of its keys. -/
theorem print_table (depth : Nat) (fields : Fields) :
    print depth (.table fields) =
      group '{' '}' depth ((fields.mergeSort fieldLe).map (member (depth + 1))) := by
  have hsort : (fields.map fun f => (f.1, print (depth + 1) f.2)).mergeSort keyLe =
      (fields.mergeSort fieldLe).map fun f => (f.1, print (depth + 1) f.2) := by
    symm
    apply List.map_mergeSort
    intro a _ b _
    rfl
  rw [print, printFields_eq_map, hsort, List.map_map]
  rfl

/-- A character at which a value may start, and no list may end. -/
def StartsValue (c : Char) : Prop := isBlank c = false ∧ c ≠ ']'

theorem startsValue_of_isDigit {c : Char} (h : c.isDigit = true) : StartsValue c := by
  have hne : ∀ {d : Char}, d.isDigit = false → c ≠ d := by
    rintro d hd rfl
    rw [h] at hd
    cases hd
  refine ⟨?_, hne (by decide)⟩
  have hspace : c ≠ ' ' := hne (by decide)
  have htab : c ≠ '\t' := hne (by decide)
  have hline : c ≠ '\n' := hne (by decide)
  have hreturn : c ≠ '\r' := hne (by decide)
  simp [isBlank, hspace, htab, hline, hreturn]

theorem print_head (depth : Nat) (v : Value) : ∃ c cs, print depth v = c :: cs ∧ StartsValue c := by
  have hgroup : ∀ opening closing members, ∃ cs,
      group opening closing depth members = opening :: cs := by
    intro opening closing members
    cases members with
    | nil => exact ⟨_, rfl⟩
    | cons m ms => exact ⟨_, rfl⟩
  cases v with
  | null => exact ⟨'n', _, rfl, by decide, by decide⟩
  | bool b =>
    cases b with
    | true => exact ⟨'t', _, rfl, by decide, by decide⟩
    | false => exact ⟨'f', _, rfl, by decide, by decide⟩
  | int n =>
    cases n with
    | ofNat n =>
      cases hdigits : Nat.toDigits 10 n with
      | nil => exact absurd hdigits Nat.toDigits_ne_nil
      | cons c cs =>
        have hc : c ∈ Nat.toDigits 10 n := by simp [hdigits]
        exact ⟨c, cs, hdigits,
          startsValue_of_isDigit (Nat.isDigit_of_mem_toDigits (by decide) (by decide) hc)⟩
    | negSucc n => exact ⟨'-', _, rfl, by decide, by decide⟩
  | real x => exact ⟨'n', _, rfl, by decide, by decide⟩
  | text s => exact ⟨'\x22', _, rfl, by decide, by decide⟩
  | moment => exact ⟨'n', _, rfl, by decide, by decide⟩
  | list items =>
    obtain ⟨cs, hcs⟩ := hgroup '[' ']' (printItems (depth + 1) items)
    exact ⟨'[', cs, by rw [print, hcs], by decide, by decide⟩
  | table fields =>
    obtain ⟨cs, hcs⟩ := hgroup '{' '}' ((fields.mergeSort fieldLe).map (member (depth + 1)))
    exact ⟨'{', cs, by rw [print_table, hcs], by decide, by decide⟩

/-- A printed value is not empty, so there is fuel to read it. -/
theorem readsBack_of_succ {depth : Nat} {v : Value}
    (h : ∀ fuel rest, (print depth v).length ≤ fuel + 1 → EndsNumber rest →
      value? (fuel + 1) (print depth v ++ rest) = some (v.canonical, rest)) : ReadsBack depth v := by
  intro fuel rest hfuel hrest
  obtain ⟨c, cs, hprint, -⟩ := print_head depth v
  have hpos : 0 < (print depth v).length := by simp [hprint]
  obtain ⟨fuel, rfl⟩ : ∃ n, fuel = n + 1 := ⟨fuel - 1, by omega⟩
  exact h fuel rest hfuel hrest

theorem value?_of_number {c : Char} (h : c.isDigit = true ∨ c = '-') (fuel : Nat)
    (cs : List Char) : value? (fuel + 1) (c :: cs) = number? (c :: cs) := by
  have hne : ∀ {d : Char}, d.isDigit = false → d ≠ '-' → c ≠ d := by
    rintro d hd hminus rfl
    rcases h with h | h
    · rw [h] at hd
      cases hd
    · exact hminus h
  have hblank : isBlank c = false := by
    rcases h with h | rfl
    · exact (startsValue_of_isDigit h).1
    · decide
  have hn : c ≠ 'n' := hne (by decide) (by decide)
  have ht : c ≠ 't' := hne (by decide) (by decide)
  have hf : c ≠ 'f' := hne (by decide) (by decide)
  have hquote : c ≠ '\x22' := hne (by decide) (by decide)
  have hbracket : c ≠ '[' := hne (by decide) (by decide)
  have hbrace : c ≠ '{' := hne (by decide) (by decide)
  rw [value?, skipBlank_cons hblank]
  split <;> simp_all

theorem readsBack_int (depth : Nat) (n : Int) : ReadsBack depth (.int n) := by
  apply readsBack_of_succ
  intro fuel rest _ hrest
  have hnumber := number?_integer n hrest
  show value? (fuel + 1) (integer n ++ rest) = some (.int n, rest)
  rw [← hnumber]
  cases n with
  | ofNat n =>
    show value? (fuel + 1) (Nat.toDigits 10 n ++ rest) = number? (Nat.toDigits 10 n ++ rest)
    cases hdigits : Nat.toDigits 10 n with
    | nil => exact absurd hdigits Nat.toDigits_ne_nil
    | cons c cs =>
      have hc : c ∈ Nat.toDigits 10 n := by simp [hdigits]
      exact value?_of_number (.inl (Nat.isDigit_of_mem_toDigits (by decide) (by decide) hc)) _ _
  | negSucc n => exact value?_of_number (.inr rfl) _ _

theorem readsBack_text (depth : Nat) (s : String) : ReadsBack depth (.text s) := by
  apply readsBack_of_succ
  intro fuel rest _ _
  have hsplit : print depth (.text s) ++ rest =
      '\x22' :: (s.toList.flatMap escape ++ '\x22' :: rest) := by
    simp [print, quote]
  rw [hsplit, value?, skipBlank_cons (by decide)]
  simp only [text?_quote]
  rfl

theorem readsBack_list {items : List Value} {depth : Nat}
    (hread : ∀ v ∈ items, ReadsBack (depth + 1) v) : ReadsBack depth (.list items) := by
  apply readsBack_of_succ
  intro fuel rest hfuel _
  rw [canonical_list]
  rw [print, printItems_eq_map] at hfuel ⊢
  cases items with
  | nil =>
    rw [value?.eq_def]
    rfl
  | cons v vs =>
    rw [List.map_cons] at hfuel ⊢
    have hlength := length_listing_lt_group '[' ']' depth (print (depth + 1) v)
      (vs.map (print (depth + 1)))
    have hitems := items?_listing depth hread fuel rest
      (by rw [List.map_cons]; omega)
    rw [List.map_cons] at hitems
    -- The first item is no bracket, so the list is not taken for an empty one.
    obtain ⟨c, cs, hhead, hstart⟩ := print_head (depth + 1) v
    obtain ⟨more, hmore⟩ := listing_head (newline (depth + 1)) (newline depth ++ ']' :: rest) c cs
      (vs.map (print (depth + 1)))
    rw [hhead, hmore] at hitems
    rw [group_append, hhead, hmore, value?, skipBlank_cons (by decide)]
    simp only [skipBlank_append isBlank_of_mem_newline, skipBlank_cons hstart.1]
    split
    · rename_i heq
      exact absurd (List.cons.inj heq).1 hstart.2
    · rw [hitems]
      rfl

theorem readsBack_table {fields : Fields} {depth : Nat} (hkeys : (fields.map (·.1)).Nodup)
    (hread : ∀ f ∈ fields, ReadsBack (depth + 1) f.2) : ReadsBack depth (.table fields) := by
  apply readsBack_of_succ
  intro fuel rest hfuel _
  have hperm := List.mergeSort_perm fields fieldLe
  have hkeys' : ((fields.mergeSort fieldLe).map (·.1)).Nodup :=
    (hperm.map _).nodup_iff.2 hkeys
  have hread' : ∀ f ∈ fields.mergeSort fieldLe, ReadsBack (depth + 1) f.2 := fun f hf =>
    hread f (hperm.mem_iff.1 hf)
  rw [canonical_table]
  rw [print_table] at hfuel ⊢
  generalize fields.mergeSort fieldLe = sorted at hkeys' hread' hfuel
  cases sorted with
  | nil =>
    rw [value?.eq_def]
    rfl
  | cons f fs =>
    rw [List.map_cons] at hfuel ⊢
    have hlength := length_listing_lt_group '{' '}' depth (member (depth + 1) f)
      (fs.map (member (depth + 1)))
    have hfields := fields?_listing depth hread' [] hkeys' fuel rest
      (by rw [List.map_cons]; omega)
    rw [List.map_cons] at hfields
    -- The first member starts with a quote, so the table is not taken for an empty one.
    obtain ⟨more, hmore⟩ := listing_head (newline (depth + 1)) (newline depth ++ '}' :: rest) '\x22'
      (f.1.toList.flatMap escape ++ ['\x22'] ++ ':' :: ' ' :: print (depth + 1) f.2)
      (fs.map (member (depth + 1)))
    have hmember : member (depth + 1) f = '\x22' ::
        (f.1.toList.flatMap escape ++ ['\x22'] ++ ':' :: ' ' :: print (depth + 1) f.2) := rfl
    rw [hmember, hmore] at hfields
    rw [group_append, hmember, hmore, value?, skipBlank_cons (by decide)]
    simp only [skipBlank_append isBlank_of_mem_newline,
      skipBlank_cons (show isBlank '\x22' = false by decide)]
    split
    · rename_i heq
      exact absurd (List.cons.inj heq).1 (by decide)
    · rw [hfields]
      rfl

/-- What is printed for a value reads back. -/
theorem readsBack_of_printable {v : Value} (h : Printable v) (depth : Nat) : ReadsBack depth v := by
  induction h generalizing depth with
  | null =>
    apply readsBack_of_succ
    intro fuel rest _ _
    rw [value?.eq_def]
    rfl
  | bool b =>
    apply readsBack_of_succ
    intro fuel rest _ _
    rw [value?.eq_def]
    cases b with
    | true => rfl
    | false => rfl
  | int n => exact readsBack_int depth n
  | text s => exact readsBack_text depth s
  | list h ih => exact readsBack_list fun v hv => ih v hv (depth + 1)
  | table hkeys h ih => exact readsBack_table hkeys fun f hf => ih f hf (depth + 1)

/-- A printed document reads back. -/
theorem read_document {v : Value} (h : Printable v) : read (document v) = some v.canonical := by
  have hread := readsBack_of_printable h 0 ((print 0 v ++ ['\n']).length + 1) ['\n'] (by simp; omega)
    (EndsNumber.cons (by decide) (by decide) (by decide) (by decide) [])
  rw [read, document, String.toList_ofList]
  simp only [hread]
  rfl

end Json

end LayerGate.Value
