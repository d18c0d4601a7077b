import LayerGate.Proofs.Results
import LayerGate.Proofs.SpecifierMeaning

/-!
# Look-ups that the disk refuses

The disk refuses to say whether a file is there when a text is too long, and for nothing else.  A
reference has no answer exactly when that happens in one of its look-ups.
-/

namespace LayerGate

/-! ## Refusals of the disk -/

namespace Disk

variable {d : Disk} {here names base : List String} {links : Nat} {cause : Cause} {fault : Fault}
  {path : String}

theorem ne_isFolder_of_walk (h : walk d links here names = .error cause) : cause ≠ .isFolder := by
  fun_induction walk d links here names with
  | case1 => cases h
  | case2 _ _ _ _ _ _ _ ih => exact ih h
  | case3 _ _ _ _ _ _ ih => exact ih h
  | case8 _ _ _ _ _ _ _ _ _ _ _ ih => exact ih h
  | case9 _ _ _ _ _ _ _ _ _ _ _ _ ih => exact ih h
  | case4 | case5 | case6 | case7 | case10 =>
    cases h <;> decide

theorem ne_isFolder_of_look (h : d.look base path = .error cause) : cause ≠ .isFolder := by
  unfold look locate place at h
  split at h
  · cases h
    decide
  · cases hwalk : walk d linkLimit (originOf base path) (pieces path) with
    | error cause' =>
      rw [hwalk] at h
      cases h
      exact ne_isFolder_of_walk hwalk
    | ok there =>
      rw [hwalk] at h
      cases there with
      | missing folder name =>
        cases h
        decide
      | found position =>
        cases hat : d.at? position with
        | none =>
          simp only [bind, Except.bind, pure, Except.pure, hat] at h
          cases h
          decide
        | some e =>
          simp only [bind, Except.bind, pure, Except.pure, hat] at h
          cases h

/-- Only a text that is too long keeps the disk from an answer. -/
theorem cause_of_find? (h : d.find? base path = .error fault) : fault.cause = .nameTooLong := by
  unfold find? at h
  split at h
  · cases h
  · split at h
    · cases h
    · rename_i cause hlook
      have hfolder := ne_isFolder_of_look hlook
      split at h
      · cases h
      · rename_i hpresent
        obtain rfl := Except.error.inj h
        cases cause with
        | nameTooLong => rfl
        | isFolder => exact absurd rfl hfolder
        | noEntry => exact absurd rfl hpresent
        | notFolder => exact absurd rfl hpresent
        | tooManyLinks => exact absurd rfl hpresent

end Disk

theorem Analysis.cause_of_isFile {d : Disk} {root path : String} {fault : Disk.Fault}
    (h : isFile d root path = .error fault) : fault.cause = .nameTooLong := by
  unfold isFile at h
  cases hfind : d.find? [] (below root path) with
  | ok found =>
    rw [hfind] at h
    cases h
  | error fault' =>
    rw [hfind] at h
    cases h
    exact Disk.cause_of_find? hfind

/-! ## Look-ups that are refused -/

namespace Resolution

variable {p : Project} {file : String} {r : Import.Ref} {candidates target package leftover : List String}

/-- The disk is asked about a candidate and does not answer: those before it are no files. -/
def Refuses (p : Project) (candidates : List String) : Prop :=
  ∃ before c after, candidates = before ++ c :: after ∧
    (∀ b ∈ before, b ∉ p.files ∧ p.isFile b = .ok false) ∧
      c ∉ p.files ∧ ∃ fault, p.isFile c = .error fault

theorem not_refuses_nil : ¬ Refuses p [] := by
  rintro ⟨before, c, after, h, -⟩
  cases before <;> cases h

theorem refuses_cons_iff {c : String} : Refuses p (c :: candidates) ↔
    c ∉ p.files ∧ ((∃ fault, p.isFile c = .error fault) ∨
      p.isFile c = .ok false ∧ Refuses p candidates) := by
  constructor
  · rintro ⟨before, c', after, h, hbefore, hscanned, hfault⟩
    cases before with
    | nil =>
      cases h
      exact ⟨hscanned, .inl hfault⟩
    | cons b before =>
      cases h
      obtain ⟨hb, hrest⟩ := List.forall_mem_cons.1 hbefore
      exact ⟨hb.1, .inr ⟨hb.2, before, c', after, rfl, hrest, hscanned, hfault⟩⟩
  · rintro ⟨hscanned, hfault | ⟨hno, before, c', after, rfl, hbefore, hscanned', hfault⟩⟩
    · exact ⟨[], c, candidates, rfl, nofun, hscanned, hfault⟩
    · exact ⟨c :: before, c', after, rfl, List.forall_mem_cons.2 ⟨⟨hscanned, hno⟩, hbefore⟩,
        hscanned', hfault⟩

/-- A look-up has no answer exactly when the disk refuses one of the candidates that it asks about. -/
theorem find?_error_iff : (∃ fault, p.find? candidates = .error fault) ↔ Refuses p candidates := by
  induction candidates with
  | nil => exact iff_of_false (not_exists_error _) not_refuses_nil
  | cons c rest ih =>
    rw [refuses_cons_iff, Project.find?]
    by_cases hscanned : p.files.contains c = true
    · rw [if_pos hscanned]
      exact iff_of_false (not_exists_error _) fun h => h.1 (List.contains_iff_mem.1 hscanned)
    · rw [if_neg hscanned]
      have hnot : c ∉ p.files := fun hc => hscanned (List.contains_iff_mem.2 hc)
      cases hthere : p.isFile c with
      | error fault => exact iff_of_true ⟨fault, rfl⟩ ⟨hnot, .inl ⟨fault, rfl⟩⟩
      | ok there =>
        cases there with
        | true => exact iff_of_false (not_exists_error _) (by simp)
        | false => exact ih.trans (by simp [hnot])

theorem find?_eq_none (h : ∀ c ∈ candidates, c ∉ p.files ∧ p.isFile c = .ok false) :
    p.find? candidates = .ok none := by
  induction candidates with
  | nil => rfl
  | cons c rest ih =>
    obtain ⟨⟨hnot, hno⟩, hrest⟩ := List.forall_mem_cons.1 h
    rw [Project.find?, if_neg (fun hc => hnot (List.contains_iff_mem.1 hc)), hno]
    exact ih hrest

theorem find?_eq_none_iff :
    p.find? candidates = .ok none ↔ ∀ c ∈ candidates, c ∉ p.files ∧ p.isFile c = .ok false := by
  refine ⟨fun h => ?_, find?_eq_none⟩
  induction candidates with
  | nil => nofun
  | cons c rest ih =>
    rw [Project.find?] at h
    split at h
    · cases h
    · rename_i hnot
      have hscanned : c ∉ p.files := fun hc => hnot (List.contains_iff_mem.2 hc)
      cases hthere : p.isFile c with
      | error fault =>
        rw [hthere] at h
        cases h
      | ok there =>
        rw [hthere] at h
        cases there with
        | true => cases h
        | false => exact List.forall_mem_cons.2 ⟨⟨hscanned, hthere⟩, ih h⟩

/-! ## The look-ups of a reference -/

/-- Nothing is found. -/
def isMissing (p : Project) (candidates : List String) : Bool :=
  match p.find? candidates with
  | .ok none => true
  | _ => false

/-- The candidates of each name. -/
def nameLookups (target names : List String) : List (List String) :=
  names.map fun name => moduleCandidates (target ++ [name])

/-- The lists of candidates that are gone through for a reference.  The folder or module that a
relative import starts from is looked up when a name is missing in it or no name is asked for. -/
def lookups (p : Project) (file : String) (r : Import.Ref) : List (List String) :=
  match r.language with
  | .python =>
    if r.level = 0 then []
    else match package? file r with
      | none => []
      | some package =>
        let names := nameLookups (package ++ moduleParts r) r.names
        names ++ if r.names = [] ∨ names.any (isMissing p) then
          [baseCandidates r (package ++ moduleParts r)] else []
  | .javascript => [webPathCandidates p file r]

theorem base_error_iff :
    (∃ fault, base p r target leftover = .error fault) ↔ Refuses p (baseCandidates r target) := by
  rw [← find?_error_iff]
  unfold base
  cases p.find? (baseCandidates r target) with
  | error fault => exact iff_of_true ⟨fault, rfl⟩ ⟨fault, rfl⟩
  | ok found =>
    refine iff_of_false ?_ (not_exists_error _)
    cases found with
    | some outcome => exact not_exists_error _
    | none =>
      rintro ⟨fault, h⟩
      change (if moduleParts r ≠ [] ∨ leftover = [] then _ else _) = Except.error fault at h
      split at h <;> cases h

theorem base_of_found {outcome : Outcome}
    (h : p.find? (baseCandidates r target) = .ok (some outcome)) :
    base p r target leftover = .ok [⟨r.specifier, r.line, outcome⟩] := by
  unfold base
  rw [h]
  rfl

/-- A module that is not there is told as a whole, and so is a folder of which no names are left. -/
theorem base_of_missing_whole (h : p.find? (baseCandidates r target) = .ok none)
    (hwhole : moduleParts r ≠ [] ∨ leftover = []) : base p r target leftover =
      .ok [⟨r.specifier, r.line, .broken (nonEmpty? ("/".intercalate target))⟩] := by
  unfold base
  rw [h]
  exact if_pos hwhole

theorem base_of_missing_names (h : p.find? (baseCandidates r target) = .ok none)
    (hnames : ¬ (moduleParts r ≠ [] ∨ leftover = [])) : base p r target leftover =
      .ok (leftover.map fun name =>
        ⟨dots r ++ name, r.line, .broken (some ("/".intercalate (target ++ [name])))⟩) := by
  unfold base
  rw [h]
  exact if_neg hnames

theorem relativeNames_error_iff {names : List String} :
    (∃ fault, relativeNames p target names = .error fault) ↔
      ∃ candidates ∈ nameLookups target names, Refuses p candidates := by
  induction names with
  | nil => exact iff_of_false (not_exists_error _) (by simp [nameLookups])
  | cons name rest ih =>
    show _ ↔ ∃ candidates ∈ moduleCandidates (target ++ [name]) :: nameLookups target rest, _
    rw [List.exists_mem_cons_iff, ← ih, ← find?_error_iff, relativeNames]
    cases p.find? (moduleCandidates (target ++ [name])) with
    | error fault => exact iff_of_true ⟨fault, rfl⟩ (.inl ⟨fault, rfl⟩)
    | ok outcome =>
      cases relativeNames p target rest with
      | error fault => exact iff_of_true ⟨fault, rfl⟩ (.inr ⟨fault, rfl⟩)
      | ok later => exact iff_of_false (not_exists_error _) (by simp)

/-- Names are left over where a look-up finds nothing. -/
theorem leftoverNames_ne_nil_iff {names : List String} {found : List (String × Option Outcome)}
    (h : relativeNames p target names = .ok found) :
    leftoverNames found ≠ [] ↔ (nameLookups target names).any (isMissing p) = true := by
  induction names generalizing found with
  | nil =>
    cases h
    exact iff_of_false (fun hne => hne rfl) Bool.false_ne_true
  | cons name rest ih =>
    unfold relativeNames at h
    obtain ⟨outcome, houtcome, h⟩ := bind_eq_ok_iff.1 h
    obtain ⟨later, hlater, h⟩ := bind_eq_ok_iff.1 h
    cases h
    have hmissing : isMissing p (moduleCandidates (target ++ [name])) = outcome.isNone := by
      unfold isMissing
      rw [houtcome]
      cases outcome <;> rfl
    show _ ↔ ((moduleCandidates (target ++ [name]) :: nameLookups target rest).any _) = true
    rw [List.any_cons, hmissing, Bool.or_eq_true, ← ih hlater]
    cases outcome with
    | none => exact iff_of_true (List.cons_ne_nil _ _) (.inl rfl)
    | some o => exact ⟨.inr, fun h => h.resolve_left Bool.false_ne_true⟩

theorem relative_error_iff (hpackage : package? file r = some package) :
    (∃ fault, relative p file r = .error fault) ↔
      ∃ candidates ∈ nameLookups (package ++ moduleParts r) r.names ++
          (if r.names = [] ∨ (nameLookups (package ++ moduleParts r) r.names).any (isMissing p) then
            [baseCandidates r (package ++ moduleParts r)] else []), Refuses p candidates := by
  simp only [List.mem_append, or_and_right, exists_or]
  rw [← relativeNames_error_iff]
  cases hnames : relativeNames p (package ++ moduleParts r) r.names with
  | error fault =>
    refine iff_of_true ⟨fault, ?_⟩ (.inl ⟨fault, rfl⟩)
    unfold relative
    rw [hpackage]
    simp only [hnames]
    rfl
  | ok found =>
    rw [relative_of_names hpackage hnames]
    simp only [leftoverNames_ne_nil_iff hnames, reduceCtorEq, exists_false, false_or]
    split
    · simp only [List.mem_singleton, exists_eq_left]
      rw [← @base_error_iff p r _ (leftoverNames found)]
      cases base p r (package ++ moduleParts r) (leftoverNames found) with
      | error fault => exact iff_of_true ⟨fault, rfl⟩ ⟨fault, rfl⟩
      | ok later => exact iff_of_false (not_exists_error _) (not_exists_error _)
    · exact iff_of_false (not_exists_error _) (by simp)

theorem web_error_iff :
    (∃ fault, web p file r = .error fault) ↔ Refuses p (webPathCandidates p file r) := by
  have hmap : ∀ {α β : Type} {f : α → β} {x : Except Disk.Fault α},
      (∃ fault, x.map f = .error fault) ↔ ∃ fault, x = .error fault := by
    intro α β f x
    cases x with
    | error fault => exact iff_of_true ⟨fault, rfl⟩ ⟨fault, rfl⟩
    | ok a => exact iff_of_false (not_exists_error _) (not_exists_error _)
  rw [web_eq_map, hmap]
  unfold webOutcome webPathCandidates
  cases pathOf? p file r.module with
  | none => exact iff_of_false (not_exists_error _) not_refuses_nil
  | some path =>
    simp only
    split
    · exact iff_of_false (not_exists_error _) not_refuses_nil
    · rw [hmap, find?_error_iff]

end Resolution

/-! ## The references of a file -/

namespace FileImports

open Resolution

variable {p : Project} {path : String} {r : Import.Ref} {rs : List Import.Ref}

/-- A reference has no answer exactly when the disk refuses one of its look-ups. -/
theorem resolveRef_error_iff : (∃ fault, resolveRef p path r = .error fault) ↔
    ∃ candidates ∈ lookups p path r, Refuses p candidates := by
  unfold resolveRef lookups
  cases r.language with
  | python =>
    simp only [dotted]
    split
    · exact iff_of_false (not_exists_error _) (by simp)
    · cases hpackage : package? path r with
      | none =>
        refine iff_of_false ?_ (by simp)
        unfold relative
        rw [hpackage]
        exact not_exists_error _
      | some package => exact relative_error_iff hpackage
  | javascript =>
    simp only [List.mem_singleton, exists_eq_left]
    exact web_error_iff

theorem resolveAll_error_iff : (∃ fault, resolveAll p path rs = .error fault) ↔
    ∃ r ∈ rs, ∃ fault, resolveRef p path r = .error fault := by
  induction rs with
  | nil => exact iff_of_false (not_exists_error _) (by simp)
  | cons r rest ih =>
    rw [List.exists_mem_cons_iff, ← ih, resolveAll]
    cases resolveRef p path r with
    | error fault => exact iff_of_true ⟨fault, rfl⟩ (.inl ⟨fault, rfl⟩)
    | ok own =>
      cases resolveAll p path rest with
      | error fault => exact iff_of_true ⟨fault, rfl⟩ (.inr ⟨fault, rfl⟩)
      | ok later => exact iff_of_false (not_exists_error _) (by simp)

/-- A fault in a list of references is what the disk said of one of their candidates. -/
theorem isFile_of_resolveAll {fault : Disk.Fault} (hindexed : Indexed p)
    (h : resolveAll p path rs = .error fault) : ∃ c, p.isFile c = .error fault := by
  rcases resolveAll_answered hindexed path rs with
    ⟨r, -, fault', ⟨c, -, -, fault'', hthere, hrefused⟩, hfault, hall⟩ | ⟨-, resolutions, hall, -⟩
  · obtain rfl := Except.error.inj (hrefused.symm.trans hfault)
    obtain rfl := Except.error.inj (hall.symm.trans h)
    exact ⟨c, hthere⟩
  · cases h.symm.trans hall

end FileImports

end LayerGate
