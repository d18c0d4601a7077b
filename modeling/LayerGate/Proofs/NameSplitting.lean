import LayerGate.Proofs.FinishedFiles
import LayerGate.Proofs.GraphAccounting
import LayerGate.Proofs.Refusals

/-!
# One name at a time

A `from` import of several names resolves to what the imports of its single names resolve to.  The
names that are no modules are treated together, by the one package that they come from, and still each
of them leaves what it would leave alone.  So it makes no difference to the graph whether names are
imported in one statement or in several on its line.
-/

namespace LayerGate

namespace Import.Ref

/-- The same import of one name only. -/
def only (r : Ref) (name : String) : Ref := { r with names := [name] }

/-- The import of a module in the module, by its full name. -/
def submodule (r : Ref) (name : String) : Ref :=
  { r with module := r.module ++ "." ++ name, names := [] }

end Import.Ref

namespace Resolution

open Import (IsWord IsSpelled)

variable {p : Project} {file : String} {r : Import.Ref} {x : Resolution} {own : List Resolution}
  {package target leftover names : List String}

/-- What does not depend on the name. -/
theorem exists_name_iff {Q : Prop} (hne : names ≠ []) : (∃ name ∈ names, Q) ↔ Q := by
  rw [exists_and_right]
  exact and_iff_right (List.exists_mem_of_ne_nil _ hne)

/-! ## Absolute imports -/

theorem mem_absolute_iff : x ∈ absolute p r ↔
    (∃ name ∈ r.names, absoluteName p r name = some x) ∨
      (r.names = [] ∨ ∃ name ∈ r.names, absoluteName p r name = none) ∧ x = absoluteModule p r := by
  have hmodules : x ∈ (r.names.map (absoluteName p r)).filterMap id ↔
      ∃ name ∈ r.names, absoluteName p r name = some x := by
    simp
  have hmissing : (r.names.map (absoluteName p r)).any Option.isNone = true ↔
      ∃ name ∈ r.names, absoluteName p r name = none := by
    simp
  unfold absolute
  simp only [List.mem_append, hmodules, hmissing]
  split
  · rename_i hleft
    rw [List.mem_singleton]
    exact or_congr_right (and_iff_right hleft).symm
  · rename_i hleft
    exact or_congr_right (iff_of_false List.not_mem_nil fun h => hleft h.1)

/-- A single name is a module, or it stands for the module that it is imported from. -/
theorem absolute_only (name : String) :
    absolute p (r.only name) = [(absoluteName p r name).getD (absoluteModule p r)] := by
  show [absoluteName p r name].filterMap id ++
    (if [name] = [] ∨ [absoluteName p r name].any Option.isNone then _ else _) = _
  cases absoluteName p r name <;> rfl

theorem mem_absolute_iff_only (hne : r.names ≠ []) :
    x ∈ absolute p r ↔ ∃ name ∈ r.names, x ∈ absolute p (r.only name) := by
  have hname : ∀ name, x ∈ absolute p (r.only name) ↔ absoluteName p r name = some x ∨
      absoluteName p r name = none ∧ x = absoluteModule p r := by
    intro name
    rw [absolute_only, List.mem_singleton]
    cases absoluteName p r name <;> simp [eq_comm]
  rw [mem_absolute_iff]
  simp only [hname, hne, false_or, and_or_left, exists_or]
  refine or_congr_right ⟨?_, ?_⟩
  · rintro ⟨⟨name, hname, hnone⟩, hx⟩
    exact ⟨name, hname, hnone, hx⟩
  · rintro ⟨name, hname, hnone, hx⟩
    exact ⟨⟨name, hname, hnone⟩, hx⟩

/-- A name that is imported from a module means what its full name means. -/
theorem outcomes_absolute_only {name : String} (h : IsSpelled r) (hlevel : r.level = 0)
    (hname : IsWord name) : (absolute p (r.only name)).map Resolution.outcome =
      (absolute p (r.submodule name)).map Resolution.outcome := by
  have hne := moduleParts_ne_nil h hlevel
  have hwords : ∀ part ∈ moduleParts r ++ [name], IsWord part :=
    List.forall_mem_append.2 ⟨isWord_moduleParts h, List.forall_mem_singleton.2 hname⟩
  have hfull : r.module ++ "." ++ name = ".".intercalate (moduleParts r ++ [name]) := by
    rw [String.intercalate_append_of_ne_nil hne (List.cons_ne_nil _ _), String.intercalate_singleton,
      ← module_eq h]
  have hwhole : absolute p (r.submodule name) = [absoluteModule p (r.submodule name)] := rfl
  rw [absolute_only, hwhole, List.map_singleton, List.map_singleton]
  unfold absoluteName absoluteModule
  rw [show (r.submodule name).module = ".".intercalate (moduleParts r ++ [name]) from hfull]
  simp only [hfull]
  cases hfile : p.modules.file? (".".intercalate (moduleParts r ++ [name])) with
  | some found =>
    rw [ModuleIndex.longest?_of_file? (by simp) hwords hfile]
    rfl
  | none =>
    rw [ModuleIndex.longest?_concat hne hwords hfile, ← module_eq h]
    cases p.modules.longest? r.module <;> rfl

/-! ## Relative imports -/

/-- The names that are left leave together what each of them leaves. -/
theorem mem_base_iff_only (hne : leftover ≠ []) (h : base p r target leftover = .ok own) :
    x ∈ own ↔ ∃ name ∈ leftover, ∃ alone, base p r target [name] = .ok alone ∧ x ∈ alone := by
  -- Where the names do not count, each of them leaves the same.
  have hshared : (∀ name, base p r target [name] = .ok own) →
      (x ∈ own ↔ ∃ name ∈ leftover, ∃ alone, base p r target [name] = .ok alone ∧ x ∈ alone) := by
    intro hall
    simp only [hall, Except.ok.injEq, exists_eq_left']
    exact (exists_name_iff hne).symm
  cases hfind : p.find? (baseCandidates r target) with
  | error fault =>
    obtain ⟨fault', hfault⟩ := base_error_iff.2 (find?_error_iff.1 ⟨fault, hfind⟩)
    cases h.symm.trans hfault
  | ok found =>
    cases found with
    | some outcome =>
      obtain rfl := Except.ok.inj ((base_of_found hfind).symm.trans h)
      exact hshared fun _ => base_of_found hfind
    | none =>
      by_cases hmodule : moduleParts r ≠ []
      · obtain rfl := Except.ok.inj ((base_of_missing_whole hfind (.inl hmodule)).symm.trans h)
        exact hshared fun _ => base_of_missing_whole hfind (.inl hmodule)
      · have hnames : ∀ {left : List String}, left ≠ [] → ¬ (moduleParts r ≠ [] ∨ left = []) :=
          fun hleft => not_or.2 ⟨hmodule, hleft⟩
        obtain rfl := Except.ok.inj ((base_of_missing_names hfind (hnames hne)).symm.trans h)
        simp only [base_of_missing_names hfind (hnames (List.cons_ne_nil _ _)), List.mem_map,
          Except.ok.injEq, exists_eq_left', List.map_cons, List.map_nil, List.mem_singleton,
          @eq_comm _ x]

/-- What a relative import of names resolves to, name by name. -/
theorem mem_relative_iff (hpackage : package? file r = some package) (hne : r.names ≠ [])
    (h : relative p file r = .ok own) : x ∈ own ↔ ∃ name ∈ r.names,
      (∃ o, p.find? (moduleCandidates (package ++ moduleParts r ++ [name])) = .ok (some o) ∧
        x = ⟨nameSpecifier r name, r.line, o⟩) ∨
      p.find? (moduleCandidates (package ++ moduleParts r ++ [name])) = .ok none ∧
        ∃ alone, base p r (package ++ moduleParts r) [name] = .ok alone ∧ x ∈ alone := by
  cases hnames : relativeNames p (package ++ moduleParts r) r.names with
  | error fault =>
    unfold relative at h
    rw [hpackage] at h
    simp only [hnames] at h
    cases h
  | ok found =>
    rw [relative_of_names hpackage hnames] at h
    -- The modules among the names speak for themselves, the others are left to the package.
    have hmodules : x ∈ moduleResolutions r found ↔ ∃ name ∈ r.names, ∃ o,
        p.find? (moduleCandidates (package ++ moduleParts r ++ [name])) = .ok (some o) ∧
          x = ⟨nameSpecifier r name, r.line, o⟩ := by
      simp only [moduleResolutions, List.mem_filterMap, Prod.exists, mem_relativeNames_iff hnames,
        Option.map_eq_some_iff, and_assoc]
      constructor
      · rintro ⟨name, outcome, hname, hfind, o, rfl, rfl⟩
        exact ⟨name, hname, o, hfind, rfl⟩
      · rintro ⟨name, hname, o, hfind, rfl⟩
        exact ⟨name, some o, hname, hfind, o, rfl, rfl⟩
    have hleft : ∀ name, name ∈ leftoverNames found ↔ name ∈ r.names ∧
        p.find? (moduleCandidates (package ++ moduleParts r ++ [name])) = .ok none := by
      intro name
      simp only [leftoverNames, List.mem_map, List.mem_filter, Prod.exists, exists_and_right,
        exists_eq_right, mem_relativeNames_iff hnames, Option.isNone_iff_eq_none]
    simp only [and_or_left, exists_or, ← hmodules, ← and_assoc, ← hleft]
    by_cases hnone : leftoverNames found = []
    · rw [if_neg (not_or.2 ⟨hne, not_not.2 hnone⟩)] at h
      obtain rfl := Except.ok.inj h
      simp [hnone]
    · rw [if_pos (.inr hnone)] at h
      cases hbase : base p r (package ++ moduleParts r) (leftoverNames found) with
      | error fault =>
        rw [hbase] at h
        cases h
      | ok later =>
        rw [hbase] at h
        obtain rfl := Except.ok.inj h
        rw [List.mem_append, mem_base_iff_only hnone hbase]

/-- A single name is a module of its own, or it is left to its package alone. -/
theorem relative_only (hpackage : package? file r = some package) (name : String) :
    relative p file (r.only name) =
      (p.find? (moduleCandidates (package ++ moduleParts r ++ [name])) >>= fun
        | some o => .ok [⟨nameSpecifier r name, r.line, o⟩]
        | none => base p r (package ++ moduleParts r) [name]) := by
  have hpackage' : package? file (r.only name) = some package := hpackage
  cases hfind : p.find? (moduleCandidates (package ++ moduleParts r ++ [name])) with
  | error fault =>
    have hnames : relativeNames p (package ++ moduleParts r) [name] = .error fault := by
      unfold relativeNames
      rw [hfind]
      rfl
    unfold relative
    rw [hpackage']
    show (relativeNames p (package ++ moduleParts r) [name] >>= _) = _
    rw [hnames]
    rfl
  | ok outcome =>
    have hnames : relativeNames p (package ++ moduleParts r) [name] = .ok [(name, outcome)] := by
      unfold relativeNames
      rw [hfind]
      rfl
    rw [relative_of_names hpackage' hnames]
    cases outcome with
    | some o => rfl
    | none =>
      show (base p r (package ++ moduleParts r) [name]).map ([] ++ ·) = base p r _ [name]
      cases base p r (package ++ moduleParts r) [name] <;> rfl

theorem mem_relative_iff_only (hne : r.names ≠ []) (h : relative p file r = .ok own) :
    x ∈ own ↔ ∃ name ∈ r.names, ∃ alone, relative p file (r.only name) = .ok alone ∧ x ∈ alone := by
  cases hpackage : package? file r with
  | none =>
    have houtside : ∀ {r : Import.Ref}, package? file r = none →
        relative p file r = .ok [⟨r.specifier, r.line, .broken none⟩] := by
      intro r hnone
      unfold relative
      rw [hnone]
      rfl
    obtain rfl := Except.ok.inj ((houtside hpackage).symm.trans h)
    have honly : ∀ name, relative p file (r.only name) =
        .ok [⟨r.specifier, r.line, .broken none⟩] := fun name => houtside (r := r.only name) hpackage
    simp only [honly, Except.ok.injEq, exists_eq_left']
    exact (exists_name_iff hne).symm
  | some package =>
    rw [mem_relative_iff hpackage hne h]
    refine exists_congr fun name => and_congr_right fun _ => ?_
    rw [relative_only hpackage]
    cases p.find? (moduleCandidates (package ++ moduleParts r ++ [name])) with
    | error fault => simp [bind, Except.bind]
    | ok outcome =>
      cases outcome with
      | some o => simp [bind, Except.bind]
      | none => simp [bind, Except.bind]

/-! ## Any reference -/

/-- The look-ups of an import of names are those of its single names. -/
theorem mem_lookups_iff_only {candidates : List String} (hne : r.names ≠ []) :
    candidates ∈ lookups p file r ↔ ∃ name ∈ r.names, candidates ∈ lookups p file (r.only name) := by
  have hlanguage : ∀ name, (r.only name).language = r.language := fun _ => rfl
  have hlevel : ∀ name, (r.only name).level = r.level := fun _ => rfl
  have hpackage : ∀ name, package? file (r.only name) = package? file r := fun _ => rfl
  unfold lookups
  simp only [hlanguage, hlevel, hpackage]
  cases r.language with
  | javascript => exact (exists_name_iff hne).symm
  | python =>
    simp only
    split
    · exact (exists_name_iff hne).symm
    · cases package? file r with
      | none => exact (exists_name_iff hne).symm
      | some package =>
        have hmodule : ∀ name, moduleParts (r.only name) = moduleParts r := fun _ => rfl
        have hbase : ∀ name, baseCandidates (r.only name) = baseCandidates r := fun _ => rfl
        have hnames : ∀ name, (r.only name).names = [name] := fun _ => rfl
        -- The names are looked up one by one; then the package is, if any of them was not found.
        simp only [hmodule, hbase, hnames, hne, nameLookups, List.mem_append, List.mem_map,
          List.any_map, List.any_eq_true, Function.comp_apply, false_or, List.cons_ne_nil,
          List.mem_singleton, exists_eq_left, and_or_left, exists_or, @eq_comm _ _ candidates]
        refine or_congr_right ?_
        constructor
        · intro h
          split at h
          · rename_i hmissing
            obtain ⟨name, hname, hmissing⟩ := hmissing
            exact ⟨name, hname, by rwa [if_pos hmissing]⟩
          · cases h
        · rintro ⟨name, hname, h⟩
          split at h
          · rename_i hmissing
            rwa [if_pos ⟨name, hname, hmissing⟩]
          · cases h

end Resolution

namespace FileImports

open Resolution

variable {p : Project} {path : String} {r : Import.Ref} {rs rs' : List Import.Ref} {x : Resolution}
  {own own' : List Resolution}

/-- An import of names has an answer if each of its single names has one. -/
theorem resolveRef_ok_iff_only (hne : r.names ≠ []) : (∃ own, resolveRef p path r = .ok own) ↔
    ∀ name ∈ r.names, ∃ alone, resolveRef p path (r.only name) = .ok alone := by
  simp only [exists_ok_iff, resolveRef_error_iff, mem_lookups_iff_only hne]
  constructor
  · rintro h name hname ⟨candidates, hcandidates, hrefuses⟩
    exact h ⟨candidates, ⟨name, hname, hcandidates⟩, hrefuses⟩
  · rintro h ⟨candidates, ⟨name, hname, hcandidates⟩, hrefuses⟩
    exact h name hname ⟨candidates, hcandidates, hrefuses⟩

theorem mem_resolveRef_iff_only (hne : r.names ≠ []) (h : resolveRef p path r = .ok own) :
    x ∈ own ↔ ∃ name ∈ r.names, ∃ alone, resolveRef p path (r.only name) = .ok alone ∧ x ∈ alone := by
  have hlanguage : ∀ name, (r.only name).language = r.language := fun _ => rfl
  have hlevel : ∀ name, (r.only name).level = r.level := fun _ => rfl
  unfold resolveRef at h ⊢
  simp only [hlanguage]
  cases hlang : r.language with
  | javascript =>
    rw [hlang] at h
    have hweb : ∀ name, web p path (r.only name) = .ok own := fun _ => h
    simp only [hweb, Except.ok.injEq, exists_eq_left']
    exact (exists_name_iff hne).symm
  | python =>
    rw [hlang] at h
    simp only [dotted, hlevel] at h ⊢
    split
    · rename_i habsolute
      rw [if_pos habsolute] at h
      obtain rfl := Except.ok.inj h
      simp only [Except.ok.injEq, exists_eq_left']
      exact mem_absolute_iff_only hne
    · rename_i hrelative
      rw [if_neg hrelative] at h
      exact mem_relative_iff_only hne h

/-! ## Split references -/

/-- Of these references the others are the same, but that some imports of names are split into imports
of their single names.  The order does not matter, nor does it whether the unsplit import is kept. -/
structure IsSplit (rs rs' : List Import.Ref) : Prop where
  covered : ∀ r ∈ rs, r ∈ rs' ∨ r.names ≠ [] ∧ ∀ name ∈ r.names, r.only name ∈ rs'
  made : ∀ r' ∈ rs', r' ∈ rs ∨ ∃ r ∈ rs, ∃ name ∈ r.names, r' = r.only name

/-- Split in its place, an import leaves split references. -/
theorem isSplit_in_place (before after : List Import.Ref) (hne : r.names ≠ []) :
    IsSplit (before ++ r :: after) (before ++ r.names.map r.only ++ after) where
  covered r' hr' := by
    rcases List.mem_append.1 hr' with hr' | hr'
    · exact .inl (List.mem_append_left _ (List.mem_append_left _ hr'))
    · rcases List.mem_cons.1 hr' with rfl | hr'
      · refine .inr ⟨hne, fun name hname => ?_⟩
        exact List.mem_append_left _ (List.mem_append_right _ (List.mem_map_of_mem hname))
      · exact .inl (List.mem_append_right _ hr')
  made r' hr' := by
    rcases List.mem_append.1 hr' with hr' | hr'
    · rcases List.mem_append.1 hr' with hr' | hr'
      · exact .inl (List.mem_append_left _ hr')
      · obtain ⟨name, hname, rfl⟩ := List.mem_map.1 hr'
        exact .inr ⟨r, List.mem_append_right _ (List.mem_cons_self ..), name, hname, rfl⟩
    · exact .inl (List.mem_append_right _ (List.mem_cons_of_mem _ hr'))

theorem resolveAll_ok_iff : (∃ own, resolveAll p path rs = .ok own) ↔
    ∀ r ∈ rs, ∃ own, resolveRef p path r = .ok own := by
  simp only [exists_ok_iff, resolveAll_error_iff, not_exists, not_and]

theorem IsSplit.resolveAll_ok_iff (h : IsSplit rs rs') : (∃ own, resolveAll p path rs = .ok own) ↔
    ∃ own, resolveAll p path rs' = .ok own := by
  rw [FileImports.resolveAll_ok_iff, FileImports.resolveAll_ok_iff]
  constructor
  · intro hall r' hr'
    rcases h.made r' hr' with hr | ⟨r, hr, name, hname, rfl⟩
    · exact hall r' hr
    · exact (resolveRef_ok_iff_only (List.ne_nil_of_mem hname)).1 (hall r hr) name hname
  · intro hall r hr
    rcases h.covered r hr with hr' | ⟨hne, honly⟩
    · exact hall r hr'
    · exact (resolveRef_ok_iff_only hne).2 fun name hname => hall _ (honly name hname)

/-- Split references resolve to what the others resolve to. -/
theorem IsSplit.mem_iff (h : IsSplit rs rs') (hown : resolveAll p path rs = .ok own)
    (hown' : resolveAll p path rs' = .ok own') (x : Resolution) : x ∈ own ↔ x ∈ own' := by
  rw [mem_resolveAll_iff hown, mem_resolveAll_iff hown']
  have hall := FileImports.resolveAll_ok_iff.1 ⟨own, hown⟩
  constructor
  · rintro ⟨r, hr, alone, halone, hx⟩
    rcases h.covered r hr with hr' | ⟨hne, honly⟩
    · exact ⟨r, hr', alone, halone, hx⟩
    · obtain ⟨name, hname, alone', halone', hx'⟩ := (mem_resolveRef_iff_only hne halone).1 hx
      exact ⟨r.only name, honly name hname, alone', halone', hx'⟩
  · rintro ⟨r', hr', alone, halone, hx⟩
    rcases h.made r' hr' with hr | ⟨r, hr, name, hname, rfl⟩
    · exact ⟨r', hr, alone, halone, hx⟩
    · obtain ⟨whole, hwhole⟩ := hall r hr
      refine ⟨r, hr, whole, hwhole, ?_⟩
      exact (mem_resolveRef_iff_only (List.ne_nil_of_mem hname) hwhole).2
        ⟨name, hname, alone, halone, hx⟩

theorem IsSplit.ofRefs_ok_iff (h : IsSplit rs rs') : (∃ imports, ofRefs p path rs = .ok imports) ↔
    ∃ imports', ofRefs p path rs' = .ok imports' := by
  have hok : ∀ rs, (∃ imports, ofRefs p path rs = .ok imports) ↔ ∃ own, resolveAll p path rs = .ok own := by
    intro rs
    unfold ofRefs
    cases resolveAll p path rs <;> simp
  rw [hok, hok, h.resolveAll_ok_iff]

theorem IsSplit.mem_ofRefs_iff {imports imports' : FileImports} (h : IsSplit rs rs')
    (himports : ofRefs p path rs = .ok imports) (himports' : ofRefs p path rs' = .ok imports')
    (x : Resolution) : x ∈ imports.resolutions ↔ x ∈ imports'.resolutions := by
  have hall : ∀ {rs imports}, ofRefs p path rs = .ok imports →
      resolveAll p path rs = .ok imports.resolutions := by
    intro rs imports h
    unfold ofRefs at h
    split at h
    · rename_i own hown
      cases h
      exact hown
    · cases h
  exact h.mem_iff (hall himports) (hall himports') x

end FileImports

/-! ## The graph -/

namespace ModuleGraph

open Import (IsWord IsSpelled)
open FileImports (IsSplit)
open Resolution (dotted)

variable {a b : String × FileImports} {results results' : List (String × FileImports)}

/-- The imports of the file come from references that are split in the other. -/
structure SplitFile (p : Project) (a b : String × FileImports) : Prop where
  path : a.1 = b.1
  refs : ∃ rs rs', IsSplit rs rs' ∧
    FileImports.ofRefs p a.1 rs = .ok a.2 ∧ FileImports.ofRefs p b.1 rs' = .ok b.2

theorem SplitFile.sameAnswers {p : Project} (h : SplitFile p a b) : SameAnswers a b := by
  obtain ⟨rs, rs', hsplit, ha, hb⟩ := h.refs
  refine ⟨h.path, fun x => ?_⟩
  rw [← h.path] at hb
  exact hsplit.mem_ofRefs_iff ha hb x

/-- An import of names is answered if its single names are, and by the same resolutions; what a name
of an absolute module means is what the full name means.  So it does not matter to the edges, the
ignored specifiers and the broken imports of a graph how the names on a line are split into
statements. -/
theorem split_names_keep_graph (p : Project) :
    (∀ path r, r.names ≠ [] →
      ((∃ own, dotted p path r = .ok own) ↔
        ∀ name ∈ r.names, ∃ alone, dotted p path (r.only name) = .ok alone) ∧
      ∀ own, dotted p path r = .ok own → ∀ x, x ∈ own ↔
        ∃ name ∈ r.names, ∃ alone, dotted p path (r.only name) = .ok alone ∧ x ∈ alone) ∧
    (∀ path r name, IsSpelled r → r.level = 0 → IsWord name → ∃ own whole,
      dotted p path (r.only name) = .ok own ∧ dotted p path (r.submodule name) = .ok whole ∧
        own.map Resolution.outcome = whole.map Resolution.outcome) ∧
    (∀ path rs rs', IsSplit rs rs' → ((∃ imports, FileImports.ofRefs p path rs = .ok imports) ↔
      ∃ imports', FileImports.ofRefs p path rs' = .ok imports')) ∧
    ∀ results results', List.Forall₂ (SplitFile p) results results' →
      (ofImports results).edges = (ofImports results').edges ∧
        List.Forall₂ SameResolved (ofImports results).nodes.toList
          (ofImports results').nodes.toList := by
  refine ⟨fun path r hne => ?names, fun path r name hspelled hlevel hname => ?submodule,
    fun path rs rs' hsplit => hsplit.ofRefs_ok_iff, fun results results' h => ?graph⟩
  case names =>
    -- Whatever the language, `dotted` is how the same import in Python is resolved.
    have hdotted : ∀ r, dotted p path r = FileImports.resolveRef p path { r with language := .python } :=
      fun _ => rfl
    simp only [hdotted]
    refine ⟨FileImports.resolveRef_ok_iff_only hne, fun own hown x => ?_⟩
    exact FileImports.mem_resolveRef_iff_only (r := { r with language := .python }) hne hown
  case submodule =>
    refine ⟨_, _, if_pos hlevel, if_pos hlevel, ?_⟩
    exact Resolution.outcomes_absolute_only hspelled hlevel hname
  case graph =>
    have hsame : List.Forall₂ SameAnswers results results' := h.imp fun _ _ => SplitFile.sameAnswers
    refine ⟨edges_ofImports_congr hsame, ?_⟩
    simp only [ofImports, List.toList_toArray]
    rw [List.forall₂_map_left_iff, List.forall₂_map_right_iff]
    exact hsame.imp fun _ _ => SameAnswers.nodeOf

/-! ### Three names of a package, one of them a module -/

def joinedSource : List Char := "from pkg import a, b, c\n".toList

def apartSource : List Char := "from pkg import a; from pkg import b; from pkg import c\n".toList

def joinedRef : Import.Ref := ⟨1, "pkg", ["a", "b", "c"], 0, .python⟩

theorem imports_joinedSource :
    Import.Indented.imports (String.ofList joinedSource) = .ok [joinedRef] := by
  apply Import.Indented.imports_of_source
  · with_unfolding_all rfl
  · decide +kernel
  · with_unfolding_all rfl
  · decide +kernel

theorem imports_apartSource :
    Import.Indented.imports (String.ofList apartSource) = .ok (joinedRef.names.map joinedRef.only) := by
  apply Import.Indented.imports_of_source
  · with_unfolding_all rfl
  · decide +kernel
  · with_unfolding_all rfl
  · decide +kernel

def packageFiles : List String := ["main.py", "pkg/__init__.py", "pkg/a.py"]

def packageModules : ModuleIndex :=
  ⟨[("main", "main.py"), ("pkg", "pkg/__init__.py"), ("pkg.a", "pkg/a.py")]⟩

def packageProject : Project := .ofFiles packageFiles ["."] [".py"] [] fun _ => .ok false

theorem packageProject_eq :
    packageProject = ⟨packageFiles, packageModules, [], [], fun _ => .ok false⟩ := by
  have hsorted : StrictlySorted packageFiles := by
    unfold StrictlySorted packageFiles
    decide +kernel
  have hmodules : ModuleIndex.ofFiles packageFiles ["."] = packageModules := by decide +kernel
  unfold packageProject Project.ofFiles
  rw [hsorted.sortedDistinct_eq, hmodules]
  rfl

def joinedImports : FileImports :=
  ⟨["pkg"], [⟨"pkg.a", 1, .internal "pkg/a.py"⟩, ⟨"pkg", 1, .internal "pkg/__init__.py"⟩]⟩

/-- Each of the last two names stands for the package. -/
def apartImports : FileImports :=
  ⟨["pkg"], [⟨"pkg.a", 1, .internal "pkg/a.py"⟩, ⟨"pkg", 1, .internal "pkg/__init__.py"⟩,
    ⟨"pkg", 1, .internal "pkg/__init__.py"⟩]⟩

theorem ofRefs_joinedRef :
    FileImports.ofRefs packageProject "main.py" [joinedRef] = .ok joinedImports := by
  rw [packageProject_eq]
  decide +kernel

theorem ofRefs_apart : FileImports.ofRefs packageProject "main.py"
    (joinedRef.names.map joinedRef.only) = .ok apartImports := by
  rw [packageProject_eq]
  decide +kernel

theorem split_names_keep_graph_package :
    Import.Indented.imports (String.ofList joinedSource) = .ok [joinedRef] ∧
    Import.Indented.imports (String.ofList apartSource) = .ok (joinedRef.names.map joinedRef.only) ∧
    IsSplit [joinedRef] (joinedRef.names.map joinedRef.only) ∧
    joinedImports ≠ apartImports ∧
    (ofImports [("main.py", joinedImports), ("pkg/__init__.py", ⟨[], []⟩), ("pkg/a.py", ⟨[], []⟩)]).edges =
      (ofImports [("main.py", apartImports), ("pkg/__init__.py", ⟨[], []⟩), ("pkg/a.py", ⟨[], []⟩)]).edges := by
  have hsplit : IsSplit [joinedRef] (joinedRef.names.map joinedRef.only) := by
    have h := FileImports.isSplit_in_place (r := joinedRef) [] [] (by decide)
    rwa [List.append_nil] at h
  have hmain : SplitFile packageProject ("main.py", joinedImports) ("main.py", apartImports) :=
    ⟨rfl, _, _, hsplit, ofRefs_joinedRef, ofRefs_apart⟩
  -- The files of the package import nothing.
  have hempty : ∀ path, SplitFile packageProject (path, ⟨[], []⟩) (path, ⟨[], []⟩) :=
    fun path => ⟨rfl, [], [], ⟨nofun, nofun⟩, rfl, rfl⟩
  refine ⟨imports_joinedSource, imports_apartSource, hsplit, by decide, ?_⟩
  exact ((split_names_keep_graph packageProject).2.2.2 _ _
    (.cons hmain (.cons (hempty _) (.cons (hempty _) .nil)))).1

end ModuleGraph

end LayerGate
