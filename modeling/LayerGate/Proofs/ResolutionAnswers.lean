import Mathlib.Tactic.Common
import LayerGate.Resolution.FileImports

/-!
# What a reference resolves to

Resolving a reference fails only with the refusal of the disk to say whether a candidate exists.
Otherwise each reference resolves to something, and what it means inside of the project is a scanned
file.  Files are reached in two ways, as candidates and through the module index, and neither leads
outside of the scan.
-/

namespace LayerGate

/-! ## Where files come from -/

theorem ModuleIndex.mem_of_file? {files roots : List String} {name file : String}
    (h : (ModuleIndex.ofFiles files roots).file? name = some file) : file ∈ files := by
  rw [ModuleIndex.file?, List.lookup_eq_some_iff] at h
  obtain ⟨before, after, hentries, -⟩ := h
  have hmem : (name, file) ∈ (ModuleIndex.ofFiles files roots).entries := by
    rw [hentries]
    exact List.mem_append_right _ (List.mem_cons_self ..)
  simp only [ModuleIndex.ofFiles, List.mem_filterMap, Option.map_eq_some_iff] at hmem
  obtain ⟨file', hfile', name', -, he⟩ := hmem
  cases he
  exact hfile'

theorem ModuleIndex.mem_of_longest? {files roots : List String} {name file : String}
    (h : (ModuleIndex.ofFiles files roots).longest? name = some file) : file ∈ files := by
  rw [ModuleIndex.longest?] at h
  split at h
  · cases h
  · obtain ⟨parts, -, hparts⟩ := List.exists_of_findSome?_eq_some h
    exact ModuleIndex.mem_of_file? hparts

namespace Resolution

/-- Inside of the project, the resolution means a scanned file. -/
def Scanned (p : Project) (r : Resolution) : Prop :=
  ∀ file, r.outcome = .internal file → file ∈ p.files

/-- The answer is a refusal of the disk, about one of the candidates that is not scanned. -/
def Refused {α : Type} (p : Project) (candidates : List String) (answer : Except Disk.Fault α) :
    Prop :=
  ∃ path ∈ candidates, path ∉ p.files ∧ ∃ fault, p.isFile path = .error fault ∧
    answer = .error fault

/-- There are resolutions, and what they mean is scanned. -/
def Answered (p : Project) (answer : Except Disk.Fault (List Resolution)) : Prop :=
  ∃ rs, answer = .ok rs ∧ rs ≠ [] ∧ ∀ r ∈ rs, Scanned p r

/-- The module index leads to scanned files. -/
structure Indexed (p : Project) : Prop where
  file : ∀ name file, p.modules.file? name = some file → file ∈ p.files
  longest : ∀ name file, p.modules.longest? name = some file → file ∈ p.files

theorem indexed_ofFiles (files sourceRoots extensions : List String)
    (aliases : List (String × String)) (isFile : String → Except Disk.Fault Bool) :
    Indexed (Project.ofFiles files sourceRoots extensions aliases isFile) where
  file _ _ h := mem_sortedDistinct.1 (ModuleIndex.mem_of_file? h)
  longest _ _ h := mem_sortedDistinct.1 (ModuleIndex.mem_of_longest? h)

variable {p : Project} {r : Import.Ref} {file : String}

theorem Answered.single {x : Resolution} (h : Scanned p x) : Answered p (.ok [x]) := by
  refine ⟨[x], rfl, List.cons_ne_nil _ _, fun y hy => ?_⟩
  rw [List.mem_singleton.1 hy]
  exact h

theorem scanned_broken {specifier : String} {line : Int} {candidate : Option String} :
    Scanned p ⟨specifier, line, .broken candidate⟩ := by
  intro file h
  cases h

theorem scanned_external {specifier : String} {line : Int} {there : Option String} :
    Scanned p ⟨specifier, line, .external there⟩ := by
  intro file h
  cases h

/-- A look-up that is not refused calls only scanned files internal. -/
theorem find?_answered (p : Project) (candidates : List String) :
    Refused p candidates (p.find? candidates) ∨ ∃ found, p.find? candidates = .ok found ∧
      ∀ outcome, found = some outcome → ∀ specifier line, Scanned p ⟨specifier, line, outcome⟩ := by
  -- The first candidate is scanned, or the disk is asked, or the rest is tried.
  induction candidates with
  | nil => exact .inr ⟨none, rfl, by simp⟩
  | cons candidate rest ih =>
    by_cases hscanned : p.files.contains candidate
    · refine .inr ⟨some (.internal candidate), by rw [Project.find?, if_pos hscanned]; rfl, ?_⟩
      rintro outcome he specifier line file hfile
      cases he
      cases hfile
      exact List.contains_iff_mem.1 hscanned
    · have hnot : candidate ∉ p.files := fun h => hscanned (List.contains_iff_mem.2 h)
      cases hthere : p.isFile candidate with
      | error fault =>
        refine .inl ⟨candidate, List.mem_cons_self .., hnot, fault, hthere, ?_⟩
        rw [Project.find?, if_neg hscanned, hthere]
        rfl
      | ok there =>
        have hfind : p.find? (candidate :: rest) =
            if there then .ok (some (.external (some candidate))) else p.find? rest := by
          rw [Project.find?, if_neg hscanned, hthere]
          rfl
        rw [hfind]
        cases there with
        | true =>
          refine .inr ⟨some (.external (some candidate)), rfl, ?_⟩
          rintro outcome he specifier line
          cases he
          exact scanned_external
        | false =>
          rcases ih with ⟨path, hpath, hrest⟩ | hfound
          · exact .inl ⟨path, List.mem_cons_of_mem _ hpath, hrest⟩
          · exact .inr hfound

/-! ## Absolute imports -/

theorem absoluteModule_scanned (h : Indexed p) (r : Import.Ref) :
    Scanned p (absoluteModule p r) := by
  rw [absoluteModule]
  split
  · rename_i file hfile
    intro file' he
    cases he
    exact h.longest _ _ hfile
  · exact scanned_external

theorem absoluteName_scanned (h : Indexed p) {name : String} {x : Resolution}
    (hx : absoluteName p r name = some x) : Scanned p x := by
  rw [absoluteName, Option.map_eq_some_iff] at hx
  obtain ⟨file, hfile, rfl⟩ := hx
  intro file' he
  cases he
  exact h.file _ _ hfile

theorem absolute_answered (h : Indexed p) (r : Import.Ref) : Answered p (.ok (absolute p r)) := by
  refine ⟨_, rfl, ?_, fun x hx => ?_⟩
  · intro hnil
    rw [absolute] at hnil
    obtain ⟨hnames, hmodule⟩ := List.append_eq_nil_iff.1 hnil
    -- Without a resolution of its own, some name would leave the module itself.
    split at hmodule
    · cases hmodule
    · rename_i hnone
      rw [not_or] at hnone
      obtain ⟨name, hname⟩ := List.exists_mem_of_ne_nil _ hnone.1
      have hfound : (absoluteName p r name).isSome = true := by
        by_contra hn
        refine hnone.2 (List.any_eq_true.2 ⟨_, List.mem_map_of_mem hname, ?_⟩)
        simpa using hn
      obtain ⟨x, hx⟩ := Option.isSome_iff_exists.1 hfound
      have hmem : x ∈ ((r.names.map (absoluteName p r)).filterMap id) :=
        List.mem_filterMap.2 ⟨some x, hx ▸ List.mem_map_of_mem hname, rfl⟩
      rw [hnames] at hmem
      cases hmem
  · rw [absolute] at hx
    rcases List.mem_append.1 hx with hx | hx
    · obtain ⟨o, ho, hox⟩ := List.mem_filterMap.1 hx
      obtain ⟨name, -, rfl⟩ := List.mem_map.1 ho
      exact absoluteName_scanned h hox
    · split at hx
      · rw [List.mem_singleton.1 hx]
        exact absoluteModule_scanned h r
      · cases hx

/-! ## Relative imports -/

theorem base_answered (p : Project) (r : Import.Ref) (target leftover : List String) :
    Refused p (baseCandidates r target) (base p r target leftover) ∨
      Answered p (base p r target leftover) := by
  rcases find?_answered p (baseCandidates r target) with hrefused | ⟨found, hfound, hall⟩
  · obtain ⟨path, hpath, hscanned, fault, hfault, he⟩ := hrefused
    refine .inl ⟨path, hpath, hscanned, fault, hfault, ?_⟩
    rw [base, he]
    rfl
  · right
    rw [base, hfound]
    cases found with
    | some outcome => exact .single (hall outcome rfl _ _)
    | none =>
      -- Nothing was found: the module itself is broken, or else each name that is left.
      by_cases hwhole : moduleParts r ≠ [] ∨ leftover = []
      · simp only [if_pos hwhole]
        exact .single scanned_broken
      · simp only [if_neg hwhole]
        refine ⟨_, rfl, ?_, ?_⟩
        · rw [Ne, List.map_eq_nil_iff]
          exact fun hnil => hwhole (.inr hnil)
        · intro x hx
          obtain ⟨name, -, rfl⟩ := List.mem_map.1 hx
          exact scanned_broken

/-- The candidates of the imported names, each taken for a module. -/
def nameCandidates (target names : List String) : List String :=
  names.flatMap fun name => moduleCandidates (target ++ [name])

theorem relativeNames_answered (p : Project) (target names : List String) :
    Refused p (nameCandidates target names) (relativeNames p target names) ∨
      ∃ found, relativeNames p target names = .ok found ∧ found.map (·.1) = names ∧
        ∀ x ∈ found, ∀ outcome, x.2 = some outcome →
          ∀ specifier line, Scanned p ⟨specifier, line, outcome⟩ := by
  induction names with
  | nil => exact .inr ⟨[], rfl, rfl, by simp⟩
  | cons name rest ih =>
    rcases find?_answered p (moduleCandidates (target ++ [name])) with hrefused | hanswer
    · obtain ⟨path, hpath, hscanned, fault, hfault, he⟩ := hrefused
      refine .inl ⟨path, List.mem_append_left _ hpath, hscanned, fault, hfault, ?_⟩
      rw [relativeNames, he]
      rfl
    · obtain ⟨outcome, houtcome, hscanned⟩ := hanswer
      rcases ih with ⟨path, hpath, hnot, fault, hfault, he⟩ | ⟨found, hfound, hnames, hall⟩
      · refine .inl ⟨path, List.mem_append_right _ hpath, hnot, fault, hfault, ?_⟩
        rw [relativeNames, houtcome, he]
        rfl
      · refine .inr ⟨(name, outcome) :: found, ?_, by rw [List.map_cons, hnames], ?_⟩
        · rw [relativeNames, houtcome, hfound]
          rfl
        · intro x hx
          rcases List.mem_cons.1 hx with rfl | hx
          · exact hscanned
          · exact hall x hx

/-- The resolutions of those names that are modules of their own. -/
def moduleResolutions (r : Import.Ref) (names : List (String × Option Outcome)) : List Resolution :=
  names.filterMap fun (name, outcome) => outcome.map fun o => ⟨nameSpecifier r name, r.line, o⟩

/-- The names that are no modules. -/
def leftoverNames (names : List (String × Option Outcome)) : List String :=
  (names.filter (·.2.isNone)).map (·.1)

theorem relative_of_names {package : List String} {names : List (String × Option Outcome)}
    (hpackage : package? file r = some package)
    (hnames : relativeNames p (package ++ moduleParts r) r.names = .ok names) :
    relative p file r =
      if r.names = [] ∨ leftoverNames names ≠ [] then
        (base p r (package ++ moduleParts r) (leftoverNames names)).map (moduleResolutions r names ++ ·)
      else .ok (moduleResolutions r names) := by
  rw [relative, hpackage]
  simp only [hnames]
  show (if r.names = [] ∨ leftoverNames names ≠ [] then _ else _) = _
  split
  · cases h : base p r (package ++ moduleParts r) (leftoverNames names) with
    | error f => rw [leftoverNames] at h; rw [h]; rfl
    | ok later => rw [leftoverNames] at h; rw [h]; rfl
  · rfl

/-- A name is either resolved on its own or left over. -/
theorem moduleResolutions_ne_nil {names : List (String × Option Outcome)}
    (hleft : leftoverNames names = []) (hne : names ≠ []) : moduleResolutions r names ≠ [] := by
  obtain ⟨⟨name, outcome⟩, hx⟩ := List.exists_mem_of_ne_nil _ hne
  cases outcome with
  | none =>
    have hmem : name ∈ leftoverNames names :=
      List.mem_map.2 ⟨_, List.mem_filter.2 ⟨hx, rfl⟩, rfl⟩
    rw [hleft] at hmem
    cases hmem
  | some o => exact List.ne_nil_of_mem (List.mem_filterMap.2 ⟨_, hx, rfl⟩)

/-- The candidates of a relative import: those of its names, then those of the folder or module that
they are imported from. -/
def relativeCandidates (file : String) (r : Import.Ref) : List String :=
  match package? file r with
  | none => []
  | some package =>
    nameCandidates (package ++ moduleParts r) r.names ++ baseCandidates r (package ++ moduleParts r)

theorem relative_answered (p : Project) (file : String) (r : Import.Ref) :
    Refused p (relativeCandidates file r) (relative p file r) ∨
      Answered p (relative p file r) := by
  cases hpackage : package? file r with
  | none =>
    right
    rw [relative, hpackage]
    exact .single scanned_broken
  | some package =>
    have hcandidates : relativeCandidates file r =
        nameCandidates (package ++ moduleParts r) r.names ++
          baseCandidates r (package ++ moduleParts r) := by
      rw [relativeCandidates, hpackage]
    rw [hcandidates]
    rcases relativeNames_answered p (package ++ moduleParts r) r.names with hrefused | hanswer
    · obtain ⟨path, hpath, hnot, fault, hfault, he⟩ := hrefused
      refine .inl ⟨path, List.mem_append_left _ hpath, hnot, fault, hfault, ?_⟩
      rw [relative, hpackage]
      simp only [he]
      rfl
    · obtain ⟨names, hnames, hsame, hscanned⟩ := hanswer
      have hmodules : ∀ x ∈ moduleResolutions r names, Scanned p x := by
        intro x hx
        obtain ⟨⟨name, outcome⟩, hmem, hmap⟩ := List.mem_filterMap.1 hx
        obtain ⟨o, ho, rfl⟩ := Option.map_eq_some_iff.1 hmap
        exact hscanned _ hmem o ho _ _
      rw [relative_of_names hpackage hnames]
      split
      · -- What the base resolves to comes after the names that are modules.
        rcases base_answered p r (package ++ moduleParts r) (leftoverNames names) with
          ⟨path, hpath, hnot, fault, hfault, he⟩ | ⟨later, hlater, hne, hall⟩
        · refine .inl ⟨path, List.mem_append_right _ hpath, hnot, fault, hfault, ?_⟩
          rw [he]
          rfl
        · refine .inr ⟨moduleResolutions r names ++ later, by rw [hlater]; rfl, ?_, ?_⟩
          · exact fun hnil => hne (List.append_eq_nil_iff.1 hnil).2
          · intro x hx
            rcases List.mem_append.1 hx with hx | hx
            · exact hmodules x hx
            · exact hall x hx
      · -- There are names, and none is left, so each has a resolution.
        rename_i hrest
        rw [not_or, not_not] at hrest
        refine .inr ⟨moduleResolutions r names, rfl, ?_, hmodules⟩
        refine moduleResolutions_ne_nil hrest.2 ?_
        rintro rfl
        exact hrest.1 hsame.symm

/-! ## JavaScript and TypeScript -/

/-- The candidates of a specifier that is a path in the project. -/
def webPathCandidates (p : Project) (file : String) (r : Import.Ref) : List String :=
  match pathOf? p file r.module with
  | none => []
  | some path =>
    if escapes path then [] else webCandidates p.webExtensions (if path = "." then "" else path)

theorem web_answered (p : Project) (file : String) (r : Import.Ref) :
    Refused p (webPathCandidates p file r) (web p file r) ∨ Answered p (web p file r) := by
  -- A specifier is a package, or a path that leaves the project, or a path to look up.
  rw [web, webPathCandidates]
  cases pathOf? p file r.module with
  | none => exact .inr (.single scanned_external)
  | some path =>
    simp only
    by_cases hout : escapes path = true
    · rw [if_pos hout, if_pos hout]
      exact .inr (.single scanned_broken)
    · rw [if_neg hout, if_neg hout]
      rcases find?_answered p (webCandidates p.webExtensions (if path = "." then "" else path)) with
        ⟨candidate, hcandidate, hnot, fault, hfault, he⟩ | ⟨found, hfound, hall⟩
      · refine .inl ⟨candidate, hcandidate, hnot, fault, hfault, ?_⟩
        simp only [he]
        rfl
      · right
        simp only [hfound]
        cases found with
        | some outcome => exact .single (hall outcome rfl _ _)
        | none => exact .single scanned_broken

end Resolution

/-! ## Any reference -/

namespace FileImports

open Resolution

variable {p : Project}

/-- The paths about which the disk may be asked for a reference. -/
def candidatesOf (p : Project) (file : String) (r : Import.Ref) : List String :=
  match r.language with
  | .python => if r.level = 0 then [] else relativeCandidates file r
  | .javascript => webPathCandidates p file r

/-- Only absolute imports are looked up in the index. -/
theorem resolveRef_answered {r : Import.Ref} (h : r.language = .python → r.level = 0 → Indexed p)
    (file : String) :
    Refused p (candidatesOf p file r) (resolveRef p file r) ∨ Answered p (resolveRef p file r) := by
  rw [resolveRef, candidatesOf]
  cases hlanguage : r.language with
  | python =>
    simp only [dotted]
    split
    · rename_i hlevel
      exact .inr (absolute_answered (h hlanguage hlevel) r)
    · exact relative_answered p file r
  | javascript => exact web_answered p file r

/-- Unless the disk refuses, a list of references resolves to all that its members resolve to. -/
theorem resolveAll_answered (h : Indexed p) (file : String) (refs : List Import.Ref) :
    (∃ r ∈ refs, ∃ fault, Refused p (candidatesOf p file r) (resolveRef p file r) ∧
      resolveRef p file r = .error fault ∧ resolveAll p file refs = .error fault) ∨
      (∀ r ∈ refs, Answered p (resolveRef p file r)) ∧
        ∃ rs, resolveAll p file refs = .ok rs ∧ (∀ x ∈ rs, Scanned p x) ∧
          ∀ x, x ∈ rs ↔ ∃ r ∈ refs, ∃ own, resolveRef p file r = .ok own ∧ x ∈ own := by
  -- The first reference that is refused ends the list.
  induction refs with
  | nil => exact .inr ⟨by simp, [], rfl, by simp, by simp⟩
  | cons r rest ih =>
    rcases resolveRef_answered (r := r) (fun _ _ => h) file with hrefused | hanswered
    · obtain ⟨path, hpath, hnot, fault, hfault, he⟩ := hrefused
      refine .inl ⟨r, List.mem_cons_self .., fault, ⟨path, hpath, hnot, fault, hfault, he⟩, he, ?_⟩
      rw [resolveAll, he]
      rfl
    · obtain ⟨rs, hrs, -, hscanned⟩ := id hanswered
      rcases ih with ⟨r', hr', fault, hrefused, he, hrest⟩ | ⟨hall, later, hlater, hlaters, hmem⟩
      · refine .inl ⟨r', List.mem_cons_of_mem _ hr', fault, hrefused, he, ?_⟩
        rw [resolveAll, hrs, hrest]
        rfl
      · refine .inr ⟨?_, rs ++ later, by rw [resolveAll, hrs, hlater]; rfl, ?_, fun x => ?_⟩
        · intro r' hr'
          rcases List.mem_cons.1 hr' with rfl | hr'
          · exact hanswered
          · exact hall r' hr'
        · intro x hx
          rcases List.mem_append.1 hx with hx | hx
          · exact hscanned x hx
          · exact hlaters x hx
        · rw [List.mem_append, hmem]
          simp only [List.mem_cons, exists_eq_or_imp, hrs, Except.ok.injEq, exists_eq_left']

end FileImports

end LayerGate
