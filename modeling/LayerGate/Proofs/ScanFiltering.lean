import LayerGate.Proofs.Discovery
import LayerGate.Proofs.SpecifierMeaning

/-!
# Filters and imports

A relative Python import or an import of JavaScript is resolved on the disk alone.  The scan comes in
at the very end: a file that was found is internal if it was scanned, and external otherwise.  So two
scans of one disk resolve every such import to the same file, and differ in that label at most.
-/

namespace LayerGate

/-! ## Scanned files -/

/-- Every scanned file is a file of the tree. -/
theorem Scan.exists_file_of_mem_sourceFiles {s : Selection} {project : Entry} {files : List String}
    {path : String} (hfolder : project.isFolder = true) (hdistinct : project.hasDistinctNames = true)
    (h : sourceFiles s project = .ok files) (hpath : path ∈ files) :
    ∃ names content, path = Path.ofNames names ∧ names ≠ [] ∧
      project.at? names = some (.file content) := by
  obtain ⟨es, rfl⟩ := Entry.exists_of_isFolder hfolder
  obtain ⟨rules, found, -, hfound, rfl⟩ := sourceFiles_eq_ok_iff.1 h
  obtain ⟨names, hnames, hcounts⟩ := ((discovers_of_collectIn hdistinct hfound).mem_iff path).1 hpath
  obtain ⟨content, hat⟩ := hcounts.file
  refine ⟨names, content, hnames, ?_, hat⟩
  rintro rfl
  cases hat

/-! ## Labels -/

/-- A file that was found on the disk, with the label that the scan gives it. -/
def Outcome.labelled (files : List String) : Outcome → Outcome
  | .external (some file) => if files.contains file then .internal file else .external (some file)
  | outcome => outcome

def Resolution.labelled (files : List String) (x : Resolution) : Resolution :=
  { x with outcome := x.outcome.labelled files }

/-- The project with no file scanned. -/
def Project.unscanned (p : Project) : Project := { p with files := [], modules := ⟨[]⟩ }

/-- The scanned files are files on the disk. -/
def Project.IsOnDisk (p : Project) : Prop := ∀ file ∈ p.files, p.isFile file = .ok true

variable {p : Project} {file : String} {r : Import.Ref}

/-- The first candidate on the disk is what the look-up finds, whether it was scanned or not. -/
theorem Project.find?_eq_labelled (h : p.IsOnDisk) (candidates : List String) :
    p.find? candidates = (p.unscanned.find? candidates).map (·.map (Outcome.labelled p.files)) := by
  induction candidates with
  | nil => rfl
  | cons c rest ih =>
    by_cases hscanned : p.files.contains c = true
    · -- A scanned candidate is a file, so the disk alone stops at it as well.
      have hthere : p.isFile c = .ok true := h c (List.contains_iff_mem.1 hscanned)
      have hfound : p.unscanned.find? (c :: rest) = .ok (some (.external (some c))) := by
        show (p.isFile c >>= fun there => if there then _ else _) = _
        rw [hthere]
        rfl
      rw [hfound, Project.find?, if_pos hscanned]
      show Except.ok _ = Except.ok (some (Outcome.labelled p.files (.external (some c))))
      rw [Outcome.labelled, if_pos hscanned]
    · -- Otherwise both ask the disk.
      have hboth : ∀ q : Project, q.files.contains c = false → q.isFile c = p.isFile c →
          q.find? (c :: rest) = (do
            if ← p.isFile c then return some (.external (some c)) else q.find? rest) := by
        intro q hnot hsame
        rw [Project.find?, if_neg (by simpa using hnot), hsame]
      rw [hboth p (by simpa using hscanned) rfl, hboth p.unscanned rfl rfl]
      cases p.isFile c with
      | error fault => rfl
      | ok there =>
        cases there with
        | true =>
          show Except.ok _ = Except.ok (some (Outcome.labelled p.files (.external (some c))))
          rw [Outcome.labelled, if_neg hscanned]
        | false => exact ih

namespace Resolution

/-! ## Relative imports -/

theorem relativeNames_eq_labelled (h : p.IsOnDisk) (target names : List String) :
    relativeNames p target names = (relativeNames p.unscanned target names).map
      (List.map fun entry => (entry.1, entry.2.map (Outcome.labelled p.files))) := by
  induction names with
  | nil => rfl
  | cons name rest ih =>
    unfold relativeNames
    rw [p.find?_eq_labelled h, ih]
    cases p.unscanned.find? (moduleCandidates (target ++ [name])) with
    | error fault => rfl
    | ok outcome =>
      cases relativeNames p.unscanned target rest with
      | error fault => rfl
      | ok later => rfl

theorem moduleResolutions_labelled (files : List String) (names : List (String × Option Outcome)) :
    moduleResolutions r (names.map fun entry => (entry.1, entry.2.map (Outcome.labelled files))) =
      (moduleResolutions r names).map (Resolution.labelled files) := by
  unfold moduleResolutions
  rw [List.filterMap_map, List.map_filterMap]
  congr 1
  funext ⟨name, outcome⟩
  cases outcome <;> rfl

/-- Which names are left over does not depend on the labels. -/
theorem leftoverNames_labelled (files : List String) (names : List (String × Option Outcome)) :
    leftoverNames (names.map fun entry => (entry.1, entry.2.map (Outcome.labelled files))) =
      leftoverNames names := by
  unfold leftoverNames
  rw [List.filter_map, List.map_map]
  exact congrArg _ (List.filter_congr fun entry _ => Option.isNone_map)

theorem base_eq_labelled (h : p.IsOnDisk) (target leftover : List String) :
    base p r target leftover =
      (base p.unscanned r target leftover).map (List.map (Resolution.labelled p.files)) := by
  unfold base
  rw [p.find?_eq_labelled h]
  cases p.unscanned.find? (baseCandidates r target) with
  | error fault => rfl
  | ok found =>
    cases found with
    | some outcome => rfl
    | none =>
      show (if _ then _ else _) = Except.map _ (if _ then _ else _)
      split
      · rfl
      · show Except.ok _ = Except.ok _
        rw [List.map_map]
        rfl

theorem relative_eq_labelled (h : p.IsOnDisk) (file : String) (r : Import.Ref) :
    relative p file r = (relative p.unscanned file r).map (List.map (Resolution.labelled p.files)) := by
  cases hpackage : package? file r with
  | none =>
    unfold relative
    rw [hpackage]
    rfl
  | some package =>
    have hnames := relativeNames_eq_labelled h (package ++ moduleParts r) r.names
    cases hfound : relativeNames p.unscanned (package ++ moduleParts r) r.names with
    | error fault =>
      rw [hfound] at hnames
      unfold relative
      rw [hpackage]
      simp only [hfound, hnames]
      rfl
    | ok names =>
      rw [hfound] at hnames
      rw [relative_of_names hpackage hfound, relative_of_names hpackage hnames,
        leftoverNames_labelled, moduleResolutions_labelled, base_eq_labelled h]
      split
      · cases base p.unscanned r (package ++ moduleParts r) (leftoverNames names) with
        | error fault => rfl
        | ok later =>
          show Except.ok _ = Except.ok _
          rw [List.map_append]
      · rfl

/-! ## JavaScript and TypeScript -/

theorem webOutcome_eq_labelled (h : p.IsOnDisk) (file specifier : String) :
    webOutcome p file specifier =
      (webOutcome p.unscanned file specifier).map (Outcome.labelled p.files) := by
  have hpath : pathOf? p.unscanned file specifier = pathOf? p file specifier := rfl
  unfold webOutcome
  rw [hpath]
  cases pathOf? p file specifier with
  | none => rfl
  | some path =>
    simp only
    split
    · rfl
    · rw [p.find?_eq_labelled h]
      show _ = Except.map _ (Except.map _ (p.unscanned.find? (webCandidates p.webExtensions _)))
      cases p.unscanned.find? (webCandidates p.webExtensions (if path = "." then "" else path)) with
      | error fault => rfl
      | ok found => cases found <;> rfl

theorem web_eq_labelled (h : p.IsOnDisk) (file : String) (r : Import.Ref) :
    web p file r = (web p.unscanned file r).map (List.map (Resolution.labelled p.files)) := by
  rw [web_eq_map, web_eq_map, webOutcome_eq_labelled h]
  cases webOutcome p.unscanned file r.module <;> rfl

end Resolution

/-- Resolution asks the disk alone, and the scan labels what it finds. -/
theorem FileImports.resolveRef_eq_labelled (h : p.IsOnDisk) (file : String)
    (hr : r.language = .python → r.level ≠ 0) :
    resolveRef p file r =
      (resolveRef p.unscanned file r).map (List.map (Resolution.labelled p.files)) := by
  unfold resolveRef
  cases hlanguage : r.language with
  | python =>
    simp only [Resolution.dotted, if_neg (hr hlanguage)]
    exact Resolution.relative_eq_labelled h file r
  | javascript => exact Resolution.web_eq_labelled h file r

/-! ## Two scans of one disk -/

def Outcome.IsBroken (o : Outcome) : Prop := ∃ candidate, o = .broken candidate

def Outcome.IsInternal (o : Outcome) : Prop := ∃ file, o = .internal file

/-- The resolutions of one import under two scans: they mean the same, and each is internal when what it
means was scanned. -/
structure SameMeaning (files files' : List String) (x y : Resolution) : Prop where
  specifier : x.specifier = y.specifier
  line : x.line = y.line
  target : x.outcome.target = y.outcome.target
  broken : x.outcome.IsBroken ↔ y.outcome.IsBroken
  internal : x.outcome.IsInternal ↔
    ¬ x.outcome.IsBroken ∧ ∃ file ∈ files, x.outcome.target = some file
  internal' : y.outcome.IsInternal ↔
    ¬ y.outcome.IsBroken ∧ ∃ file ∈ files', y.outcome.target = some file

namespace Outcome

variable {files : List String} {o : Outcome}

theorem target_labelled : (o.labelled files).target = o.target := by
  unfold labelled
  split
  · split <;> rfl
  · rfl

theorem isBroken_labelled : (o.labelled files).IsBroken ↔ o.IsBroken := by
  unfold labelled
  split
  · split <;> simp [IsBroken]
  · rfl

theorem isInternal_labelled (h : ¬ o.IsInternal) : (o.labelled files).IsInternal ↔
    ¬ (o.labelled files).IsBroken ∧ ∃ file ∈ files, (o.labelled files).target = some file := by
  rw [isBroken_labelled, target_labelled]
  cases o with
  | internal file => exact absurd ⟨file, rfl⟩ h
  | broken candidate =>
    exact iff_of_false nofun fun ⟨hnot, _⟩ => hnot ⟨candidate, rfl⟩
  | external there =>
    cases there with
    | none => exact iff_of_false nofun nofun
    | some file =>
      have hnot : ¬ (external (some file)).IsBroken := nofun
      rw [labelled]
      by_cases hscanned : files.contains file = true
      · rw [if_pos hscanned]
        exact iff_of_true ⟨file, rfl⟩ ⟨hnot, file, List.contains_iff_mem.1 hscanned, rfl⟩
      · rw [if_neg hscanned]
        refine iff_of_false nofun ?_
        rintro ⟨-, file', hfile', htarget⟩
        obtain rfl := Option.some.inj htarget
        exact hscanned (List.contains_iff_mem.2 hfile')

end Outcome

/-- Without a scan nothing is internal. -/
theorem FileImports.not_isInternal_of_unscanned {own : List Resolution}
    (h : resolveRef p.unscanned file r = .ok own) : ∀ x ∈ own, ¬ x.outcome.IsInternal := by
  have hindexed : Resolution.Indexed p.unscanned := by
    constructor
    · exact nofun
    · intro name found hfound
      unfold ModuleIndex.longest? at hfound
      simp only at hfound
      split at hfound
      · cases hfound
      · obtain ⟨parts, -, hparts⟩ := List.exists_of_findSome?_eq_some hfound
        cases hparts
  rcases resolveRef_answered (r := r) (fun _ _ => hindexed) file with
    ⟨_, _, _, fault, _, hfault⟩ | ⟨own', hown', -, hall⟩
  · cases h.symm.trans hfault
  · obtain rfl := Except.ok.inj (h.symm.trans hown')
    rintro x hx ⟨found, hfound⟩
    exact List.not_mem_nil (hall x hx found hfound)

namespace Analysis

/-- What a scan finds below a real position is a file there, as long as its path can be told. -/
theorem isFile_of_mem_sourceFiles {d : Disk} {start : List String} {project : Entry}
    {s : Scan.Selection} {files : List String} {path : String} (hformed : d.isWellFormed = true)
    (hstart : d.at? start = some project) (hfolder : project.isFolder = true)
    (hdistinct : project.hasDistinctNames = true) (h : Scan.sourceFiles s project = .ok files)
    (hpath : path ∈ files) (hsize : (below (Disk.absolute start) path).utf8ByteSize ≤ Disk.pathLimit) :
    isFile d (Disk.absolute start) path = .ok true := by
  obtain ⟨names, content, rfl, hne, hfile⟩ :=
    Scan.exists_file_of_mem_sourceFiles hfolder hdistinct h hpath
  have hat : d.at? (start ++ names) = some (.file content) := by
    rw [Entry.at?_append, hstart]
    exact hfile
  have hstep : ∀ n ∈ start ++ names, Path.IsStep n := Entry.isStep_of_at? hformed hat
  have hbelow : below (Disk.absolute start) (Path.ofNames names) = Disk.absolute (start ++ names) := by
    unfold below Disk.absolute
    rw [Path.names_slash, Path.names_ofNames fun n hn => hstep n (List.mem_append_left _ hn),
      Path.names_ofNames fun n hn => hstep n (List.mem_append_right _ hn)]
  have hfound := Disk.find?_absolute hformed (List.append_ne_nil_of_right_ne_nil _ hne) hat
    (hbelow ▸ hsize)
  unfold isFile
  rw [hbelow, hfound]
  rfl

/-- Two scans of one disk, whatever was left out of each, resolve a relative import or an import of
JavaScript to the same: the same specifiers on the same lines with the same targets, in the same order.
What was left out of a scan is external there instead of internal, and never broken. -/
theorem filtering_never_redirects {d : Disk} {root : String} {files files' : List String}
    (h : ∀ file ∈ files, isFile d root file = .ok true)
    (h' : ∀ file ∈ files', isFile d root file = .ok true) (roots roots' extensions : List String)
    (aliases : List (String × String)) (path : String) (r : Import.Ref)
    (hr : r.language = .python → r.level ≠ 0) :
    let p := Project.ofFiles files roots extensions aliases (isFile d root)
    let p' := Project.ofFiles files' roots' extensions aliases (isFile d root)
    (∃ fault, FileImports.resolveRef p path r = .error fault ∧
        FileImports.resolveRef p' path r = .error fault) ∨
      ∃ own own', FileImports.resolveRef p path r = .ok own ∧
        FileImports.resolveRef p' path r = .ok own' ∧
          List.Forall₂ (SameMeaning files files') own own' := by
  intro p p'
  rw [FileImports.resolveRef_eq_labelled (p := p) h path hr,
    FileImports.resolveRef_eq_labelled (p := p') h' path hr]
  -- Without their scans the two projects are one, and there is one run to look at.
  have hsame : p'.unscanned = p.unscanned := rfl
  rw [hsame]
  cases hown : FileImports.resolveRef p.unscanned path r with
  | error fault => exact .inl ⟨fault, rfl, rfl⟩
  | ok own =>
    refine .inr ⟨_, _, rfl, rfl, ?_⟩
    rw [List.forall₂_map_left_iff, List.forall₂_map_right_iff, List.forall₂_same]
    intro x hx
    have hnot := FileImports.not_isInternal_of_unscanned hown x hx
    exact ⟨rfl, rfl, Outcome.target_labelled.trans Outcome.target_labelled.symm,
      Outcome.isBroken_labelled.trans Outcome.isBroken_labelled.symm,
      Outcome.isInternal_labelled hnot, Outcome.isInternal_labelled hnot⟩

/-- A package on a disk. -/
def packageFolder : Entry := .folder [("pkg", .folder [("m.py", .file .empty), ("a.py", .file .empty)])]

def packageDisk : Disk := .folder [("project", packageFolder)]

/-- The package with one of its files left out of the scan. -/
theorem filtering_never_redirects_left_out :
    let s : Scan.Selection := ⟨[".py"], ⟨[], []⟩, false⟩
    let s' : Scan.Selection := ⟨[".py"], ⟨[], ["pkg/a.py"]⟩, false⟩
    let r : Import.Ref := ⟨1, "", ["a"], 1, .python⟩
    let project (files : List String) : Project :=
      .ofFiles files ["."] [".py"] [] (isFile packageDisk "/project")
    ∃ files files', Scan.sourceFiles s packageFolder = .ok files ∧
      Scan.sourceFiles s' packageFolder = .ok files' ∧
      (∀ file ∈ files, isFile packageDisk "/project" file = .ok true) ∧
      (∀ file ∈ files', isFile packageDisk "/project" file = .ok true) ∧ r.level ≠ 0 ∧
      ∃ own own', FileImports.resolveRef (project files) "pkg/m.py" r = .ok own ∧
        FileImports.resolveRef (project files') "pkg/m.py" r = .ok own' ∧
          List.Forall₂ (SameMeaning files files') own own' := by
  intro s s' r project
  have hformed : packageDisk.isWellFormed = true := by
    simp only [packageDisk, packageFolder, Entry.isWellFormed, Entry.areWellFormed,
      Entry.isEntryName, String.contains_char_eq]
    decide +kernel
  have hdistinct : packageFolder.hasDistinctNames = true := by decide +kernel
  have hroot : Disk.absolute ["project"] = "/project" := by decide +kernel
  have hfiles : Scan.sourceFiles s packageFolder = .ok (sortedDistinct ["pkg/m.py", "pkg/a.py"]) := by
    with_unfolding_all rfl
  have hfiles' : Scan.sourceFiles s' packageFolder = .ok (sortedDistinct ["pkg/m.py"]) := by
    with_unfolding_all rfl
  have hthere : ∀ {s files}, Scan.sourceFiles s packageFolder = .ok files →
      (∀ file ∈ files, file = "pkg/m.py" ∨ file = "pkg/a.py") →
        ∀ file ∈ files, isFile packageDisk "/project" file = .ok true := by
    intro s files hscan hnames file hfile
    rw [← hroot]
    refine isFile_of_mem_sourceFiles hformed rfl rfl hdistinct hscan hfile ?_
    rcases hnames file hfile with rfl | rfl <;> decide +kernel
  have h := hthere hfiles fun file hfile => by simpa [mem_sortedDistinct] using hfile
  have h' := hthere hfiles' fun file hfile => .inl (by simpa [mem_sortedDistinct] using hfile)
  have hlevel : r.level ≠ 0 := by decide
  refine ⟨_, _, hfiles, hfiles', h, h', hlevel, ?_⟩
  rcases filtering_never_redirects h h' ["."] ["."] [".py"] [] "pkg/m.py" r fun _ => hlevel with
    ⟨fault, hfault, -⟩ | hown
  · have hfound : ∀ files, FileImports.resolveRef (project files).unscanned "pkg/m.py" r =
        .ok [⟨".a", 1, .external (some "pkg/a.py")⟩] := by
      intro files
      show FileImports.resolveRef (project []).unscanned "pkg/m.py" r = _
      cbv
    have hall := FileImports.resolveRef_eq_labelled (p := project _) h "pkg/m.py" fun _ => hlevel
    rw [hfound] at hall
    cases hfault.symm.trans hall
  · exact hown

end Analysis

end LayerGate
