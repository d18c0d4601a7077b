import Mathlib
import LayerGate.Proofs.Discovery
import LayerGate.Proofs.PathText

/-!
# The last word on a path

In one ignore file the last rule that speaks of a path decides, so a later rule can take back what an
earlier one ignores.  Among the ignore files on the way down to a path none takes anything back: a path
is ignored as soon as one of them ignores it, wherever that one lies.
-/

namespace LayerGate

/-! ## One file -/

namespace Ignore.Rules

variable {rs : Rules} {path : String} {b : Bool}

/-- The last rule that speaks of the path. -/
def lastSpeaking? (rs : Rules) (path : String) : Option Rule :=
  rs.rules.reverse.find? fun r => (r.speaksOf path).toOption.getD false

theorem find?_of_firstSpeaking {rules : List Rule} {found : Option Rule}
    (h : firstSpeaking path rules = .ok found) :
    rules.find? (fun r => (r.speaksOf path).toOption.getD false) = found := by
  induction rules with
  | nil => exact Except.ok.inj h
  | cons r rules ih =>
    rw [firstSpeaking, bind_eq_ok_iff] at h
    obtain ⟨speaks, hspeaks, h⟩ := h
    rw [List.find?_cons, hspeaks]
    cases speaks with
    | true => exact Except.ok.inj h
    | false => exact ih h

/-- A file ignores a path just if the last rule that speaks of it is not negated. -/
theorem eq_true_iff_of_ignores (h : rs.ignores path = .ok b) :
    b = true ↔ ∃ r, rs.lastSpeaking? path = some r ∧ r.negated = false := by
  unfold ignores at h
  split at h
  · obtain ⟨found, hfound, h⟩ := bind_eq_ok_iff.1 h
    obtain rfl := Except.ok.inj h
    rw [lastSpeaking?, find?_of_firstSpeaking hfound]
    cases found with
    | none => simp
    | some r => simp
  · rename_i hplain
    obtain ⟨found, hfound, h⟩ := bind_eq_ok_iff.1 h
    obtain rfl := Except.ok.inj h
    -- without a negated rule the first one that speaks decides as well as the last one
    rw [← find?_of_firstSpeaking hfound, List.find?_isSome]
    constructor
    · rintro ⟨r, hr, hspeaks⟩
      have hsome : (rs.lastSpeaking? path).isSome :=
        List.find?_isSome.2 ⟨r, List.mem_reverse.2 hr, hspeaks⟩
      obtain ⟨last, hlast⟩ := Option.isSome_iff_exists.1 hsome
      refine ⟨last, hlast, Bool.of_not_eq_true fun hnegated => hplain ?_⟩
      exact List.any_eq_true.2 ⟨last, List.mem_reverse.1 (List.mem_of_find?_eq_some hlast), hnegated⟩
    · rintro ⟨r, hlast, -⟩
      have hspeaks := List.find?_some hlast
      exact ⟨r, List.mem_reverse.1 (List.mem_of_find?_eq_some hlast), hspeaks⟩

end Ignore.Rules

/-! ## All files -/

namespace Scan

variable {s : Selection} {rules : List Source} {project : Entry} {path folder folder' : List String}
  {r r' : Ignore.Rule} {b : Bool}

/-- A path is ignored just if one of the sources ignores it. -/
theorem eq_true_iff_of_ignored (h : ignored rules path = .ok b) :
    b = true ↔ ∃ source ∈ rules, ∃ text r, seenFrom? source.folder path = some text ∧
      source.rules.lastSpeaking? text = some r ∧ r.negated = false := by
  induction rules with
  | nil =>
    obtain rfl := Except.ok.inj h
    exact iff_of_false nofun nofun
  | cons source rules ih =>
    simp only [List.exists_mem_cons_iff]
    unfold ignored at h
    split at h
    · rename_i hseen
      rw [ih h, or_iff_right]
      rintro ⟨text, r, htext, -⟩
      cases hseen.symm.trans htext
    · rename_i text hseen
      obtain ⟨own, hown, h⟩ := bind_eq_ok_iff.1 h
      have hfirst := Ignore.Rules.eq_true_iff_of_ignores hown
      cases own with
      | true =>
        obtain rfl := Except.ok.inj h
        obtain ⟨r, hr, hnegated⟩ := hfirst.1 rfl
        exact iff_of_true rfl (.inl ⟨text, r, hseen, hr, hnegated⟩)
      | false =>
        rw [ih h, or_iff_right]
        rintro ⟨text', r, htext, hr, hnegated⟩
        obtain rfl := Option.some.inj (hseen.symm.trans htext)
        exact absurd (hfirst.2 ⟨r, hr, hnegated⟩) nofun

/-- In the ignore file of a folder on the way down to the path, the rule is the last one that speaks of
the path.  The file is no link, and skipped folders have none. -/
structure LastWord (project : Entry) (path folder : List String) (r : Ignore.Rule) : Prop where
  entered : ∀ n ∈ folder, n ∉ skippedFolders
  said : ∃ content rs text, project.at? (folder ++ [ignoreFileName]) = some (.file content) ∧
    Ignore.Rules.ofBytes content = .ok rs ∧ seenFrom? folder path = some text ∧
      rs.lastSpeaking? text = some r

theorem LastWord.above (h : LastWord project path folder r) : folder <+: path := by
  obtain ⟨-, -, text, -, -, hseen, -⟩ := h.said
  unfold seenFrom? at hseen
  split at hseen
  · rename_i hprefix
    exact List.isPrefixOf_iff_prefix.1 hprefix
  · cases hseen

theorem LastWord.unique (h : LastWord project path folder r) (h' : LastWord project path folder r') :
    r = r' := by
  obtain ⟨content, rs, text, hfile, hrules, hseen, hlast⟩ := h.said
  obtain ⟨content', rs', text', hfile', hrules', hseen', hlast'⟩ := h'.said
  obtain rfl := Entry.file.inj (Option.some.inj (hfile.symm.trans hfile'))
  obtain rfl := Except.ok.inj (hrules.symm.trans hrules')
  obtain rfl := Option.some.inj (hseen.symm.trans hseen')
  exact Option.some.inj (hlast.symm.trans hlast')

/-- The sources of all nested ignore files are those of the tree. -/
theorem mem_sources_iff (hdistinct : project.hasDistinctNames = true)
    (h : sources true project = .ok rules) {source : Source} : source ∈ rules ↔
      (∀ n ∈ source.folder, n ∉ skippedFolders) ∧ ∃ content,
        project.at? (source.folder ++ [ignoreFileName]) = some (.file content) ∧
          Ignore.Rules.ofBytes content = .ok source.rules := by
  rw [mem_of_mapM_eq_ok h, countedFiles, if_pos rfl]
  simp only [List.mem_mergeSort, mem_ignoreFiles_iff hdistinct, List.nil_append]
  constructor
  · rintro ⟨⟨folder, content⟩, ⟨names, rfl, hnames, hfile⟩, hsource⟩
    obtain ⟨rs, hrules, h⟩ := bind_eq_ok_iff.1 hsource
    obtain rfl := Except.ok.inj h
    exact ⟨hnames, content, hfile, hrules⟩
  · rintro ⟨hnames, content, hfile, hrules⟩
    exact ⟨(source.folder, content), ⟨source.folder, rfl, hnames, hfile⟩,
      bind_eq_ok_iff.2 ⟨source.rules, hrules, rfl⟩⟩

/-- A path is ignored just if the last word of some folder on the way down is not negated. -/
theorem ignored_iff_lastWord (hdistinct : project.hasDistinctNames = true)
    (hrules : sources true project = .ok rules) (h : ignored rules path = .ok b) :
    b = true ↔ ∃ folder r, LastWord project path folder r ∧ r.negated = false := by
  rw [eq_true_iff_of_ignored h]
  constructor
  · rintro ⟨source, hsource, text, r, hseen, hlast, hnegated⟩
    obtain ⟨hnames, content, hfile, hread⟩ := (mem_sources_iff hdistinct hrules).1 hsource
    exact ⟨source.folder, r, ⟨hnames, content, source.rules, text, hfile, hread, hseen, hlast⟩,
      hnegated⟩
  · rintro ⟨folder, r, ⟨hnames, content, rs, text, hfile, hread, hseen, hlast⟩, hnegated⟩
    exact ⟨⟨folder, rs⟩, (mem_sources_iff hdistinct hrules).2 ⟨hnames, content, hfile, hread⟩,
      text, r, hseen, hlast, hnegated⟩

/-! ## The deepest file -/

/-- Of the folders with a last word on the path this one is deepest. -/
structure DeepestWord (project : Entry) (path folder : List String) (r : Ignore.Rule) : Prop
    extends LastWord project path folder r where
  deepest : ∀ folder' r', LastWord project path folder' r' → folder'.length ≤ folder.length

theorem LastWord.exists_deepest (h : LastWord project path folder r) :
    ∃ folder r, DeepestWord project path folder r := by
  obtain ⟨⟨deep, last⟩, hlast, hmin⟩ :=
    (measure fun f : List String × Ignore.Rule => path.length - f.1.length).wf.has_min
      {f | LastWord project path f.1 f.2} ⟨(folder, r), h⟩
  refine ⟨deep, last, hlast, fun folder' r' h' => ?_⟩
  have hle := h'.above.length_le
  have hnot : ¬ path.length - folder'.length < path.length - deep.length := hmin (folder', r') h'
  omega

theorem DeepestWord.unique (h : DeepestWord project path folder r)
    (h' : DeepestWord project path folder' r') : r = r' := by
  have hlength := Nat.le_antisymm (h'.deepest _ _ h.toLastWord) (h.deepest _ _ h'.toLastWord)
  obtain rfl : folder = folder' := by
    rw [List.prefix_iff_eq_take.1 h.above, List.prefix_iff_eq_take.1 h'.above, hlength]
  exact h.toLastWord.unique h'.toLastWord

/-- The deepest word on the path takes back what a folder further up ignores. -/
def TakenBack (project : Entry) (path : List String) : Prop :=
  (∃ folder r, DeepestWord project path folder r ∧ r.negated = true) ∧
    ∃ folder r, LastWord project path folder r ∧ r.negated = false

/-- The deepest word decides as all of them do, unless it takes something back. -/
theorem exists_lastWord_iff_deepest :
    ((∃ folder r, LastWord project path folder r ∧ r.negated = false) ↔
      ∃ folder r, DeepestWord project path folder r ∧ r.negated = false) ↔
        ¬ TakenBack project path := by
  constructor
  · rintro hiff ⟨⟨folder, r, hdeepest, hnegated⟩, hany⟩
    obtain ⟨folder', r', hdeepest', hplain⟩ := hiff.1 hany
    obtain rfl := hdeepest.unique hdeepest'
    rw [hnegated] at hplain
    cases hplain
  · intro hnot
    constructor
    · rintro ⟨folder, r, hlast, hplain⟩
      obtain ⟨folder', r', hdeepest⟩ := hlast.exists_deepest
      refine ⟨folder', r', hdeepest, Bool.of_not_eq_true fun hnegated => hnot ?_⟩
      exact ⟨⟨folder', r', hdeepest, hnegated⟩, folder, r, hlast, hplain⟩
    · rintro ⟨folder, r, hdeepest, hplain⟩
      exact ⟨folder, r, hdeepest.toLastWord, hplain⟩

/-! ## What a scan leaves out -/

/-- A scan comes to the path and takes it, unless it is ignored. -/
structure Offered (s : Selection) (rules : List Source) (path : List String) : Prop where
  entered : ∀ above, above <+: path → above ≠ [] → above ≠ path →
    enters (ignored rules) above = .ok true
  suffix : Path.suffix (path.getLast?.getD "") ∈ s.extensions
  accepted : s.filter.accepts (Path.ofNames path) = true

theorem Offered.discoverable_iff {content : ByteArray} (h : Offered s rules path)
    (hfile : project.at? path = some (.file content)) :
    Discoverable s rules project path ↔ ignored rules path = .ok false := by
  refine ⟨Discoverable.kept, fun hkept => ?_⟩
  obtain ⟨hincluded, hexcluded⟩ := accepts_iff.1 h.accepted
  refine ⟨⟨content, hfile⟩, fun above habove hne hproper => ⟨?_, ?_⟩, h.suffix, hkept, hincluded,
    hexcluded⟩
  · obtain ⟨below, rfl⟩ := habove
    cases below with
    | nil => exact absurd (List.append_nil _).symm hproper
    | cons n below => exact Entry.folder_of_at?_append hfile
  · exact enters_eq_true_iff.1 (h.entered above habove hne hproper)

/-- Of what is offered, a scan finds the files that are not ignored. -/
theorem Offered.mem_sourceFiles_iff {content : ByteArray} {files : List String}
    (h : Offered s rules path) (hfolder : project.isFolder = true) (hformed : project.isWellFormed = true)
    (hdistinct : project.hasDistinctNames = true) (hrules : sources s.nestedIgnore project = .ok rules)
    (hfiles : sourceFiles s project = .ok files) (hfile : project.at? path = some (.file content)) :
    Path.ofNames path ∈ files ↔ ignored rules path = .ok false := by
  obtain ⟨es, rfl⟩ := Entry.exists_of_isFolder hfolder
  obtain ⟨rules', found, hrules', hfound, rfl⟩ := sourceFiles_eq_ok_iff.1 hfiles
  obtain rfl := Except.ok.inj (hrules.symm.trans hrules')
  rw [(discovers_of_collectIn hdistinct hfound).mem_iff, ← h.discoverable_iff hfile]
  constructor
  · rintro ⟨names, hnames, hdiscoverable⟩
    obtain ⟨content', hat⟩ := hdiscoverable.file
    obtain rfl : path = names := by
      rw [← Path.names_ofNames (Entry.isStep_of_at? hformed hfile), hnames,
        Path.names_ofNames (Entry.isStep_of_at? hformed hat)]
    exact hdiscoverable
  · intro hdiscoverable
    exact ⟨path, rfl, hdiscoverable⟩

/-- Rules that can be read keep no scan from its end. -/
theorem exists_sourceFiles (hfolder : project.isFolder = true) (hdistinct : project.hasDistinctNames = true)
    (hrules : sources s.nestedIgnore project = .ok rules) (hreadable : areReadable rules = true) :
    ∃ files, sourceFiles s project = .ok files := by
  obtain ⟨es, rfl⟩ := Entry.exists_of_isFolder hfolder
  rcases @collectIn_spec s (ignored rules) es [] hdistinct with
    ⟨fault, ⟨names, -, hfault⟩, -⟩ | ⟨found, hfound, -⟩
  · obtain ⟨b, hb⟩ := exists_ignored hreadable ([] ++ names)
    cases hb.symm.trans hfault
  · exact ⟨_, sourceFiles_eq_ok_iff.2 ⟨rules, found, hrules, hfound, rfl⟩⟩

/-- With nested ignore files, a file is ignored just if the last word of some folder above it is not
negated.  So the deepest word decides just if it takes nothing back.  A scan that comes to the file leaves
it out just if it is ignored. -/
theorem ignored_nested_iff {content : ByteArray} (hfolder : project.isFolder = true)
    (hformed : project.isWellFormed = true) (hdistinct : project.hasDistinctNames = true)
    (hrules : sources true project = .ok rules) (hfile : project.at? path = some (.file content)) :
    (areReadable rules = true → (∃ b, ignored rules path = .ok b) ∧
      ∀ s, s.nestedIgnore = true → ∃ files, sourceFiles s project = .ok files) ∧
    ∀ b, ignored rules path = .ok b →
      (b = true ↔ ∃ folder r, LastWord project path folder r ∧ r.negated = false) ∧
      ((b = true ↔ ∃ folder r, DeepestWord project path folder r ∧ r.negated = false) ↔
        ¬ TakenBack project path) ∧
      ∀ s files, s.nestedIgnore = true → sourceFiles s project = .ok files → Offered s rules path →
        (Path.ofNames path ∉ files ↔ b = true) := by
  refine ⟨fun hreadable => ⟨exists_ignored hreadable path, fun s hnested => ?_⟩, fun b hb => ?_⟩
  · exact exists_sourceFiles hfolder hdistinct (hnested ▸ hrules) hreadable
  · have hlast := ignored_iff_lastWord hdistinct hrules hb
    refine ⟨hlast, ?_, fun s files hnested hfiles hoffered => ?_⟩
    · rw [hlast]
      exact exists_lastWord_iff_deepest
    · rw [hoffered.mem_sourceFiles_iff hfolder hformed hdistinct (hnested ▸ hrules) hfiles hfile, hb]
      cases b <;> simp

/-- A project that ignores all Python files, and a package in it that takes one back. -/
def keptInPackage : Entry :=
  .folder [(".gitignore", .file "*.py\n".toUTF8), ("pkg", .folder
    [(".gitignore", .file "!keep.py\n".toUTF8), ("keep.py", .file .empty)])]

/-- What `!keep.py` is read as. -/
def keepRule : Ignore.Rule := ⟨true, Pattern.Regex.ofString "(^|[/])keep\\.py$"⟩

def keptInPackageRules : List Source :=
  [⟨[], ⟨[⟨false, Pattern.Regex.ofString "(^|[/])[^/]*\\.py$"⟩]⟩⟩, ⟨["pkg"], ⟨[keepRule]⟩⟩]

def pythonFiles : Selection := ⟨[".py"], ⟨[], []⟩, true⟩

theorem sources_keptInPackage : sources true keptInPackage = .ok keptInPackageRules := by
  have hfiles : countedFiles true keptInPackage =
      [([], "*.py\n".toUTF8), (["pkg"], "!keep.py\n".toUTF8)] :=
    List.mergeSort_of_pairwise (by decide +kernel)
  rw [sources, hfiles, mapM_eq_ok_iff]
  exact .cons (by with_unfolding_all rfl) (.cons (by with_unfolding_all rfl) .nil)

theorem areReadable_keptInPackageRules : areReadable keptInPackageRules = true := by cbv

theorem offered_keep : Offered pythonFiles keptInPackageRules ["pkg", "keep.py"] where
  entered above habove hne hproper := by
    have hpkg : enters (ignored keptInPackageRules) ["pkg"] = .ok true := by cbv
    obtain ⟨below, hbelow⟩ := habove
    rcases above with - | ⟨first, - | ⟨second, above⟩⟩
    · exact absurd rfl hne
    · obtain rfl := (List.cons.inj hbelow).1
      exact hpkg
    · obtain ⟨rfl, hrest⟩ := List.cons.inj hbelow
      obtain ⟨rfl, hend⟩ := List.cons.inj hrest
      obtain ⟨rfl, -⟩ := List.append_eq_nil_iff.1 hend
      exact absurd rfl hproper
  suffix := by decide +kernel
  accepted := by decide +kernel

theorem deepestWord_keep : DeepestWord keptInPackage ["pkg", "keep.py"] ["pkg"] keepRule where
  entered := by decide
  said := ⟨"!keep.py\n".toUTF8, ⟨[keepRule]⟩, "keep.py", rfl, by with_unfolding_all rfl, by cbv, by cbv⟩
  deepest folder r h := by
    obtain ⟨content, -, -, hfile, -⟩ := h.said
    have hle := h.above.length_le
    by_contra hdeep
    obtain rfl : folder = ["pkg", "keep.py"] := h.above.eq_of_length (by simp at *; omega)
    cases hfile

theorem ignored_nested_iff_keep :
    (keptInPackage.isFolder = true ∧ keptInPackage.isWellFormed = true ∧
      keptInPackage.hasDistinctNames = true ∧ sources true keptInPackage = .ok keptInPackageRules ∧
        keptInPackage.at? ["pkg", "keep.py"] = some (.file .empty)) ∧
    ignored keptInPackageRules ["pkg", "keep.py"] = .ok true ∧
      TakenBack keptInPackage ["pkg", "keep.py"] := by
  have hformed : keptInPackage.isWellFormed = true := by cbv
  have hdistinct : keptInPackage.hasDistinctNames = true := by cbv
  have hrules := sources_keptInPackage
  have hignored : ignored keptInPackageRules ["pkg", "keep.py"] = .ok true := by cbv
  have hfile : keptInPackage.at? ["pkg", "keep.py"] = some (.file .empty) := rfl
  have hplain := ((ignored_nested_iff rfl hformed hdistinct hrules hfile).2 true hignored).1.1 rfl
  exact ⟨⟨rfl, hformed, hdistinct, hrules, hfile⟩, hignored, ⟨_, _, deepestWord_keep, rfl⟩, hplain⟩

/-- The deepest word takes the file back, and a scan leaves it out all the same. -/
theorem scan_leaves_out_taken_back : ∃ files r,
    DeepestWord keptInPackage ["pkg", "keep.py"] ["pkg"] r ∧ r.negated = true ∧
      Offered pythonFiles keptInPackageRules ["pkg", "keep.py"] ∧
        sourceFiles pythonFiles keptInPackage = .ok files ∧ "pkg/keep.py" ∉ files := by
  have hformed : keptInPackage.isWellFormed = true := by cbv
  have hdistinct : keptInPackage.hasDistinctNames = true := by cbv
  have hignored : ignored keptInPackageRules ["pkg", "keep.py"] = .ok true := by cbv
  obtain ⟨files, hfiles⟩ := exists_sourceFiles (s := pythonFiles) rfl hdistinct sources_keptInPackage
    areReadable_keptInPackageRules
  refine ⟨files, keepRule, deepestWord_keep, rfl, offered_keep, hfiles, fun hmem => ?_⟩
  have hfile : keptInPackage.at? ["pkg", "keep.py"] = some (.file .empty) := rfl
  have hkept := (offered_keep.mem_sourceFiles_iff rfl hformed hdistinct sources_keptInPackage hfiles
    hfile).1 hmem
  cases hkept.symm.trans hignored

end Scan

end LayerGate
