import LayerGate.Proofs.IgnoreFiles
import LayerGate.Proofs.Results
import LayerGate.Proofs.SortedDistinct
import LayerGate.Scan.SourceFiles

/-!
# Which files are analysed

The walk over a project tests folders with one set of rules and files with another as it goes.  What it
finds is told by the tree alone: a file counts by its own path and by the folders above it.
-/

namespace LayerGate.Scan

open Entry (SameTree haveDistinctNames)

variable {s : Selection} {ignored : List String → Except Ignore.Fault Bool} {rules : List Source}
  {here names path q : List String} {e project listed : Entry}
  {es : List (String × Entry)} {name : String} {content : ByteArray} {fault : Ignore.Fault}

/-! ## The tests on the way -/

theorem enters_eq_true_iff : enters ignored path = .ok true ↔
    path.getLast?.getD "" ∉ skippedFolders ∧ ignored path = .ok false := by
  unfold enters
  rw [List.contains_eq_mem]
  by_cases hskip : path.getLast?.getD "" ∈ skippedFolders
  · rw [if_pos (decide_eq_true hskip)]
    exact iff_of_false nofun fun h => h.1 hskip
  · rw [if_neg (by simpa using hskip), and_iff_right hskip]
    cases ignored path with
    | error fault => exact iff_of_false nofun nofun
    | ok isIgnored =>
      cases isIgnored with
      | true => exact iff_of_false nofun nofun
      | false => exact iff_of_true rfl rfl

theorem enters_eq_error (h : enters ignored path = .error fault) : ignored path = .error fault := by
  unfold enters at h
  split at h
  · cases h
  · cases hignored : ignored path with
    | error fault' =>
      rw [hignored] at h
      exact h
    | ok isIgnored =>
      rw [hignored] at h
      cases h

theorem selects_eq_true_iff : selects s ignored path = .ok true ↔
    Path.suffix (path.getLast?.getD "") ∈ s.extensions ∧ ignored path = .ok false ∧
      s.filter.accepts (Path.ofNames path) = true := by
  unfold selects
  rw [List.contains_eq_mem]
  by_cases hsuffix : Path.suffix (path.getLast?.getD "") ∈ s.extensions
  · rw [if_neg (by simpa using hsuffix), and_iff_right hsuffix]
    cases ignored path with
    | error fault => exact iff_of_false nofun nofun
    | ok isIgnored =>
      cases isIgnored with
      | true => exact iff_of_false nofun nofun
      | false =>
        rw [and_iff_right rfl]
        exact ⟨fun h => Except.ok.inj h, fun h => congrArg Except.ok h⟩
  · rw [if_pos (by simpa using hsuffix)]
    exact iff_of_false nofun fun h => hsuffix h.1

theorem selects_eq_error (h : selects s ignored path = .error fault) :
    ignored path = .error fault := by
  unfold selects at h
  split at h
  · cases h
  · cases hignored : ignored path with
    | error fault' =>
      rw [hignored] at h
      exact h
    | ok isIgnored =>
      rw [hignored] at h
      cases isIgnored <;> cases h

/-! ## The walk -/

/-- From the position `here` of an entry, the walk comes to the file at the end of the names and selects
it. -/
structure Reached (s : Selection) (ignored : List String → Except Ignore.Fault Bool)
    (here : List String) (e : Entry) (names : List String) : Prop where
  file : ∃ content, e.at? names = some (.file content)
  entered : ∀ above, above <+: names → above ≠ names → enters ignored (here ++ above) = .ok true
  selected : selects s ignored (here ++ names) = .ok true

theorem reached_file_iff : Reached s ignored here (.file content) names ↔
    names = [] ∧ selects s ignored here = .ok true := by
  constructor
  · rintro ⟨⟨content', hat⟩, -, hselected⟩
    cases names with
    | nil => exact ⟨rfl, by rwa [List.append_nil] at hselected⟩
    | cons n names => cases hat
  · rintro ⟨rfl, hselected⟩
    refine ⟨⟨content, rfl⟩, fun above habove hne => ?_, by rwa [List.append_nil]⟩
    exact absurd (List.prefix_nil.1 habove) hne

/-- The walk comes to a file below a folder if it enters the folder and then comes to the file from the
entry that leads there. -/
theorem reached_folder_iff (h : haveDistinctNames es = true) :
    Reached s ignored here (.folder es) names ↔ enters ignored here = .ok true ∧
      ∃ name e rest, (name, e) ∈ es ∧ names = name :: rest ∧
        Reached s ignored (here ++ [name]) e rest := by
  constructor
  · rintro ⟨⟨content, hat⟩, hentered, hselected⟩
    cases names with
    | nil => cases hat
    | cons name rest =>
      obtain ⟨e, he, hbelow⟩ := Option.bind_eq_some_iff.1 hat
      have hhere := hentered [] List.nil_prefix (List.cons_ne_nil _ _).symm
      rw [List.append_nil] at hhere
      refine ⟨hhere, name, e, rest, (Entry.lookup_iff_mem h).1 he, rfl, ⟨content, hbelow⟩, ?_, ?_⟩
      · intro above habove hne
        have hnext := hentered (name :: above) (List.cons_prefix_cons.2 ⟨rfl, habove⟩)
          fun heq => hne (List.cons.inj heq).2
        rwa [List.append_cons] at hnext
      · rwa [List.append_cons] at hselected
  · rintro ⟨hhere, name, e, rest, he, rfl, ⟨content, hbelow⟩, hentered, hselected⟩
    refine ⟨⟨content, ?_⟩, ?_, by rwa [List.append_cons]⟩
    · rw [Entry.at?_cons_of_folder, (Entry.lookup_iff_mem h).2 he]
      exact hbelow
    · intro above habove hne
      cases above with
      | nil => rwa [List.append_nil]
      | cons n above =>
        obtain ⟨rfl, hprefix⟩ := List.cons_prefix_cons.1 habove
        rw [List.append_cons]
        exact hentered above hprefix fun heq => hne (congrArg _ heq)

/-- The rules cannot say whether something that is there is ignored. -/
def Unclear (ignored : List String → Except Ignore.Fault Bool) (here : List String) (e : Entry)
    (fault : Ignore.Fault) : Prop :=
  ∃ names, (e.at? names).isSome = true ∧ ignored (here ++ names) = .error fault

theorem Unclear.folder (h : haveDistinctNames es = true) (he : (name, e) ∈ es)
    (hunclear : Unclear ignored (here ++ [name]) e fault) : Unclear ignored here (.folder es) fault := by
  obtain ⟨names, hthere, hfault⟩ := hunclear
  refine ⟨name :: names, ?_, by rwa [List.append_cons]⟩
  rw [Entry.at?_cons_of_folder, (Entry.lookup_iff_mem h).2 he]
  exact hthere

mutual

/-- The walk finds the files that it reaches, unless the rules fail it on the way. -/
theorem collect_spec : ∀ {e : Entry} {here : List String}, e.hasDistinctNames = true →
    (∃ fault, Unclear ignored here e fault ∧ collect s ignored here e = .error fault) ∨
      ∃ found, collect s ignored here e = .ok found ∧
        ∀ q, q ∈ found ↔ ∃ names, q = here ++ names ∧ Reached s ignored here e names
  | .link target, here, _ => by
    refine .inr ⟨[], rfl, fun q => iff_of_false List.not_mem_nil ?_⟩
    rintro ⟨names, -, ⟨content, hat⟩, -, -⟩
    cases names <;> cases hat
  | .file content, here, _ => by
    unfold collect
    cases hselects : selects s ignored here with
    | error fault =>
      have hfault := selects_eq_error hselects
      exact .inl ⟨fault, ⟨[], rfl, by rwa [List.append_nil]⟩, rfl⟩
    | ok isSelected =>
      refine .inr ⟨_, rfl, fun q => ?_⟩
      simp only [reached_file_iff, hselects, Except.ok.injEq]
      cases isSelected <;> simp
  | .folder es, here, hdistinct => by
    -- The walk goes on below a folder if it enters it, and no further otherwise.
    unfold collect
    cases henters : enters ignored here with
    | error fault =>
      have hfault := enters_eq_error henters
      exact .inl ⟨fault, ⟨[], rfl, by rwa [List.append_nil]⟩, rfl⟩
    | ok isEntered =>
      cases isEntered with
      | false =>
        refine .inr ⟨[], rfl, fun q => iff_of_false List.not_mem_nil ?_⟩
        rintro ⟨names, -, hreached⟩
        have htrue := ((reached_folder_iff hdistinct).1 hreached).1
        cases henters.symm.trans htrue
      | true =>
        rcases collectIn_spec hdistinct with ⟨fault, hunclear, hfault⟩ | ⟨found, hfound, hmem⟩
        · exact .inl ⟨fault, hunclear, hfault⟩
        · refine .inr ⟨found, hfound, fun q => ?_⟩
          rw [hmem]
          simp only [reached_folder_iff hdistinct, henters, true_and]
          constructor
          · rintro ⟨name, e, rest, he, rfl, hreached⟩
            exact ⟨name :: rest, rfl, name, e, rest, he, rfl, hreached⟩
          · rintro ⟨_, rfl, name, e, rest, he, rfl, hreached⟩
            exact ⟨name, e, rest, he, rfl, hreached⟩

theorem collectIn_spec : ∀ {es : List (String × Entry)} {here : List String},
    haveDistinctNames es = true →
    (∃ fault, Unclear ignored here (.folder es) fault ∧
        collectIn s ignored here es = .error fault) ∨
      ∃ found, collectIn s ignored here es = .ok found ∧ ∀ q, q ∈ found ↔
        ∃ name e rest, (name, e) ∈ es ∧ q = here ++ name :: rest ∧
          Reached s ignored (here ++ [name]) e rest
  | [], here, _ => .inr ⟨[], rfl, fun q => by simp⟩
  | (name, e) :: es, here, hdistinct => by
    have hself : (name, e) ∈ (name, e) :: es := List.mem_cons_self ..
    have hothers := Entry.haveDistinctNames_of_cons hdistinct
    unfold collectIn
    rcases collect_spec (Entry.hasDistinctNames_of_mem hdistinct hself) with
      ⟨fault, hunclear, hfault⟩ | ⟨below, hbelow, hmem⟩
    · exact .inl ⟨fault, hunclear.folder hdistinct hself, by rw [hfault]; rfl⟩
    · rcases collectIn_spec hothers with ⟨fault, hunclear, hfault⟩ | ⟨beside, hbeside, hmem'⟩
      · refine .inl ⟨fault, ?_, by rw [hbelow, hfault]; rfl⟩
        obtain ⟨names, hthere, hignored⟩ := hunclear
        cases names with
        | nil => exact ⟨[], rfl, hignored⟩
        | cons n names =>
          -- What stands behind the first entry is found in the rest of the list.
          rw [Entry.at?_cons_of_folder] at hthere
          obtain ⟨x, hx⟩ := Option.isSome_iff_exists.1 hthere
          obtain ⟨e', he', hat⟩ := Option.bind_eq_some_iff.1 hx
          have hmember := List.mem_cons_of_mem (name, e) ((Entry.lookup_iff_mem hothers).1 he')
          refine ⟨n :: names, ?_, hignored⟩
          rw [Entry.at?_cons_of_folder, (Entry.lookup_iff_mem hdistinct).2 hmember]
          exact Option.isSome_iff_exists.2 ⟨x, hat⟩
      · refine .inr ⟨below ++ beside, by rw [hbelow, hbeside]; rfl, fun q => ?_⟩
        rw [List.mem_append, hmem, hmem']
        -- A file lies below the first entry or below one of the others.
        simp only [List.mem_cons, Prod.mk.injEq]
        constructor
        · rintro (⟨names, rfl, hreached⟩ | ⟨n, e', rest, he', rfl, hreached⟩)
          · exact ⟨name, e, names, .inl ⟨rfl, rfl⟩, (List.append_cons ..).symm, hreached⟩
          · exact ⟨n, e', rest, .inr he', rfl, hreached⟩
        · rintro ⟨n, e', rest, ⟨rfl, rfl⟩ | he', rfl, hreached⟩
          · exact .inl ⟨rest, List.append_cons .., hreached⟩
          · exact .inr ⟨n, e', rest, he', rfl, hreached⟩

end

/-! ## What is discovered -/

theorem sourceFiles_eq_ok_iff {files : List String} : sourceFiles s project = .ok files ↔
    ∃ rules found, sources s.nestedIgnore project = .ok rules ∧
      collectIn s (Scan.ignored rules) [] project.entries = .ok found ∧
        files = sortedDistinct (found.map Path.ofNames) := by
  unfold sourceFiles
  rw [bind_eq_ok_iff]
  refine exists_congr fun rules => ?_
  rw [exists_and_left]
  refine and_congr_right fun _ => ?_
  rw [bind_eq_ok_iff]
  refine exists_congr fun found => and_congr_right fun _ => ?_
  exact ⟨fun h => (Except.ok.inj h).symm, fun h => congrArg Except.ok h.symm⟩

/-- The file at the end of the names counts: what it is, where it lies and what it is called. -/
structure Discoverable (s : Selection) (rules : List Source) (project : Entry)
    (names : List String) : Prop where
  file : ∃ content, project.at? names = some (.file content)
  above : ∀ above, above <+: names → above ≠ [] → above ≠ names →
    (∃ es, project.at? above = some (.folder es)) ∧
      above.getLast?.getD "" ∉ skippedFolders ∧ Scan.ignored rules above = .ok false
  suffix : Path.suffix (names.getLast?.getD "") ∈ s.extensions
  kept : Scan.ignored rules names = .ok false
  included : s.filter.included = [] ∨ ∃ pattern ∈ s.filter.included,
    (Pattern.Wildcard.ofString pattern).accepts (Path.ofNames names) = true
  notExcluded : ∀ pattern ∈ s.filter.excluded,
    (Pattern.Wildcard.ofString pattern).accepts (Path.ofNames names) = false

/-- The files are the paths of all files that count, in increasing order and each once. -/
structure Discovers (s : Selection) (rules : List Source) (project : Entry)
    (files : List String) : Prop where
  increasing : StrictlySorted files
  mem_iff : ∀ path, path ∈ files ↔
    ∃ names, path = Path.ofNames names ∧ Discoverable s rules project names

theorem accepts_iff {f : PathFilter} {path : String} : f.accepts path = true ↔
    (f.included = [] ∨ ∃ pattern ∈ f.included,
        (Pattern.Wildcard.ofString pattern).accepts path = true) ∧
      ∀ pattern ∈ f.excluded, (Pattern.Wildcard.ofString pattern).accepts path = false := by
  unfold PathFilter.accepts Pattern.anyMatches
  simp only [Bool.and_eq_true, Bool.or_eq_true, Bool.not_eq_true', List.isEmpty_iff, List.any_eq_true,
    List.any_eq_false, Bool.not_eq_true]

/-- Listed in another order, a tree has the same files that count. -/
theorem Discoverable.sameTree (hsame : SameTree project listed)
    (h : Discoverable s rules project names) : Discoverable s rules listed names where
  file := h.file.imp fun _ hat => hsame.file.1 hat
  above above habove hne hproper :=
    let ⟨hfolder, hentered⟩ := h.above above habove hne hproper
    ⟨hsame.folder.1 hfolder, hentered⟩
  suffix := h.suffix
  kept := h.kept
  included := h.included
  notExcluded := h.notExcluded

/-- The walk from the folder of the project reaches the files that count. -/
theorem discoverable_iff_reached (h : haveDistinctNames es = true) :
    Discoverable s rules (.folder es) names ↔ ∃ name e rest, (name, e) ∈ es ∧ names = name :: rest ∧
      Reached s (Scan.ignored rules) [name] e rest := by
  constructor
  · rintro ⟨⟨content, hat⟩, habove, hsuffix, hkept, hincluded, hexcluded⟩
    cases names with
    | nil => cases hat
    | cons name rest =>
      obtain ⟨e, he, hbelow⟩ := Option.bind_eq_some_iff.1 hat
      refine ⟨name, e, rest, (Entry.lookup_iff_mem h).1 he, rfl, ⟨content, hbelow⟩, ?_, ?_⟩
      · intro above hprefix hne
        have hentered := (habove (name :: above) (List.cons_prefix_cons.2 ⟨rfl, hprefix⟩)
          (List.cons_ne_nil _ _) fun heq => hne (List.cons.inj heq).2).2
        exact enters_eq_true_iff.2 hentered
      · exact selects_eq_true_iff.2 ⟨hsuffix, hkept, accepts_iff.2 ⟨hincluded, hexcluded⟩⟩
  · rintro ⟨name, e, rest, he, rfl, ⟨content, hbelow⟩, hentered, hselected⟩
    obtain ⟨hsuffix, hkept, haccepts⟩ := selects_eq_true_iff.1 hselected
    obtain ⟨hincluded, hexcluded⟩ := accepts_iff.1 haccepts
    have hat : (Entry.folder es).at? (name :: rest) = some (.file content) := by
      rw [Entry.at?_cons_of_folder, (Entry.lookup_iff_mem h).2 he]
      exact hbelow
    refine ⟨⟨content, hat⟩, fun above habove hne hproper => ?_, hsuffix, hkept, hincluded, hexcluded⟩
    cases above with
    | nil => exact absurd rfl hne
    | cons n above =>
      obtain ⟨rfl, hprefix⟩ := List.cons_prefix_cons.1 habove
      have hrest : above ≠ rest := fun heq => hproper (congrArg _ heq)
      refine ⟨?_, enters_eq_true_iff.1 (hentered above hprefix hrest)⟩
      -- Something lies below, so this is a folder.
      obtain ⟨below, hbelow'⟩ := habove
      cases below with
      | nil => exact absurd ((List.append_nil _).symm.trans hbelow') hproper
      | cons m below => exact Entry.folder_of_at?_append (hbelow' ▸ hat)

/-- Whatever the walk brings back are the files that count. -/
theorem discovers_of_collectIn {found : List (List String)} (h : haveDistinctNames es = true)
    (hcollect : collectIn s (Scan.ignored rules) [] es = .ok found) :
    Discovers s rules (.folder es) (sortedDistinct (found.map Path.ofNames)) := by
  refine ⟨strictlySorted_sortedDistinct _, fun path => ?_⟩
  rcases @collectIn_spec s (Scan.ignored rules) es [] h with ⟨fault, -, hfault⟩ | ⟨found', hfound, hmem⟩
  · cases hcollect.symm.trans hfault
  · obtain rfl := Except.ok.inj (hcollect.symm.trans hfound)
    rw [mem_sortedDistinct, List.mem_map]
    constructor
    · rintro ⟨q, hq, rfl⟩
      obtain ⟨name, e, rest, he, rfl, hreached⟩ := (hmem q).1 hq
      exact ⟨name :: rest, rfl, (discoverable_iff_reached h).2 ⟨name, e, rest, he, rfl, hreached⟩⟩
    · rintro ⟨names, rfl, hcounts⟩
      obtain ⟨name, e, rest, he, rfl, hreached⟩ := (discoverable_iff_reached h).1 hcounts
      exact ⟨name :: rest, (hmem _).2 ⟨name, e, rest, he, rfl, hreached⟩, rfl⟩

theorem Discovers.sameTree {files : List String} (hsame : SameTree project listed)
    (h : Discovers s rules listed files) :
    Discovers s rules project files where
  increasing := h.increasing
  mem_iff path := by
    rw [h.mem_iff]
    exact exists_congr fun names => and_congr_right fun _ =>
      ⟨fun hcounts => hcounts.sameTree hsame.symm, fun hcounts => hcounts.sameTree hsame⟩

/-- A file that names lead to without a link is where its path leads: it lies in the project. -/
theorem destination_eq {d : Disk} {start : List String} (hformed : d.isWellFormed = true)
    (hstart : d.at? start = some project) (hfile : project.at? names = some (.file content)) :
    d.destination [] (Disk.absolute (start ++ names)) = .position (start ++ names) := by
  have hat : d.at? (start ++ names) = some (.file content) := by
    rw [Entry.at?_append, hstart]
    exact hfile
  have hwalk : Disk.walk d Disk.linkLimit [] (start ++ names) = .ok (.found (start ++ names)) :=
    Disk.walk_position hat (fun _ => nofun) (Entry.wellFormed_of_at? hformed hat).1
  obtain ⟨k, -, harrives⟩ := Disk.arrives_of_walk hwalk
  apply Disk.destination_of_arrives (k := k)
  rw [Disk.originOf_absolute, Disk.names_absolute (Entry.isStep_of_at? hformed hat)]
  exact harrives

/-- In whatever order the folders of a project are listed, discovery yields exactly the files that
count, unless an ignore file cannot be read or its rules cannot be held against something that is there.
And wherever the project stands on a disk, none of its files leads out of it. -/
theorem sourceFiles_discovers (s : Selection) (hfolder : project.isFolder = true)
    (hformed : project.isWellFormed = true) (hdistinct : project.hasDistinctNames = true)
    (hdistinct' : listed.hasDistinctNames = true) (hsame : SameTree project listed) :
    ((∃ fault, sources s.nestedIgnore project = .error fault ∧
        sourceFiles s listed = .error fault) ∨
      ∃ rules, sources s.nestedIgnore project = .ok rules ∧
        ((∃ names fault, (project.at? names).isSome = true ∧
            Scan.ignored rules names = .error fault ∧ sourceFiles s listed = .error fault) ∨
          ∃ files, sourceFiles s listed = .ok files ∧ Discovers s rules project files)) ∧
    ∀ (d : Disk) start, d.isWellFormed = true → d.at? start = some project → ∀ names content,
      project.at? names = some (.file content) →
        d.destination [] (Disk.absolute (start ++ names)) = .position (start ++ names) := by
  refine ⟨?_, fun d start hd hstart names content hat => destination_eq hd hstart hat⟩
  have hsources := sources_eq hformed hdistinct hdistinct' hsame s.nestedIgnore
  unfold sourceFiles
  rw [hsources]
  cases sources s.nestedIgnore project with
  | error fault => exact .inl ⟨fault, rfl, rfl⟩
  | ok rules =>
    refine .inr ⟨rules, rfl, ?_⟩
    obtain ⟨es, rfl⟩ : ∃ es, listed = .folder es := by
      obtain ⟨es', rfl⟩ := Entry.exists_of_isFolder hfolder
      obtain ⟨es, hes⟩ := (hsame.folder (q := [])).1 ⟨es', rfl⟩
      exact ⟨es, Option.some.inj hes⟩
    rcases @collectIn_spec s (Scan.ignored rules) es [] hdistinct' with
      ⟨fault, ⟨names, hthere, hfault⟩, hcollect⟩ | ⟨found, hcollect, -⟩
    · refine .inl ⟨names, fault, hsame.isSome.trans hthere, hfault, ?_⟩
      show (collectIn s (Scan.ignored rules) [] es >>= _) = _
      rw [hcollect]
      rfl
    · refine .inr ⟨sortedDistinct (found.map Path.ofNames), ?_,
        (discovers_of_collectIn hdistinct' hcollect).sameTree hsame⟩
      show (collectIn s (Scan.ignored rules) [] es >>= _) = _
      rw [hcollect]
      rfl

/-- A project with an ignored folder, a skipped one, a link and files below a folder. -/
def workedOn : List (String × Entry) :=
  [("src", .folder [("b.py", .file .empty), ("b_test.py", .file .empty), ("notes.txt", .file .empty)]),
    ("node_modules", .folder [("c.py", .file .empty)]), ("link.py", .link "../x.py"),
    (".gitignore", .file ⟨"build/\n".toList.map (fun c => c.toNat.toUInt8) |>.toArray⟩),
    ("build", .folder [("d.py", .file .empty)]), ("a.py", .file .empty)]

/-- What the line `build/` is read as. -/
def workedOnRules : List Source :=
  [⟨[], ⟨[⟨false, Pattern.Regex.ofString "(^|[/])build($|\\/)"⟩]⟩⟩]

theorem sourceFiles_discovers_workedOn :
    let s : Selection := ⟨[".py"], ⟨[], ["*_test.py"]⟩, false⟩
    let project : Entry := .folder workedOn
    let listed : Entry := .folder workedOn.reverse
    (project.isFolder = true ∧ project.isWellFormed = true ∧ project.hasDistinctNames = true ∧
      listed.hasDistinctNames = true ∧ SameTree project listed) ∧
    ∃ rules files, sources false project = .ok rules ∧ sourceFiles s listed = .ok files ∧
      Discovers s rules project files := by
  intro s project listed
  have hformed : project.isWellFormed = true := by
    simp only [project, workedOn, Entry.isWellFormed, Entry.areWellFormed, Entry.isEntryName,
      String.contains_char_eq]
    decide +kernel
  have hdistinct : project.hasDistinctNames = true := by decide +kernel
  have hdistinct' : listed.hasDistinctNames = true := by decide +kernel
  have hsame : SameTree project listed := Entry.sameTree_of_perm (List.reverse_perm _).symm hdistinct
  refine ⟨⟨rfl, hformed, hdistinct, hdistinct', hsame⟩, ?_⟩
  have hrules : sources false project = .ok workedOnRules := by with_unfolding_all rfl
  have hreadable : areReadable workedOnRules = true := by cbv
  rcases (sourceFiles_discovers s rfl hformed hdistinct hdistinct' hsame).1 with
    ⟨fault, hfault, -⟩ | ⟨rules, hfound, ⟨names, fault, -, hfault, -⟩ | ⟨files, hfiles, hall⟩⟩
  · cases hrules.symm.trans hfault
  · obtain rfl := Except.ok.inj (hrules.symm.trans hfound)
    obtain ⟨b, hb⟩ := exists_ignored hreadable names
    cases hfault.symm.trans hb
  · exact ⟨rules, files, hfound, hfiles, hall⟩

end LayerGate.Scan
