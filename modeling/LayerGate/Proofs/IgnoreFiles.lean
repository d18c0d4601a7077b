import LayerGate.Proofs.StableSorting
import LayerGate.Proofs.TreeListing
import LayerGate.Scan.Ignored

/-!
# Ignore files

The ignore files of a project are found by names on the way down, and they count from the shallowest
on.  Both are told by what stands where in the tree, in whatever order its folders are listed.  Rules
whose patterns can all be read say of every path whether it is ignored.
-/

namespace LayerGate.Scan

open Entry (SameTree haveDistinctNames)

variable {here : List String} {project listed : Entry} {es : List (String × Entry)} {rules : List Source}

/-! ## The ignore files -/

theorem mem_ignoreFile_iff {f : IgnoreFile} : f ∈ ignoreFile here es ↔
    f.1 = here ∧ (Entry.folder es).at? [ignoreFileName] = some (.file f.2) := by
  obtain ⟨folder, content⟩ := f
  have hat : (Entry.folder es).at? [ignoreFileName] = es.lookup ignoreFileName := by
    rw [Entry.at?_cons_of_folder]
    cases es.lookup ignoreFileName <;> rfl
  unfold ignoreFile
  rw [hat]
  split
  · rename_i content' hfile
    simp [hfile, eq_comm]
  · rename_i hnone
    exact iff_of_false List.not_mem_nil fun h => hnone content h.2

theorem ignoreFile_cases (here : List String) (es : List (String × Entry)) : ignoreFile here es = [] ∨
    ∃ f, ignoreFile here es = [f] := by
  unfold ignoreFile
  split
  · exact .inr ⟨_, rfl⟩
  · exact .inl rfl

theorem nodup_ignoreFile : (ignoreFile here es).Nodup := by
  rcases ignoreFile_cases here es with hnone | ⟨f, hone⟩
  · rw [hnone]
    exact List.nodup_nil
  · rw [hone]
    exact List.nodup_singleton _

mutual

/-- The ignore files are those that are come to by names that are not skipped. -/
theorem mem_ignoreFiles_iff {f : IgnoreFile} : ∀ {e : Entry} {here : List String},
    e.hasDistinctNames = true → (f ∈ ignoreFiles here e ↔ ∃ names, f.1 = here ++ names ∧
      (∀ n ∈ names, n ∉ skippedFolders) ∧ e.at? (names ++ [ignoreFileName]) = some (.file f.2))
  | .file content, here, _ => by
    refine iff_of_false List.not_mem_nil ?_
    rintro ⟨names, -, -, hat⟩
    cases names <;> cases hat
  | .link target, here, _ => by
    refine iff_of_false List.not_mem_nil ?_
    rintro ⟨names, -, -, hat⟩
    cases names <;> cases hat
  | .folder es, here, hdistinct => by
    rw [ignoreFiles, List.mem_append, mem_ignoreFile_iff, mem_ignoreFilesIn_iff hdistinct]
    constructor
    · rintro (⟨hhere, hat⟩ | ⟨name, e, names, he, hskip, hfolder, hnames, hat⟩)
      · exact ⟨[], by rw [hhere, List.append_nil], nofun, hat⟩
      · refine ⟨name :: names, hfolder, List.forall_mem_cons.2 ⟨hskip, hnames⟩, ?_⟩
        rw [List.cons_append, Entry.at?_cons_of_folder, (Entry.lookup_iff_mem hdistinct).2 he]
        exact hat
    · rintro ⟨names, hfolder, hnames, hat⟩
      cases names with
      | nil => exact .inl ⟨by rwa [List.append_nil] at hfolder, hat⟩
      | cons name names =>
        rw [List.cons_append, Entry.at?_cons_of_folder] at hat
        obtain ⟨e, he, hbelow⟩ := Option.bind_eq_some_iff.1 hat
        obtain ⟨hskip, hrest⟩ := List.forall_mem_cons.1 hnames
        exact .inr ⟨name, e, names, (Entry.lookup_iff_mem hdistinct).1 he, hskip, hfolder, hrest,
          hbelow⟩

theorem mem_ignoreFilesIn_iff {f : IgnoreFile} : ∀ {es : List (String × Entry)}
    {here : List String}, haveDistinctNames es = true →
    (f ∈ ignoreFilesIn here es ↔ ∃ name e names, (name, e) ∈ es ∧ name ∉ skippedFolders ∧
      f.1 = here ++ name :: names ∧ (∀ n ∈ names, n ∉ skippedFolders) ∧
        e.at? (names ++ [ignoreFileName]) = some (.file f.2))
  | [], here, _ => by simp [ignoreFilesIn]
  | (name, e) :: es, here, hdistinct => by
    have hself : e.hasDistinctNames = true :=
      Entry.hasDistinctNames_of_mem hdistinct (List.mem_cons_self ..)
    have hothers := Entry.haveDistinctNames_of_cons hdistinct
    rw [ignoreFilesIn, List.mem_append, mem_ignoreFilesIn_iff hothers]
    have hbelow : f ∈ (if skippedFolders.contains name then [] else ignoreFiles (here ++ [name]) e) ↔
        name ∉ skippedFolders ∧ ∃ names, f.1 = here ++ name :: names ∧
          (∀ n ∈ names, n ∉ skippedFolders) ∧
            e.at? (names ++ [ignoreFileName]) = some (.file f.2) := by
      rw [List.contains_eq_mem]
      by_cases hskip : name ∈ skippedFolders
      · rw [if_pos (decide_eq_true hskip)]
        exact iff_of_false List.not_mem_nil fun h => h.1 hskip
      · rw [if_neg (by simpa using hskip), and_iff_right hskip, mem_ignoreFiles_iff hself]
        simp only [← List.append_cons]
    rw [hbelow]
    simp only [List.mem_cons, Prod.mk.injEq]
    constructor
    · rintro (⟨hskip, names, hrest⟩ | ⟨n, e', names, he', hrest⟩)
      · exact ⟨name, e, names, .inl ⟨rfl, rfl⟩, hskip, hrest⟩
      · exact ⟨n, e', names, .inr he', hrest⟩
    · rintro ⟨n, e', names, ⟨rfl, rfl⟩ | he', hskip, hrest⟩
      · exact .inl ⟨hskip, names, hrest⟩
      · exact .inr ⟨n, e', names, he', hskip, hrest⟩

end

mutual

/-- No folder has two ignore files. -/
theorem nodup_ignoreFiles : ∀ {e : Entry} {here : List String}, e.hasDistinctNames = true →
    ((ignoreFiles here e).map (·.1)).Nodup
  | .file _, _, _ => List.nodup_nil
  | .link _, _, _ => List.nodup_nil
  | .folder es, here, hdistinct => by
    rw [ignoreFiles, List.map_append, List.nodup_append]
    refine ⟨?_, nodup_ignoreFilesIn hdistinct, ?_⟩
    · exact nodup_ignoreFile.map_on fun f hf g hg _ => by
        obtain ⟨hf, hfat⟩ := mem_ignoreFile_iff.1 hf
        obtain ⟨hg, hgat⟩ := mem_ignoreFile_iff.1 hg
        rw [hfat] at hgat
        exact Prod.ext (hf.trans hg.symm) (Entry.file.inj (Option.some.inj hgat))
    · intro folder hfolder below hbelow heq
      obtain ⟨f, hf, rfl⟩ := List.mem_map.1 hfolder
      obtain ⟨g, hg, rfl⟩ := List.mem_map.1 hbelow
      obtain ⟨name, e, names, -, -, hg, -⟩ := (mem_ignoreFilesIn_iff hdistinct).1 hg
      rw [(mem_ignoreFile_iff.1 hf).1, hg] at heq
      exact absurd (List.self_eq_append_right.1 heq) (List.cons_ne_nil _ _)

theorem nodup_ignoreFilesIn : ∀ {es : List (String × Entry)} {here : List String},
    haveDistinctNames es = true → ((ignoreFilesIn here es).map (·.1)).Nodup
  | [], _, _ => List.nodup_nil
  | (name, e) :: es, here, hdistinct => by
    have hself : e.hasDistinctNames = true :=
      Entry.hasDistinctNames_of_mem hdistinct (List.mem_cons_self ..)
    have hothers := Entry.haveDistinctNames_of_cons hdistinct
    rw [ignoreFilesIn, List.map_append, List.nodup_append]
    refine ⟨?_, nodup_ignoreFilesIn hothers, ?_⟩
    · split
      · exact List.nodup_nil
      · exact nodup_ignoreFiles hself
    · -- The name below `here` tells the two apart.
      intro folder hfolder beside hbeside heq
      obtain ⟨f, hf, rfl⟩ := List.mem_map.1 hfolder
      obtain ⟨g, hg, rfl⟩ := List.mem_map.1 hbeside
      obtain ⟨n, e', names', he', -, hg, -⟩ := (mem_ignoreFilesIn_iff hothers).1 hg
      split at hf
      · cases hf
      · obtain ⟨names, hf, -⟩ := (mem_ignoreFiles_iff hself).1 hf
        rw [hf, hg, ← List.append_cons, List.append_cancel_left_eq] at heq
        obtain ⟨rfl, -⟩ := List.cons.inj heq
        have hnodup := Entry.nodup_of_haveDistinctNames hdistinct
        rw [List.map_cons, List.nodup_cons] at hnodup
        exact hnodup.1 (List.mem_map.2 ⟨_, he', rfl⟩)

end

/-! ## One tree, one set of rules -/

/-- The position of an ignore file in the order in which the files count. -/
def ignoreFileOrder : IgnoreFile → IgnoreFile → Ordering :=
  compareLex (compareOn fun f => f.1.length)
    (compareOn fun f => "/".intercalate (f.1 ++ [ignoreFileName]))

instance : Std.TransCmp ignoreFileOrder :=
  inferInstanceAs <| Std.TransCmp <| compareLex (compareOn _) (compareOn _)

theorem shallowerFirst_eq {f g : IgnoreFile} : shallowerFirst f g = (ignoreFileOrder f g).isLE := rfl

/-- Ignore files of proper folders are told apart by their order. -/
theorem folder_eq_of_order {f g : IgnoreFile} (hf : ∀ n ∈ f.1, '/' ∉ n.toList)
    (hg : ∀ n ∈ g.1, '/' ∉ n.toList) (h : ignoreFileOrder f g = .eq) : f.1 = g.1 := by
  have htext : "/".intercalate (f.1 ++ [ignoreFileName]) =
      "/".intercalate (g.1 ++ [ignoreFileName]) :=
    Std.LawfulEqOrd.eq_of_compare (Ordering.then_eq_eq.1 h).2
  have hclean : ∀ names : List String, (∀ n ∈ names, '/' ∉ n.toList) →
      ∀ n ∈ names ++ [ignoreFileName], '/' ∉ n.toList := by
    intro names hnames n hn
    rcases List.mem_append.1 hn with hn | hn
    · exact hnames n hn
    · obtain rfl := List.mem_singleton.1 hn
      decide
  have hjoined := Text.intercalate_inj (show "/".toList = ['/'] from rfl) (by simp) (by simp)
    (hclean _ hf) (hclean _ hg) htext
  exact List.append_cancel_right hjoined

/-- Sorted ignore files stand in their order. -/
theorem pairwise_mergeSort_shallowerFirst (fs : List IgnoreFile) :
    (fs.mergeSort shallowerFirst).Pairwise fun f g => shallowerFirst f g = true := by
  show (fs.mergeSort fun f g => (ignoreFileOrder f g).isLE).Pairwise fun f g =>
    (ignoreFileOrder f g).isLE = true
  exact pairwise_mergeSort_isLE fs

theorem ignoreFile_eq (h : SameTree project listed) :
    ignoreFile [] listed.entries = ignoreFile [] project.entries := by
  have hentries : ∀ e : Entry,
      (Entry.folder e.entries).at? [ignoreFileName] = e.at? [ignoreFileName] := by
    intro e
    cases e <;> rfl
  have hmem : ∀ f : IgnoreFile, f ∈ ignoreFile [] listed.entries ↔
      f ∈ ignoreFile [] project.entries := by
    intro f
    rw [mem_ignoreFile_iff, mem_ignoreFile_iff, hentries, hentries, h.file]
  have hperm := (List.perm_ext_iff_of_nodup nodup_ignoreFile nodup_ignoreFile).2 hmem
  rcases ignoreFile_cases [] project.entries with hnone | ⟨f, hone⟩
  · rw [hnone] at hperm ⊢
    exact List.perm_nil.1 hperm
  · rw [hone] at hperm ⊢
    exact List.perm_singleton.1 hperm

theorem mergeSort_ignoreFiles_eq (hformed : project.isWellFormed = true)
    (hdistinct : project.hasDistinctNames = true) (hdistinct' : listed.hasDistinctNames = true)
    (h : SameTree project listed) : (ignoreFiles [] listed).mergeSort shallowerFirst =
      (ignoreFiles [] project).mergeSort shallowerFirst := by
  have hmem : ∀ f, f ∈ ignoreFiles [] listed ↔ f ∈ ignoreFiles [] project := by
    intro f
    rw [mem_ignoreFiles_iff hdistinct, mem_ignoreFiles_iff hdistinct']
    simp only [h.file]
  have hperm : (ignoreFiles [] listed).Perm (ignoreFiles [] project) :=
    (List.perm_ext_iff_of_nodup (nodup_ignoreFiles hdistinct').of_map
      (nodup_ignoreFiles hdistinct).of_map).2 hmem
  have hclean : ∀ f ∈ ignoreFiles [] project, ∀ n ∈ f.1, '/' ∉ n.toList := by
    intro f hf n hn
    obtain ⟨names, hfolder, -, hat⟩ := (mem_ignoreFiles_iff hdistinct).1 hf
    rw [hfolder, List.nil_append] at hn
    exact ((Entry.wellFormed_of_at? hformed hat).1 n (List.mem_append_left _ hn)).no_slash
  refine List.Perm.eq_of_pairwise (fun f g hf hg hfg hgf => ?_)
    (pairwise_mergeSort_shallowerFirst _) (pairwise_mergeSort_shallowerFirst _)
    ((List.mergeSort_perm ..).trans (hperm.trans (List.mergeSort_perm ..).symm))
  -- One folder has one ignore file.
  rw [shallowerFirst_eq] at hfg hgf
  have hf' := (hmem f).1 (List.mem_mergeSort.1 hf)
  have hg' := List.mem_mergeSort.1 hg
  have hfolder := folder_eq_of_order (hclean f hf') (hclean g hg')
    (Std.OrientedCmp.isLE_antisymm hfg hgf)
  obtain ⟨names, hfnames, -, hfat⟩ := (mem_ignoreFiles_iff hdistinct).1 hf'
  obtain ⟨names', hgnames, -, hgat⟩ := (mem_ignoreFiles_iff hdistinct).1 hg'
  rw [List.nil_append] at hfnames hgnames
  rw [← hfnames] at hfat
  rw [← hgnames, ← hfolder, hfat] at hgat
  exact Prod.ext hfolder (Entry.file.inj (Option.some.inj hgat))

/-- Which ignore files there are, and in which order they count, is told by the tree alone. -/
theorem countedFiles_eq (hformed : project.isWellFormed = true)
    (hdistinct : project.hasDistinctNames = true) (hdistinct' : listed.hasDistinctNames = true)
    (h : SameTree project listed) (nested : Bool) :
    countedFiles nested listed = countedFiles nested project := by
  unfold countedFiles
  cases nested with
  | false => exact ignoreFile_eq h
  | true => exact mergeSort_ignoreFiles_eq hformed hdistinct hdistinct' h

theorem sources_eq (hformed : project.isWellFormed = true)
    (hdistinct : project.hasDistinctNames = true) (hdistinct' : listed.hasDistinctNames = true)
    (h : SameTree project listed) (nested : Bool) :
    sources nested listed = sources nested project := by
  unfold sources
  rw [countedFiles_eq hformed hdistinct hdistinct' h]

/-! ## Rules that can be read -/

/-- Every pattern of the rules can be read. -/
def areReadable (rules : List Source) : Bool :=
  rules.all fun source => source.rules.rules.all fun r => r.pattern.toOption.isSome

theorem exists_speaksOf {r : Ignore.Rule} (h : r.pattern.toOption.isSome = true) (text : String) :
    ∃ b, r.speaksOf text = .ok b := by
  unfold Ignore.Rule.speaksOf
  cases hpattern : r.pattern with
  | error fault =>
    rw [hpattern] at h
    cases h
  | ok p => exact ⟨p.occursIn text, rfl⟩

theorem exists_firstSpeaking {rs : List Ignore.Rule}
    (h : ∀ r ∈ rs, r.pattern.toOption.isSome = true) (text : String) :
    ∃ found, Ignore.Rules.firstSpeaking text rs = .ok found := by
  induction rs with
  | nil => exact ⟨none, rfl⟩
  | cons r rs ih =>
    obtain ⟨hr, hrest⟩ := List.forall_mem_cons.1 h
    obtain ⟨speaks, hspeaks⟩ := exists_speaksOf hr text
    obtain ⟨found, hfound⟩ := ih hrest
    unfold Ignore.Rules.firstSpeaking
    rw [hspeaks, hfound]
    cases speaks with
    | true => exact ⟨some r, rfl⟩
    | false => exact ⟨found, rfl⟩

theorem exists_ignores {rs : Ignore.Rules} (h : ∀ r ∈ rs.rules, r.pattern.toOption.isSome = true)
    (text : String) : ∃ b, rs.ignores text = .ok b := by
  unfold Ignore.Rules.ignores
  split
  · have hreverse : ∀ r ∈ rs.rules.reverse, r.pattern.toOption.isSome = true :=
      fun r hr => h r (List.mem_reverse.1 hr)
    obtain ⟨found, hfound⟩ := exists_firstSpeaking hreverse text
    rw [hfound]
    exact ⟨_, rfl⟩
  · obtain ⟨found, hfound⟩ := exists_firstSpeaking h text
    rw [hfound]
    exact ⟨_, rfl⟩

/-- Readable rules say of any path whether it is ignored. -/
theorem exists_ignored (h : areReadable rules = true) (path : List String) :
    ∃ b, Scan.ignored rules path = .ok b := by
  induction rules with
  | nil => exact ⟨false, rfl⟩
  | cons source rules ih =>
    unfold areReadable at h
    rw [List.all_cons, Bool.and_eq_true] at h
    obtain ⟨later, hlater⟩ := ih h.2
    unfold Scan.ignored
    cases seenFrom? source.folder path with
    | none => exact ⟨later, hlater⟩
    | some text =>
      obtain ⟨own, hown⟩ := exists_ignores (List.all_eq_true.1 h.1) text
      simp only [hown, hlater]
      cases own with
      | true => exact ⟨true, rfl⟩
      | false => exact ⟨later, rfl⟩

end LayerGate.Scan
