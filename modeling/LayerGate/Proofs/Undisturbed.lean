import LayerGate.Proofs.Discovery
import LayerGate.Proofs.Rerun

/-!
# Writing outside of a project

A file that cannot be come to from the project's folder may be written without any run over the project
finding something else.
-/

namespace LayerGate

namespace Disk

variable {d d' : Disk} {base position start there q : List String} {root path : String}
  {content : ByteArray}

/-! ## What is found after a write -/

theorem locate_eq_ok_iff : d.locate base path = .ok there ↔
    path.utf8ByteSize ≤ pathLimit ∧
      walk d linkLimit (originOf base path) (pieces path) = .ok (.found there) := by
  unfold locate place
  split
  · rename_i hsize
    exact iff_of_false nofun fun h => absurd h.1 (Nat.not_le.2 hsize)
  · rename_i hsize
    rw [and_iff_right (Nat.not_lt.1 hsize)]
    cases walk d linkLimit (originOf base path) (pieces path) with
    | error c => exact iff_of_false nofun nofun
    | ok place =>
      cases place with
      | missing folder name => exact iff_of_false nofun nofun
      | found q => exact ⟨fun h => by cases h; rfl, fun h => by cases h; rfl⟩

/-- Something is found if the path leads to it. -/
theorem find?_eq_some_iff {e : Entry} : d.find? base path = .ok (some e) ↔
    path.contains '\x00' = false ∧ ∃ there, d.locate base path = .ok there ∧ d.at? there = some e := by
  unfold find? look
  split
  · rename_i hnul
    exact iff_of_false nofun fun h => nomatch hnul.symm.trans h.1
  · rename_i hnul
    rw [Bool.not_eq_true] at hnul
    rw [and_iff_right hnul]
    cases d.locate base path with
    | error c =>
      refine iff_of_false ?_ fun ⟨there, h, _⟩ => nomatch h
      show ¬ (if _ then Except.ok none else _) = _
      split
      · exact nofun
      · exact nofun
    | ok there =>
      simp only [bind, Except.bind, pure, Except.pure]
      cases hat : d.at? there with
      | none =>
        refine iff_of_false nofun ?_
        rintro ⟨there', hthere, hat'⟩
        obtain rfl := Except.ok.inj hthere
        exact nomatch hat.symm.trans hat'
      | some e' =>
        constructor
        · intro h
          obtain rfl := Option.some.inj (Except.ok.inj h)
          exact ⟨there, rfl, hat⟩
        · rintro ⟨there', hthere, hat'⟩
          obtain rfl := Except.ok.inj hthere
          obtain rfl := Option.some.inj (hat.symm.trans hat')
          rfl

namespace Writes

variable (h : Writes d d' position content)

include h

theorem place_agree : Agree position (d'.place base path) (d.place base path) := by
  unfold place
  split
  · exact .same
  · exact h.walk_agree

/-- Elsewhere stands what stood there, or a folder where a folder stood. -/
theorem at?_agree (hq : q ≠ position) :
    d'.at? q = d.at? q ∨ ∃ new old, d'.at? q = some (.folder new) ∧ d.at? q = some (.folder old) := by
  by_cases hfolder : d'.IsFolder q
  · obtain ⟨new, hnew⟩ := hfolder
    obtain ⟨old, hold⟩ := h.isFolder_iff.1 ⟨new, hnew⟩
    exact .inr ⟨new, old, hnew, hold⟩
  · refine .inl ?_
    by_cases hbelow : position <+: q
    · -- Nothing stands below a file.
      obtain ⟨rest, rfl⟩ := hbelow
      cases rest with
      | nil => exact absurd (List.append_nil _) hq
      | cons n rest =>
        have hnone : d'.at? (position ++ n :: rest) = none := by
          rw [Entry.at?_append, h.stored]
          rfl
        rw [hnone, h.absent hnone]
    · by_cases habove : q <+: position
      · obtain ⟨rest, hrest⟩ := habove
        cases rest with
        | nil => exact absurd ((List.append_nil q).symm.trans hrest) hq
        | cons n rest =>
          have hstored := h.stored
          rw [← hrest] at hstored
          exact absurd (Entry.folder_of_at?_append hstored) hfolder
      · exact h.aside q hbelow habove

/-- A path that does not lead to the written file finds what it found before; of a folder, all may have
changed. -/
theorem find?_agree (hpath : d'.locate base path ≠ .ok position) :
    d'.find? base path = d.find? base path ∨ ∃ new old,
      d'.find? base path = .ok (some (.folder new)) ∧ d.find? base path = .ok (some (.folder old)) := by
  unfold find?
  split
  · exact .inl rfl
  · have hagree : Agree position (d'.place base path) (d.place base path) := h.place_agree
    unfold look
    unfold locate at hpath ⊢
    generalize d'.place base path = new at hagree hpath
    generalize d.place base path = old at hagree
    cases hagree with
    | arrived => exact absurd rfl hpath
    | absent hc hc' =>
      refine .inl ?_
      show (if _ then Except.ok none else _) = (if _ then Except.ok none else _)
      rw [if_pos hc, if_pos hc']
    | same =>
      cases new with
      | error c => exact .inl rfl
      | ok place =>
        cases place with
        | missing folder name => exact .inl rfl
        | found q =>
          have hq : q ≠ position := by
            rintro rfl
            exact hpath rfl
          rcases h.at?_agree hq with heq | ⟨new, old, hnew, hold⟩
          · refine .inl ?_
            simp only [bind, Except.bind, pure, Except.pure, heq]
          · refine .inr ⟨new, old, ?_, ?_⟩
            · simp only [bind, Except.bind, pure, Except.pure, hnew]
            · simp only [bind, Except.bind, pure, Except.pure, hold]

end Writes

/-! ## Paths below a folder -/

/-- A path below a folder leads to a position that can be come to from there. -/
theorem originOf_nil {target : String} : originOf [] target = [] := by
  unfold originOf
  split <;> rfl

/-- A path that is counted from the root leads where its names lead. -/
theorem arrives_of_locate (h : d.locate [] path = .ok there) :
    ∃ k, Arrives d k [] (Path.names path) there := by
  obtain ⟨-, hwalk⟩ := locate_eq_ok_iff.1 h
  obtain ⟨k, -, harrives⟩ := arrives_of_walk hwalk
  rw [originOf_nil] at harrives
  exact ⟨k, harrives.filter⟩

theorem names_below : Path.names (Analysis.below root path) = Path.names root ++ Path.names path := by
  apply names_absolute
  intro n hn
  rcases List.mem_append.1 hn with hn | hn
  · exact Path.isStep_of_mem_names hn
  · exact Path.isStep_of_mem_names hn

theorem reaches_of_locate (hstart : d.locate [] root = .ok start)
    (h : d.locate [] (Analysis.below root path) = .ok there) (hinside : Path.IsInside path) :
    d.Reaches start there := by
  obtain ⟨k, hroot⟩ := arrives_of_locate hstart
  obtain ⟨l, hbelow⟩ := arrives_of_locate h
  rw [names_below] at hbelow
  obtain ⟨i, j, mid, -, hfront, hback⟩ := hbelow.split
  obtain ⟨-, rfl⟩ := hroot.unique hfront
  exact Reaches.start.arrives hback hinside

end Disk

/-! ## Scanned files -/

namespace Scan

open Entry (ProperName)

variable {s : Selection} {ignored : List String → Except Ignore.Fault Bool}

mutual

theorem proper_of_mem_collect {here : List String} (hhere : ∀ n ∈ here, ProperName n) :
    ∀ {e : Entry} {found : List (List String)}, e.isWellFormed = true →
      collect s ignored here e = .ok found → ∀ q ∈ found, ∀ n ∈ q, ProperName n
  | .link _, found, _, h => by
    cases h
    exact nofun
  | .file _, found, _, h => by
    obtain ⟨isSelected, -, hfound⟩ := bind_eq_ok_iff.1 h
    obtain rfl := Except.ok.inj hfound
    intro q hq
    split at hq
    · obtain rfl := List.mem_singleton.1 hq
      exact hhere
    · cases hq
  | .folder es, found, hformed, h => by
    obtain ⟨isEntered, -, hfound⟩ := bind_eq_ok_iff.1 h
    split at hfound
    · exact proper_of_mem_collectIn hhere hformed hfound
    · cases hfound
      exact nofun

theorem proper_of_mem_collectIn {here : List String} (hhere : ∀ n ∈ here, ProperName n) :
    ∀ {es : List (String × Entry)} {found : List (List String)}, Entry.areWellFormed es = true →
      collectIn s ignored here es = .ok found → ∀ q ∈ found, ∀ n ∈ q, ProperName n
  | [], found, _, h => by
    cases h
    exact nofun
  | (name, e) :: es, found, hformed, h => by
    obtain ⟨below, hbelow, hrest⟩ := bind_eq_ok_iff.1 h
    obtain ⟨beside, hbeside, hfound⟩ := bind_eq_ok_iff.1 hrest
    obtain rfl := Except.ok.inj hfound
    rw [Entry.areWellFormed, Bool.and_eq_true, Bool.and_eq_true] at hformed
    obtain ⟨⟨hname, hentry⟩, hothers⟩ := hformed
    have hnext : ∀ n ∈ here ++ [name], ProperName n := by
      intro n hn
      rcases List.mem_append.1 hn with hn | hn
      · exact hhere n hn
      · obtain rfl := List.mem_singleton.1 hn
        exact Entry.isEntryName_iff.1 hname
    intro q hq
    rcases List.mem_append.1 hq with hq | hq
    · exact proper_of_mem_collect hnext hentry hbelow q hq
    · exact proper_of_mem_collectIn hhere hothers hbeside q hq

end

/-- On a disk whose names are proper, the names of a scanned file are. -/
theorem proper_of_mem_sourceFiles {project : Entry} {files : List String}
    (hformed : project.isWellFormed = true) (h : sourceFiles s project = .ok files) :
    ∀ file ∈ files, ∃ q, (∀ n ∈ q, ProperName n) ∧ Path.ofNames q = file := by
  obtain ⟨rules, found, -, hfound, rfl⟩ := sourceFiles_eq_ok_iff.1 h
  have hentries : Entry.areWellFormed project.entries = true := by
    cases project with
    | folder es => exact hformed
    | file _ => rfl
    | link _ => rfl
  intro file hfile
  obtain ⟨q, hq, rfl⟩ := List.mem_map.1 (mem_sortedDistinct.1 hfile)
  have hroot : ∀ n ∈ ([] : List String), ProperName n := nofun
  exact ⟨q, proper_of_mem_collectIn hroot hentries hfound q hq, rfl⟩

/-- On such a disk no scanned file climbs. -/
theorem isInside_of_mem_sourceFiles {project : Entry} {files : List String}
    (hformed : project.isWellFormed = true) (h : sourceFiles s project = .ok files) :
    ∀ file ∈ files, Path.IsInside file := by
  intro file hfile
  obtain ⟨q, hproper, rfl⟩ := proper_of_mem_sourceFiles hformed h file hfile
  exact Path.isInside_ofNames fun n hn => ⟨(hproper n hn).no_slash, (hproper n hn).isName.ne_dots⟩

/-- On such a disk the path of a scanned file holds no NUL. -/
theorem no_nul_of_mem_sourceFiles {project : Entry} {files : List String}
    (hformed : project.isWellFormed = true) (h : sourceFiles s project = .ok files) :
    ∀ file ∈ files, '\x00' ∉ file.toList := by
  intro file hfile hnul
  obtain ⟨q, hproper, rfl⟩ := proper_of_mem_sourceFiles hformed h file hfile
  rcases Path.mem_ofNames hnul with heq | ⟨n, hn, hnul⟩
  · exact absurd heq (by decide)
  · exact (hproper n hn).no_nul hnul

end Scan

namespace Analysis

open Disk (Writes)

variable {m : Machine} {d d' : Disk} {position start : List String} {root path : String}
  {content : ByteArray} {folder : Entry} {c : Config} {graph : ModuleGraph} {violations : List Violation}
  {cycles : List ImportCycle}

theorem rootFolder_eq_ok_iff : rootFolder d root = .ok folder ↔
    d.find? [] root = .ok (some folder) ∧ folder.isFolder = true := by
  unfold rootFolder
  cases hfind : d.find? [] root with
  | error f => exact iff_of_false nofun fun h => nomatch h.1
  | ok found =>
    cases found with
    | none => exact iff_of_false nofun fun h => nomatch h.1
    | some e =>
      simp only
      split
      · rename_i hfolder
        constructor
        · intro h
          obtain rfl := Except.ok.inj h
          exact ⟨rfl, hfolder⟩
        · rintro ⟨h, -⟩
          obtain rfl := Option.some.inj (Except.ok.inj h)
          rfl
      · rename_i hfolder
        refine iff_of_false nofun ?_
        rintro ⟨h, hfolder'⟩
        obtain rfl := Option.some.inj (Except.ok.inj h)
        exact hfolder hfolder'

/-- The file was written where the folder at the root of the project does not lead to. -/
structure WrittenAside (d d' : Disk) (root : String) (position : List String) (content : ByteArray) :
    Prop where
  writes : Writes d d' position content
  isWellFormed : d'.isWellFormed = true
  unreachable : ∀ start, d'.locate [] root = .ok start → ¬ d'.Reaches start position

namespace WrittenAside

variable (h : WrittenAside d d' root position content)

include h

theorem rootFolder_eq (hroot : rootFolder d root = .ok folder) : rootFolder d' root = .ok folder ∧
    ∃ start, d'.locate [] root = .ok start ∧ d'.at? start = some folder := by
  obtain ⟨hfind, hfolder⟩ := rootFolder_eq_ok_iff.1 hroot
  obtain ⟨hnul, start, hlocate, hat⟩ := Disk.find?_eq_some_iff.1 hfind
  obtain ⟨es, rfl⟩ : ∃ es, folder = .folder es := by
    cases folder with
    | folder es => exact ⟨es, rfl⟩
    | file _ => cases hfolder
    | link _ => cases hfolder
  obtain ⟨hsize, hwalk⟩ := Disk.locate_eq_ok_iff.1 hlocate
  -- The root is where it was, for otherwise the written file would be the root.
  have hthere : d'.locate [] root = .ok start := by
    have hagree : Disk.Agree position
        (Disk.walk d' Disk.linkLimit (Disk.originOf [] root) (Disk.pieces root))
        (Disk.walk d Disk.linkLimit (Disk.originOf [] root) (Disk.pieces root)) := h.writes.walk_agree
    rw [hwalk] at hagree
    generalize hwritten : Disk.walk d' Disk.linkLimit (Disk.originOf [] root) (Disk.pieces root) = r
      at hagree
    cases hagree with
    | same => exact Disk.locate_eq_ok_iff.2 ⟨hsize, hwritten⟩
    | arrived =>
      have hposition : d'.locate [] root = .ok position := Disk.locate_eq_ok_iff.2 ⟨hsize, hwritten⟩
      exact absurd .start (h.unreachable position hposition)
  have hbelow : ¬ position <+: start := by
    rintro ⟨rest, rfl⟩
    cases rest with
    | nil =>
      rw [List.append_nil] at hthere
      exact h.unreachable position hthere .start
    | cons n rest =>
      obtain ⟨new, hnew⟩ := h.writes.isFolder_iff.2 ⟨es, hat⟩
      obtain ⟨above, habove⟩ := Entry.folder_of_at?_append hnew
      exact nomatch h.writes.stored.symm.trans habove
  have habove : ¬ start <+: position := by
    rintro ⟨rest, rfl⟩
    apply h.unreachable start hthere
    apply Disk.Reaches.start.descend
    rw [h.writes.stored]
    rfl
  have hsame : d'.at? start = some (.folder es) := (h.writes.aside start hbelow habove).trans hat
  exact ⟨rootFolder_eq_ok_iff.2 ⟨Disk.find?_eq_some_iff.2 ⟨hnul, start, hthere, hsame⟩, rfl⟩, start,
    hthere, hsame⟩

theorem isFile_eq (hroot : rootFolder d root = .ok folder) (hinside : Path.IsInside path) :
    isFile d' root path = isFile d root path := by
  obtain ⟨-, start, hthere, -⟩ := h.rootFolder_eq hroot
  have hpath : d'.locate [] (below root path) ≠ .ok position := fun hposition =>
    h.unreachable start hthere (Disk.reaches_of_locate hthere hposition hinside)
  unfold isFile
  rcases h.writes.find?_agree hpath with heq | ⟨new, old, hnew, hold⟩
  · rw [heq]
  · rw [hnew, hold]
    rfl

/-- The run finds on the written disk what it found before. -/
theorem finds (hext : ∀ e ∈ c.extensions, Path.NeverClimbs e)
    (hfinds : Finds m d root c graph violations cycles) :
    Finds m d' root c graph violations cycles := by
  obtain ⟨folder, files, results, hfolder, hfiles, hresults, hgraph⟩ := hfinds.imports
  obtain ⟨hfolder', start, -, hat⟩ := h.rootFolder_eq hfolder
  have hformed := (Entry.wellFormed_of_at? h.isWellFormed hat).2
  have hinside := Scan.isInside_of_mem_sourceFiles hformed hfiles
  have hsame : Resolution.SameBelow (projectOf d' root c files) (projectOf d root c files) :=
    Resolution.sameBelow_ofFiles fun path hpath => h.isFile_eq hfolder hpath
  have hcontent : ∀ file ∈ files, importsAt m (projectOf d' root c files) folder file =
      importsAt m (projectOf d root c files) folder file := by
    intro file hfile
    unfold importsAt
    rw [FileImports.ofContent_eq hsame (hinside file hfile) fun e he => hext e (List.mem_filter.1 he).1]
  have himports : importsOf m (projectOf d' root c files) folder files =
      importsOf m (projectOf d root c files) folder files := by
    unfold importsOf
    rw [List.map_congr_left hcontent]
  rw [← himports] at hresults
  exact ⟨⟨folder, files, results, hfolder', hfiles, hresults, hgraph⟩, hfinds.violations, hfinds.cycles⟩

end WrittenAside

end Analysis

end LayerGate
