import Mathlib.Data.List.Nodup
import LayerGate.Proofs.EdgeMerging
import LayerGate.Proofs.ResolutionAnswers

/-!
# The account of a graph

The graph of a project accounts for every reference of its files: each resolution is in the one place
where its outcome belongs, as an edge, an ignored specifier or a broken import, and nothing else is
there.
-/

namespace LayerGate

namespace ModuleGraph

variable {files : List String} {e : Edge}

/-! ## Edges of all files -/

theorem edgeOf_mem {source : Nat} {path : String} {rs : List Resolution}
    (h : e ∈ edgesOf files source path rs) :
    ∃ r ∈ rs, edgeOf? files source path r = some e :=
  List.mem_filterMap.1 (mem_edgesOf_iff.1 h).1

theorem source_of_mem_edgesOf {source : Nat} {path : String} {rs : List Resolution}
    (h : e ∈ edgesOf files source path rs) : e.source = source := by
  obtain ⟨r, -, hr⟩ := edgeOf_mem h
  obtain ⟨file, target, -, -, -, rfl⟩ := edgeOf?_eq_some_iff.1 hr
  rfl

theorem mem_edgesFrom_iff {source : Nat} {results : List (String × FileImports)} :
    e ∈ edgesFrom files source results ↔ ∃ i path imports, results[i]? = some (path, imports) ∧
      e ∈ edgesOf files (source + i) path imports.resolutions := by
  -- The rest of the results is numbered from the next position on.
  induction results generalizing source with
  | nil => simp [edgesFrom]
  | cons result rest ih =>
    obtain ⟨path, imports⟩ := result
    rw [edgesFrom, List.mem_append, ih]
    constructor
    · rintro (h | ⟨i, path', imports', hi, h⟩)
      · exact ⟨0, path, imports, rfl, h⟩
      · exact ⟨i + 1, path', imports', hi, by rwa [Nat.add_comm i, ← Nat.add_assoc]⟩
    · rintro ⟨i, path', imports', hi, h⟩
      cases i with
      | zero =>
        cases hi
        exact .inl h
      | succ i => exact .inr ⟨i, path', imports', hi, by rwa [Nat.add_assoc, Nat.add_comm 1]⟩

theorem strictlySorted_edgesFrom {source : Nat} {results : List (String × FileImports)} :
    StrictlySorted (edgesFrom files source results) := by
  induction results generalizing source with
  | nil => exact List.Pairwise.nil
  | cons result rest ih =>
    obtain ⟨path, imports⟩ := result
    refine List.pairwise_append.2 ⟨strictlySorted_edgesOf, ih, fun a ha b hb => ?_⟩
    obtain ⟨i, path', imports', -, hb⟩ := mem_edgesFrom_iff.1 hb
    -- Within one file the edges were sorted; between two files the source decides.
    have hlt : a.source < b.source := by
      rw [source_of_mem_edgesOf ha, source_of_mem_edgesOf hb]
      omega
    rw [compare_edge, Nat.compare_eq_lt.2 hlt]
    rfl

/-! ## The account -/

/-- The resolution leads from this file to that one, under this specifier. -/
def Leads (r : Resolution) (target specifier : String) : Prop :=
  r.specifier = specifier ∧ r.outcome = .internal target

/-- The graph holds each file once, in its place, and for each of its resolutions what becomes of
it. -/
structure Accounted (files : List String) (resolutions : String → List Resolution)
    (g : ModuleGraph) : Prop where
  paths : g.paths = files
  /-- Every file that a resolution leads to has a position. -/
  scanned : ∀ file ∈ files, ∀ r ∈ resolutions file, ∀ target,
    r.outcome = .internal target → target ∈ files
  inRange : g.InRange
  noLoops : ∀ e ∈ g.edges, e.source ≠ e.target
  increasing : StrictlySorted g.edges
  edge_iff : ∀ i j file target specifier, files[i]? = some file → files[j]? = some target →
    ((∃ line, ⟨i, j, specifier, line⟩ ∈ g.edges) ↔
      file ≠ target ∧ ∃ r ∈ resolutions file, Leads r target specifier)
  /-- The line is that of a resolution, and no resolution of the kind has a lower one. -/
  line : ∀ e ∈ g.edges, ∀ file target, files[e.source]? = some file →
    files[e.target]? = some target →
      (∃ r ∈ resolutions file, Leads r target e.specifier ∧ r.line = e.line) ∧
        ∀ r ∈ resolutions file, Leads r target e.specifier → e.line ≤ r.line
  ignored : ∀ n ∈ g.nodes, StrictlySorted n.ignored ∧ ∀ specifier,
    specifier ∈ n.ignored ↔
      ∃ r ∈ resolutions n.path, r.specifier = specifier ∧ ∃ there, r.outcome = .external there
  broken : ∀ n ∈ g.nodes, StrictlySorted n.broken ∧ ∀ b,
    b ∈ n.broken ↔ ∃ r ∈ resolutions n.path,
      r.specifier = b.specifier ∧ r.line = b.line ∧ r.outcome = .broken b.candidate

/-! ## The nodes -/

variable {imports : String → FileImports}

theorem mem_nodes_ofImports {n : Node} :
    n ∈ (ofImports (files.map fun file => (file, imports file))).nodes ↔
      ∃ file ∈ files, nodeOf file (imports file) = n := by
  simp [ofImports]

theorem paths_ofImports : (ofImports (files.map fun file => (file, imports file))).paths = files := by
  have hid : (fun file => (nodeOf file (imports file)).path) = id := rfl
  simp only [paths, ofImports, List.map_map]
  show files.map (fun file => (nodeOf file (imports file)).path) = files
  rw [hid, List.map_id]

theorem mem_ignored_nodeOf {path specifier : String} {imports : FileImports} :
    specifier ∈ (nodeOf path imports).ignored ↔
      ∃ r ∈ imports.resolutions, r.specifier = specifier ∧ ∃ there, r.outcome = .external there := by
  rw [nodeOf, mem_sortedDistinct, List.mem_filterMap]
  refine exists_congr fun r => and_congr_right fun _ => ?_
  unfold ignoredSpecifier?
  cases r.outcome <;> simp

theorem mem_broken_nodeOf {path : String} {b : BrokenImport} {imports : FileImports} :
    b ∈ (nodeOf path imports).broken ↔ ∃ r ∈ imports.resolutions,
      r.specifier = b.specifier ∧ r.line = b.line ∧ r.outcome = .broken b.candidate := by
  rw [nodeOf, mem_sortedDistinct, List.mem_filterMap]
  refine exists_congr fun r => and_congr_right fun _ => ?_
  unfold brokenImport?
  cases b
  cases r.outcome <;> simp

/-! ## The edges -/

theorem idxOf?_eq_some_iff_getElem? (hnodup : files.Nodup) {file : String} {i : Nat} :
    files.idxOf? file = some i ↔ files[i]? = some file := by
  rw [List.idxOf?_eq_some_iff]
  constructor
  · rintro ⟨hi, he, -⟩
    rw [List.getElem?_eq_getElem hi, he]
  · intro h
    obtain ⟨hi, he⟩ := List.getElem?_eq_some_iff.1 h
    refine ⟨hi, he, fun j hj hsame => ?_⟩
    have := (List.Nodup.getElem_inj_iff hnodup).1 (hsame.trans he.symm)
    omega

/-- An edge of the graph comes from a resolution of its first file that leads to the other, and from
the lowest of these. -/
theorem mem_edges_ofImports (hnodup : files.Nodup) :
    e ∈ (ofImports (files.map fun file => (file, imports file))).edges ↔
      ∃ file target, files[e.source]? = some file ∧ files[e.target]? = some target ∧
        file ≠ target ∧
          (∃ r ∈ (imports file).resolutions, Leads r target e.specifier ∧ r.line = e.line) ∧
            ∀ r ∈ (imports file).resolutions, Leads r target e.specifier → e.line ≤ r.line := by
  have hfiles : (files.map fun file => (file, imports file)).map (·.1) = files := by
    rw [List.map_map]
    exact List.map_id _
  have hresult : ∀ (i : Nat) (path : String) (own : FileImports),
      (files.map fun file => (file, imports file))[i]? = some (path, own) ↔
        files[i]? = some path ∧ imports path = own := by
    intro i path own
    rw [List.getElem?_map, Option.map_eq_some_iff]
    constructor
    · rintro ⟨file, hfile, he⟩
      cases he
      exact ⟨hfile, rfl⟩
    · rintro ⟨hfile, rfl⟩
      exact ⟨path, hfile, rfl⟩
  simp only [ofImports, hfiles, mem_edgesFrom_iff, hresult, Nat.zero_add]
  constructor
  · -- The edge that was kept comes from a resolution, and so does any lower one.
    rintro ⟨i, file, own, ⟨hfile, rfl⟩, he⟩
    obtain ⟨hmem, hleast⟩ := mem_edgesOf_iff.1 he
    obtain ⟨r, hr, hedge⟩ := List.mem_filterMap.1 hmem
    obtain ⟨target, j, houtcome, hne, hindex, rfl⟩ := edgeOf?_eq_some_iff.1 hedge
    refine ⟨file, target, hfile, (idxOf?_eq_some_iff_getElem? hnodup).1 hindex, hne.symm,
      ⟨r, hr, ⟨rfl, houtcome⟩, rfl⟩, ?_⟩
    rintro r' hr' ⟨hspecifier, houtcome'⟩
    have hedge' : edgeOf? files i file r' = some ⟨i, j, r'.specifier, r'.line⟩ :=
      edgeOf?_eq_some_iff.2 ⟨target, j, houtcome', hne, hindex, rfl⟩
    exact hleast _ (List.mem_filterMap.2 ⟨r', hr', hedge'⟩)
      (sameEdge_iff_fields.2 ⟨rfl, rfl, hspecifier.symm⟩)
  · rintro ⟨file, target, hfile, htarget, hne, ⟨r, hr, ⟨hspecifier, houtcome⟩, hline⟩, hleast⟩
    have hindex := (idxOf?_eq_some_iff_getElem? hnodup).2 htarget
    refine ⟨e.source, file, imports file, ⟨hfile, rfl⟩, mem_edgesOf_iff.2 ⟨?_, ?_⟩⟩
    · refine List.mem_filterMap.2 ⟨r, hr, edgeOf?_eq_some_iff.2 ⟨target, e.target, houtcome,
        hne.symm, hindex, ?_⟩⟩
      rw [hspecifier, hline]
    · intro e' he' hs
      obtain ⟨r', hr', hedge⟩ := List.mem_filterMap.1 he'
      obtain ⟨target', j, houtcome', -, hindex', rfl⟩ := edgeOf?_eq_some_iff.1 hedge
      obtain ⟨-, hsame, hspecifier'⟩ := sameEdge_iff_fields.1 hs
      -- Two files at one position are one.
      have htarget' := (idxOf?_eq_some_iff_getElem? hnodup).1 hindex'
      rw [show j = e.target from hsame.symm, htarget, Option.some_inj] at htarget'
      exact hleast r' hr' ⟨hspecifier'.symm, htarget' ▸ houtcome'⟩

/-! ## Every graph is accounted for -/

/-- Of the resolutions of one kind, some has the lowest line. -/
theorem exists_lowest_line {rs : List Resolution} {target specifier : String}
    (h : ∃ r ∈ rs, Leads r target specifier) :
    ∃ r ∈ rs, Leads r target specifier ∧ ∀ r' ∈ rs, Leads r' target specifier → r.line ≤ r'.line := by
  classical
  obtain ⟨r, hr, hleads⟩ := h
  -- The lines of the kind are not none, so they have a least one.
  have hne : ((rs.filter fun r => Leads r target specifier).map Resolution.line) ≠ [] := by
    rw [Ne, List.map_eq_nil_iff]
    exact List.ne_nil_of_mem (List.mem_filter.2 ⟨hr, by simpa using hleads⟩)
  obtain ⟨least, hleast⟩ := Option.isSome_iff_exists.1 (List.isSome_min?_of_ne_nil hne)
  obtain ⟨hmem, hall⟩ := List.min?_eq_some_iff.1 hleast
  obtain ⟨r₀, hr₀, rfl⟩ := List.mem_map.1 hmem
  obtain ⟨hr₀, hleads₀⟩ := List.mem_filter.1 hr₀
  refine ⟨r₀, hr₀, by simpa using hleads₀, fun r' hr' hleads' => ?_⟩
  exact hall _ (List.mem_map_of_mem (List.mem_filter.2 ⟨hr', by simpa using hleads'⟩))

theorem accounted_ofImports (hsorted : StrictlySorted files)
    (hscanned : ∀ file ∈ files, ∀ r ∈ (imports file).resolutions, ∀ target,
      r.outcome = .internal target → target ∈ files) :
    Accounted files (fun file => (imports file).resolutions)
      (ofImports (files.map fun file => (file, imports file))) where
  paths := paths_ofImports
  scanned := hscanned
  inRange := by
    intro e he
    obtain ⟨file, target, hfile, htarget, -⟩ := (mem_edges_ofImports hsorted.nodup).1 he
    have hsize : (ofImports (files.map fun file => (file, imports file))).nodes.size =
        files.length := by
      simp [ofImports]
    rw [hsize]
    exact ⟨(List.getElem?_eq_some_iff.1 hfile).1, (List.getElem?_eq_some_iff.1 htarget).1⟩
  noLoops := by
    intro e he hsame
    obtain ⟨file, target, hfile, htarget, hne, -⟩ := (mem_edges_ofImports hsorted.nodup).1 he
    rw [hsame, htarget, Option.some_inj] at hfile
    exact hne hfile.symm
  increasing := strictlySorted_edgesFrom
  edge_iff := by
    intro i j file target specifier hfile htarget
    constructor
    · rintro ⟨line, he⟩
      obtain ⟨file', target', hfile', htarget', hne, ⟨r, hr, hleads, -⟩, -⟩ :=
        (mem_edges_ofImports hsorted.nodup).1 he
      obtain rfl := Option.some_inj.1 (hfile.symm.trans hfile')
      obtain rfl := Option.some_inj.1 (htarget.symm.trans htarget')
      exact ⟨hne, r, hr, hleads⟩
    · rintro ⟨hne, hexists⟩
      obtain ⟨r, hr, hleads, hleast⟩ := exists_lowest_line hexists
      exact ⟨r.line, (mem_edges_ofImports hsorted.nodup).2
        ⟨file, target, hfile, htarget, hne, ⟨r, hr, hleads, rfl⟩, hleast⟩⟩
  line := by
    intro e he file target hfile htarget
    obtain ⟨file', target', hfile', htarget', -, hline⟩ := (mem_edges_ofImports hsorted.nodup).1 he
    obtain rfl := Option.some_inj.1 (hfile.symm.trans hfile')
    obtain rfl := Option.some_inj.1 (htarget.symm.trans htarget')
    exact hline
  ignored := by
    intro n hn
    obtain ⟨file, -, rfl⟩ := mem_nodes_ofImports.1 hn
    exact ⟨strictlySorted_sortedDistinct _, fun _ => mem_ignored_nodeOf⟩
  broken := by
    intro n hn
    obtain ⟨file, -, rfl⟩ := mem_nodes_ofImports.1 hn
    exact ⟨strictlySorted_sortedDistinct _, fun _ => mem_broken_nodeOf⟩

/-- The references of each file of a project are resolved, each to something, and accounted for, unless
an existence test of a candidate outside of the scan was refused. -/
theorem graph_accounts_for_references (hsorted : StrictlySorted files)
    (sourceRoots extensions : List String) (aliases : List (String × String))
    (isFile : String → Except Disk.Fault Bool) (refs : String → List Import.Ref) :
    let p := Project.ofFiles files sourceRoots extensions aliases isFile
    (∃ file ∈ files, ∃ r ∈ refs file, ∃ path ∈ FileImports.candidatesOf p file r, path ∉ files ∧
      ∃ fault, isFile path = .error fault ∧
        FileImports.ofRefs p file (refs file) = .error (.disk fault)) ∨
      ∃ imports : String → FileImports,
        (∀ file ∈ files, FileImports.ofRefs p file (refs file) = .ok (imports file) ∧
          (∀ r ∈ refs file, ∃ rs, FileImports.resolveRef p file r = .ok rs ∧ rs ≠ []) ∧
            ∀ x, x ∈ (imports file).resolutions ↔
              ∃ r ∈ refs file, ∃ rs, FileImports.resolveRef p file r = .ok rs ∧ x ∈ rs) ∧
          Accounted files (fun file => (imports file).resolutions)
            (ofImports (files.map fun file => (file, imports file))) := by
  intro p
  have hindexed : Resolution.Indexed p :=
    Resolution.indexed_ofFiles files sourceRoots extensions aliases isFile
  by_cases hrefused : ∃ file ∈ files, ∃ fault, FileImports.resolveAll p file (refs file) = .error fault
  · -- A refused file is refused because of one candidate of one reference.
    left
    obtain ⟨file, hfile, fault, hfault⟩ := hrefused
    rcases FileImports.resolveAll_answered hindexed file (refs file) with
      ⟨r, hr, fault', ⟨path, hpath, hnot, fault'', hpathFault, he⟩, he', hall⟩ | ⟨-, rs, hrs, -⟩
    · obtain rfl := Except.error.inj (he.symm.trans he')
      exact ⟨file, hfile, r, hr, path, hpath, hnot, fault'', hpathFault,
        by rw [FileImports.ofRefs, hall]⟩
    · rw [hfault] at hrs
      cases hrs
  · -- Every file is resolved; a path that is not scanned may be given anything.
    right
    have hall : ∀ file, ∃ own : FileImports, file ∈ files →
        FileImports.ofRefs p file (refs file) = .ok own ∧
          (∀ r ∈ refs file, Resolution.Answered p (FileImports.resolveRef p file r)) ∧
            (∀ x ∈ own.resolutions, Resolution.Scanned p x) ∧
              ∀ x, x ∈ own.resolutions ↔
                ∃ r ∈ refs file, ∃ rs, FileImports.resolveRef p file r = .ok rs ∧ x ∈ rs := by
      intro file
      rcases FileImports.resolveAll_answered hindexed file (refs file) with
        ⟨r, hr, fault, -, -, he⟩ | ⟨hanswered, rs, hrs, hscanned, hmem⟩
      · exact ⟨⟨[], []⟩, fun hfile => absurd ⟨file, hfile, fault, he⟩ hrefused⟩
      · exact ⟨⟨((refs file).map Import.Ref.specifier).eraseDups, rs⟩, fun _ =>
          ⟨by rw [FileImports.ofRefs, hrs], hanswered, hscanned, hmem⟩⟩
    choose imports himports using hall
    refine ⟨imports, fun file hfile => ?_, ?_⟩
    · obtain ⟨hok, hanswered, -, hmem⟩ := himports file hfile
      refine ⟨hok, fun r hr => ?_, hmem⟩
      obtain ⟨rs, hrs, hne, -⟩ := hanswered r hr
      exact ⟨rs, hrs, hne⟩
    · apply accounted_ofImports hsorted
      intro file hfile r hr target htarget
      exact (himports file hfile).2.2.1 r hr target htarget

/-- A package with a module, a file that imports both, and nothing else on the disk. -/
def packageRefs : String → List Import.Ref
  | "a.py" => [⟨1, "pkg", ["b", "c"], 0, .python⟩, ⟨2, "os", [], 0, .python⟩]
  | "pkg/b.py" => [⟨1, "", ["a"], 1, .python⟩, ⟨2, "missing", [], 2, .python⟩]
  | _ => []

theorem graph_accounts_for_references_package :
    let files := ["a.py", "pkg/__init__.py", "pkg/b.py"]
    let p := Project.ofFiles files ["."] [".py"] [] fun _ => .ok false
    StrictlySorted files ∧ ∃ imports : String → FileImports,
      (∀ file ∈ files, FileImports.ofRefs p file (packageRefs file) = .ok (imports file) ∧
        (∀ r ∈ packageRefs file, ∃ rs, FileImports.resolveRef p file r = .ok rs ∧ rs ≠ []) ∧
          ∀ x, x ∈ (imports file).resolutions ↔
            ∃ r ∈ packageRefs file, ∃ rs, FileImports.resolveRef p file r = .ok rs ∧ x ∈ rs) ∧
        Accounted files (fun file => (imports file).resolutions)
          (ofImports (files.map fun file => (file, imports file))) := by
  intro files p
  have hsorted : StrictlySorted files := by
    unfold StrictlySorted
    decide +kernel
  refine ⟨hsorted, ?_⟩
  rcases graph_accounts_for_references hsorted ["."] [".py"] [] (fun _ => .ok false) packageRefs with
    ⟨-, -, -, -, -, -, -, fault, hfault, -⟩ | himports
  · cases hfault
  · exact himports

end ModuleGraph

end LayerGate
