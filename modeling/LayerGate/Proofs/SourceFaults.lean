import LayerGate.Proofs.Discovery
import LayerGate.Proofs.Refusals
import LayerGate.Proofs.SpecifierMeaning

/-!
# What sources can do to a run

Sources that cannot be decoded or parsed ask for nothing, and imports that lead nowhere are recorded in
the graph.  Three things in a source still end a run: a NUL in Python source, Python source that the
parser has no room for, and an import that makes the disk refuse to say whether a file is there.
-/

namespace LayerGate

/-! ## The references of a file -/

namespace FileImports

open Resolution

variable {m : Machine} {p : Project} {path : String} {r : Import.Ref} {content : ByteArray}
  {rs : List Import.Ref} {text : List Char}

/-! ### Reading -/

/-- Python source with a NUL. -/
def HoldsNul (path : String) (content : ByteArray) : Prop :=
  Path.suffix path = Project.pySuffix ∧
    ∃ text, Text.Utf8.decode content = .ok text ∧ '\x00' ∈ text

/-- The parser of the machine has no room for the file, which is Python source without a NUL. -/
def Exhausts (m : Machine) (path : String) (content : ByteArray) (problem : Exhaustion) : Prop :=
  Path.suffix path = Project.pySuffix ∧ ∃ text, Text.Utf8.decode content = .ok text ∧
    '\x00' ∉ text ∧ m.parser (String.ofList (Text.unifyNewlines text)) = some problem

/-- The file cannot be decoded, or it is Python source that cannot be parsed. -/
def IsUnreadable (path : String) (content : ByteArray) : Prop :=
  (∃ fault, Text.Utf8.decode content = .error fault) ∨
    Path.suffix path = Project.pySuffix ∧ ∃ text fault, Text.Utf8.decode content = .ok text ∧
      Import.Indented.imports (String.ofList (Text.unifyNewlines text)) = .error (.malformed fault)

theorem mem_unifyNewlines {c : Char} {cs : List Char} (hfeed : c ≠ '\n') (hreturn : c ≠ '\r') :
    c ∈ Text.unifyNewlines cs ↔ c ∈ cs := by
  fun_induction Text.unifyNewlines cs with
  | case1 => rfl
  | case2 cs ih => simp [ih, hfeed, hreturn]
  | case3 cs _ ih => simp [ih, hfeed, hreturn]
  | case4 d cs _ _ ih => simp [ih]

theorem imports_eq_nul_iff {text : String} :
    Import.Indented.imports text = .error .nul ↔ '\x00' ∈ text.toList := by
  have hlines : '\x00' ∈ Import.Indented.completeLines text.toList ↔ '\x00' ∈ text.toList := by
    unfold Import.Indented.completeLines
    simp only
    split
    · exact mem_unifyNewlines (by decide) (by decide)
    · rw [List.mem_append, mem_unifyNewlines (by decide) (by decide)]
      exact or_iff_left (by decide)
  rw [← hlines]
  unfold Import.Indented.imports
  simp only
  split
  · rename_i hnul
    exact iff_of_true rfl (List.contains_iff_mem.1 hnul)
  · rename_i hclean
    refine iff_of_false ?_ fun hnul => hclean (List.contains_iff_mem.2 hnul)
    split <;> nofun

theorem refsOf_error_iff {fault : Fault} : (refsOf m path text).result = .error fault ↔
    Path.suffix path = Project.pySuffix ∧ ('\x00' ∈ text ∧ fault = .nulInSource ∨
      '\x00' ∉ text ∧ ∃ problem, m.parser (String.ofList text) = some problem ∧
        fault = .exhausted problem) := by
  have hnul : '\x00' ∈ text ↔ Import.Indented.imports (String.ofList text) = .error .nul := by
    rw [imports_eq_nul_iff, String.toList_ofList]
  rw [hnul]
  unfold refsOf
  split
  · rename_i hpy
    rw [and_iff_right hpy]
    split
    · rename_i himports
      rw [himports]
      constructor
      · exact fun h => .inl ⟨rfl, (Except.error.inj h).symm⟩
      · rintro (⟨-, rfl⟩ | ⟨h, -⟩)
        · rfl
        · exact absurd rfl h
    · rename_i problem hparser hclean
      rw [hparser, or_iff_right fun h => hclean h.1]
      constructor
      · exact fun h => ⟨hclean, problem, rfl, (Except.error.inj h).symm⟩
      · rintro ⟨-, _, ⟨⟩, rfl⟩
        rfl
    · rename_i himports hparser
      rw [himports, hparser]
      exact iff_of_false nofun (by simp)
    · rename_i himports hparser
      rw [himports, hparser]
      exact iff_of_false nofun (by simp)
  · rename_i hweb
    exact iff_of_false nofun fun h => hweb h.1

/-- Reading a file fails in two ways: a NUL in Python source comes first, then the room. -/
theorem refs_error_iff {fault : Fault} : (refs m path content).result = .error fault ↔
    HoldsNul path content ∧ fault = .nulInSource ∨
      ∃ problem, Exhausts m path content problem ∧ fault = .exhausted problem := by
  unfold refs HoldsNul Exhausts
  cases hdecode : Text.Utf8.decode content with
  | error f => exact iff_of_false nofun (by simp)
  | ok text =>
    have hnul : '\x00' ∈ Text.unifyNewlines text ↔ '\x00' ∈ text :=
      mem_unifyNewlines (by decide) (by decide)
    simp only [refsOf_error_iff, hnul, Except.ok.injEq, exists_eq_left']
    grind

/-- What cannot be read asks for nothing. -/
theorem refs_of_isUnreadable (h : IsUnreadable path content)
    (hrs : (refs m path content).result = .ok rs) : rs = [] := by
  unfold refs at hrs
  rcases h with ⟨fault, hdecode⟩ | ⟨hpy, text, fault, hdecode, himports⟩
  · rw [hdecode] at hrs
    exact (Except.ok.inj hrs).symm
  · rw [hdecode] at hrs
    simp only [refsOf, if_pos hpy, himports] at hrs
    cases hparser : m.parser (String.ofList (Text.unifyNewlines text)) with
    | some problem =>
      -- Without room there is no list of references, not even an empty one.
      rw [hparser] at hrs
      cases hrs
    | none =>
      rw [hparser] at hrs
      exact (Except.ok.inj hrs).symm

/-- What ends a run at a file: a NUL in Python source, Python source that the parser has no room for, or
an import with a look-up that the disk refuses. -/
def Stops (m : Machine) (p : Project) (path : String) (content : ByteArray) : Prop :=
  HoldsNul path content ∨ (∃ problem, Exhausts m path content problem) ∨
    ∃ rs, (refs m path content).result = .ok rs ∧
      ∃ r ∈ rs, ∃ candidates ∈ lookups p path r, Refuses p candidates

theorem result_ofContent (m : Machine) (p : Project) (path : String) (content : ByteArray) :
    (ofContent m p path content).result =
      ((refs m path content).result >>= fun rs => ofRefs p path rs) := by
  unfold ofContent
  rw [Journal.result_bind]
  congr 1
  funext rs
  cases ofRefs p path rs <;> rfl

theorem ofContent_error_iff :
    (∃ fault, (ofContent m p path content).result = .error fault) ↔ Stops m p path content := by
  unfold Stops
  rw [result_ofContent]
  cases hrefs : (refs m path content).result with
  | error fault =>
    refine iff_of_true ⟨fault, rfl⟩ ?_
    rcases refs_error_iff.1 hrefs with ⟨hnul, -⟩ | ⟨problem, hexhausts, -⟩
    · exact .inl hnul
    · exact .inr (.inl ⟨problem, hexhausts⟩)
  | ok rs =>
    have hclean : ¬ HoldsNul path content := fun hnul =>
      nomatch (refs_error_iff.2 (.inl ⟨hnul, rfl⟩)).symm.trans hrefs
    have hroom : ¬ ∃ problem, Exhausts m path content problem := fun ⟨problem, hexhausts⟩ =>
      nomatch (refs_error_iff.2 (.inr ⟨problem, hexhausts, rfl⟩)).symm.trans hrefs
    simp only [hclean, hroom, false_or, Except.ok.injEq, exists_eq_left', ← resolveRef_error_iff]
    rw [← resolveAll_error_iff]
    show (∃ fault, ofRefs p path rs = .error fault) ↔ _
    unfold ofRefs
    cases resolveAll p path rs with
    | error fault => exact iff_of_true ⟨_, rfl⟩ ⟨fault, rfl⟩
    | ok resolutions => exact iff_of_false (not_exists_error _) (not_exists_error _)

/-- Why a file has no imports to tell. -/
theorem fault_of_ofContent {fault : Fault} (hindexed : Indexed p)
    (h : (ofContent m p path content).result = .error fault) :
    (HoldsNul path content ∧ fault = .nulInSource ∨
      ∃ problem, Exhausts m path content problem ∧ fault = .exhausted problem) ∨
      ∃ problem, fault = .disk problem ∧ ∃ c, p.isFile c = .error problem := by
  rw [result_ofContent] at h
  cases hrefs : (refs m path content).result with
  | error fault' =>
    rw [hrefs] at h
    obtain rfl := Except.error.inj h
    exact .inl (refs_error_iff.1 hrefs)
  | ok rs =>
    rw [hrefs] at h
    change ofRefs p path rs = .error fault at h
    unfold ofRefs at h
    split at h
    · cases h
    · rename_i problem hall
      obtain rfl := Except.error.inj h
      exact .inr ⟨problem, rfl, isFile_of_resolveAll hindexed hall⟩

/-! ### Imports that lead nowhere -/

/-- The reference is to a file of the project: a relative import, or a specifier that is a path. -/
def IsLocal (p : Project) (path : String) (r : Import.Ref) : Prop :=
  match r.language with
  | .python => r.level ≠ 0
  | .javascript => (pathOf? p path r.module).isSome = true

/-- The reference is to a file of the project, and none of its candidates is there. -/
structure LeadsNowhere (p : Project) (path : String) (r : Import.Ref) : Prop where
  isLocal : IsLocal p path r
  missing : ∀ c ∈ candidatesOf p path r, c ∉ p.files ∧ p.isFile c = .ok false

/-- The reference resolves to something, and all of it is broken on the line of the reference. -/
def Breaks (p : Project) (path : String) (r : Import.Ref) : Prop :=
  ∃ own, resolveRef p path r = .ok own ∧ own ≠ [] ∧
    ∀ x ∈ own, x.line = r.line ∧ ∃ candidate, x.outcome = .broken candidate

theorem relativeNames_of_missing {target names : List String}
    (h : ∀ c ∈ nameCandidates target names, c ∉ p.files ∧ p.isFile c = .ok false) :
    relativeNames p target names = .ok (names.map fun name => (name, none)) := by
  induction names with
  | nil => rfl
  | cons name rest ih =>
    have hname := find?_eq_none fun c hc => h c (List.mem_append_left _ hc)
    have hrest := ih fun c hc => h c (List.mem_append_right _ hc)
    rw [relativeNames, hname, hrest]
    rfl

theorem base_of_missing {target : List String} (leftover : List String)
    (h : p.find? (baseCandidates r target) = .ok none) :
    ∃ own, base p r target leftover = .ok own ∧ own ≠ [] ∧
      ∀ x ∈ own, x.line = r.line ∧ ∃ candidate, x.outcome = .broken candidate := by
  by_cases hwhole : moduleParts r ≠ [] ∨ leftover = []
  · refine ⟨_, base_of_missing_whole h hwhole, List.cons_ne_nil _ _, fun x hx => ?_⟩
    obtain rfl := List.mem_singleton.1 hx
    exact ⟨rfl, _, rfl⟩
  · refine ⟨_, base_of_missing_names h hwhole, ?_, fun x hx => ?_⟩
    · rw [Ne, List.map_eq_nil_iff]
      exact fun hnone => hwhole (.inr hnone)
    · obtain ⟨name, -, rfl⟩ := List.mem_map.1 hx
      exact ⟨rfl, _, rfl⟩

theorem relative_of_missing
    (h : ∀ c ∈ relativeCandidates path r, c ∉ p.files ∧ p.isFile c = .ok false) :
    ∃ own, relative p path r = .ok own ∧ own ≠ [] ∧
      ∀ x ∈ own, x.line = r.line ∧ ∃ candidate, x.outcome = .broken candidate := by
  cases hpackage : package? path r with
  | none =>
    refine ⟨[⟨r.specifier, r.line, .broken none⟩], ?_, List.cons_ne_nil _ _, fun x hx => ?_⟩
    · unfold relative
      rw [hpackage]
      rfl
    · obtain rfl := List.mem_singleton.1 hx
      exact ⟨rfl, none, rfl⟩
  | some package =>
    unfold relativeCandidates at h
    rw [hpackage] at h
    have hnames := relativeNames_of_missing fun c hc => h c (List.mem_append_left _ hc)
    have hbase := find?_eq_none fun c hc => h c (List.mem_append_right _ hc)
    have hmodules : moduleResolutions r (r.names.map fun name => (name, none)) = [] := by
      simp [moduleResolutions]
    have hleft : leftoverNames (r.names.map fun name => (name, none)) = r.names := by
      simp [leftoverNames, List.filter_map, Function.comp_def]
    rw [relative_of_names hpackage hnames, hmodules, hleft, if_pos (Decidable.em _)]
    obtain ⟨own, hown, hbroken⟩ := base_of_missing r.names hbase
    rw [hown]
    exact ⟨own, rfl, hbroken⟩

theorem webOutcome_of_missing (hpath : (pathOf? p path r.module).isSome = true)
    (h : ∀ c ∈ webPathCandidates p path r, c ∉ p.files ∧ p.isFile c = .ok false) :
    ∃ candidate, webOutcome p path r.module = .ok (.broken candidate) := by
  obtain ⟨there, hthere⟩ := Option.isSome_iff_exists.1 hpath
  unfold webPathCandidates at h
  unfold webOutcome
  rw [hthere] at h ⊢
  simp only at h ⊢
  split
  · exact ⟨none, rfl⟩
  · rename_i hinside
    rw [if_neg hinside] at h
    rw [find?_eq_none h]
    exact ⟨_, rfl⟩

/-- An import of a project file that is not there breaks, and nothing else comes of it. -/
theorem breaks_of_leadsNowhere (h : LeadsNowhere p path r) : Breaks p path r := by
  obtain ⟨hlocal, hmissing⟩ := h
  unfold IsLocal at hlocal
  unfold candidatesOf at hmissing
  unfold Breaks resolveRef
  cases hlanguage : r.language with
  | python =>
    rw [hlanguage] at hlocal hmissing
    simp only [if_neg hlocal] at hmissing
    simp only [dotted, if_neg hlocal]
    exact relative_of_missing hmissing
  | javascript =>
    rw [hlanguage] at hlocal hmissing
    obtain ⟨candidate, houtcome⟩ := webOutcome_of_missing hlocal hmissing
    refine ⟨[⟨r.module, r.line, .broken candidate⟩], ?_, List.cons_ne_nil _ _, fun x hx => ?_⟩
    · simp only [web_eq_map, houtcome]
      rfl
    · obtain rfl := List.mem_singleton.1 hx
      exact ⟨rfl, candidate, rfl⟩

end FileImports

/-! ## The run -/

namespace Analysis

open FileImports (Exhausts HoldsNul IsUnreadable LeadsNowhere Stops resolveRef)

variable {clock : Clock} {m : Machine} {d : Disk} {root : String} {c : Config} {folder : Entry}
  {files : List String} {p : Project} {results : List (String × FileImports)}

theorem result_checkpoint {stage : Stage}
    (h : (⟨c.timeout⟩ : Budget).isSpent (clock.elapsed stage) = false) :
    (checkpoint clock ⟨c.timeout⟩ stage).result = .ok () := checkpoint_eq_ok_iff.2 h

/-- Once the files are found in time, a run waits for them. -/
theorem result_moduleGraph_found (hfolder : rootFolder d root = .ok folder)
    (hfiles : Scan.sourceFiles (selection c) folder = .ok files)
    (hdiscover : (⟨c.timeout⟩ : Budget).isSpent (clock.elapsed .discover) = false) :
    (moduleGraph clock m d root c).result = ((await clock ⟨c.timeout⟩).result >>= fun _ =>
      (importsOf m (projectOf d root c files) folder files).result.mapError Fault.ofFileImports >>=
        fun results => (checkpoint clock ⟨c.timeout⟩ .parse).result >>= fun _ =>
          .ok (ModuleGraph.ofFinished files results)) := by
  unfold moduleGraph
  simp only [Journal.result_bind, hfolder]
  change ((Journal.ofExcept Fault.ignoreFile (Scan.sourceFiles (selection c) folder)).result >>= _) = _
  rw [hfiles]
  change ((checkpoint clock ⟨c.timeout⟩ .discover).result >>= _) = _
  rw [result_checkpoint hdiscover]
  rfl

/-- In time and on a folder that can be scanned, a run stands and falls with the imports of its files. -/
theorem result_moduleGraph (hfolder : rootFolder d root = .ok folder)
    (hfiles : Scan.sourceFiles (selection c) folder = .ok files)
    (hdiscover : (⟨c.timeout⟩ : Budget).isSpent (clock.elapsed .discover) = false)
    (hwait : CanWait clock c)
    (hparse : (⟨c.timeout⟩ : Budget).isSpent (clock.elapsed .parse) = false) :
    (moduleGraph clock m d root c).result =
      ((importsOf m (projectOf d root c files) folder files).result.map
        ModuleGraph.ofImports).mapError Fault.ofFileImports := by
  have hawait : (await clock ⟨c.timeout⟩).result = .ok () := await_eq_ok_iff.2 hwait
  rw [result_moduleGraph_found hfolder hfiles hdiscover, hawait, result_checkpoint hparse]
  cases hresults : (importsOf m (projectOf d root c files) folder files).result with
  | error fault => rfl
  | ok results => exact congrArg Except.ok (ofFinished_results hfiles hresults)

/-- A wait that cannot be timed is the end, whatever the files hold. -/
theorem result_moduleGraph_untimed (hfolder : rootFolder d root = .ok folder)
    (hfiles : Scan.sourceFiles (selection c) folder = .ok files)
    (hdiscover : (⟨c.timeout⟩ : Budget).isSpent (clock.elapsed .discover) = false)
    (hwait : ¬ CanWait clock c) : (moduleGraph clock m d root c).result = .error .hugeWait := by
  rw [result_moduleGraph_found hfolder hfiles hdiscover, result_await,
    if_pos (Bool.not_eq_false _ ▸ hwait)]
  rfl

/-- Each file has its place in the results. -/
theorem getElem?_results (h : (importsOf m p folder files).result = .ok results) {i : Nat}
    {path : String} (hi : files[i]? = some path) : ∃ imports, results[i]? = some (path, imports) ∧
      (FileImports.ofContent m p path (contentOf folder path)).result = .ok imports := by
  rw [result_importsOf, mapM_eq_ok_iff, List.forall₂_iff_get] at h
  obtain ⟨hlength, hall⟩ := h
  obtain ⟨hlt, rfl⟩ := List.getElem?_eq_some_iff.1 hi
  have hlt' : i < results.length := hlength ▸ hlt
  have hentry := hall i hlt hlt'
  simp only [List.get_eq_getElem] at hentry
  cases himports : (FileImports.ofContent m p files[i] (contentOf folder files[i])).result with
  | error fault =>
    rw [himports] at hentry
    cases hentry
  | ok imports =>
    rw [himports] at hentry
    refine ⟨imports, ?_, rfl⟩
    rw [List.getElem?_eq_getElem hlt', ← Except.ok.inj hentry]

/-- What a graph holds of the file in one place. -/
structure HoldsFile (m : Machine) (p : Project) (folder : Entry) (g : ModuleGraph) (i : Nat) (path : String)
    (n : Node) : Prop where
  named : n.path = path
  /-- An unreadable file has no imports. -/
  unreadable : IsUnreadable path (contentOf folder path) →
    n.specifiers = [] ∧ n.ignored = [] ∧ n.broken = [] ∧ ∀ e ∈ g.edges, e.source ≠ i
  /-- All that comes of an import that leads nowhere is recorded as broken. -/
  nowhere : ∀ rs, (FileImports.refs m path (contentOf folder path)).result = .ok rs →
    ∀ r ∈ rs, LeadsNowhere p path r → ∃ own, resolveRef p path r = .ok own ∧ own ≠ [] ∧
      ∀ x ∈ own, x.line = r.line ∧ ∃ candidate, x.outcome = .broken candidate ∧
        ⟨x.specifier, x.line, candidate⟩ ∈ n.broken

theorem holdsFile_ofImports (h : (importsOf m p folder files).result = .ok results) {i : Nat}
    {path : String} (hi : files[i]? = some path) :
    ∃ n, (ModuleGraph.ofImports results).nodes[i]? = some n ∧
      HoldsFile m p folder (ModuleGraph.ofImports results) i path n := by
  obtain ⟨imports, hresult, himports⟩ := getElem?_results h hi
  rw [FileImports.result_ofContent] at himports
  obtain ⟨rs, hrs, hofRefs⟩ := bind_eq_ok_iff.1 himports
  unfold FileImports.ofRefs at hofRefs
  split at hofRefs
  case h_2 => cases hofRefs
  rename_i resolutions hall
  obtain rfl := Except.ok.inj hofRefs
  refine ⟨_, ModuleGraph.getElem?_nodes_ofImports.2 ⟨path, _, hresult, rfl⟩, rfl, ?_, ?_⟩
  · -- What cannot be read asks for nothing, and nothing is resolved for it.
    intro hunreadable
    obtain rfl := FileImports.refs_of_isUnreadable hunreadable hrs
    obtain rfl := Except.ok.inj hall
    refine ⟨rfl, ?_, ?_, fun e he hsource => ?_⟩
    · refine List.eq_nil_iff_forall_not_mem.2 fun specifier hspecifier => ?_
      obtain ⟨r, hr, -⟩ := ModuleGraph.mem_ignored_nodeOf.1 hspecifier
      cases hr
    · refine List.eq_nil_iff_forall_not_mem.2 fun b hb => ?_
      obtain ⟨r, hr, -⟩ := ModuleGraph.mem_broken_nodeOf.1 hb
      cases hr
    · obtain ⟨_, _, hresult', r, hr, -⟩ := ModuleGraph.exists_resolution_of_mem_edges he
      rw [hsource, hresult] at hresult'
      cases hresult'
      cases hr
  · intro rs' hrs' r hr hnowhere
    obtain rfl := Except.ok.inj (hrs.symm.trans hrs')
    obtain ⟨own, hown, hne, hbroken⟩ := FileImports.breaks_of_leadsNowhere hnowhere
    refine ⟨own, hown, hne, fun x hx => ?_⟩
    obtain ⟨hline, candidate, houtcome⟩ := hbroken x hx
    refine ⟨hline, candidate, houtcome, ModuleGraph.mem_broken_nodeOf.2 ⟨x, ?_, rfl, rfl, houtcome⟩⟩
    exact (FileImports.mem_resolveAll_iff hall).2 ⟨r, hr, own, hown, hx⟩

/-- The imports of all files come together unless one of the files stops the run. -/
theorem importsOf_cases (m : Machine) (p : Project) (folder : Entry) (files : List String) :
    (∃ results, (importsOf m p folder files).result = .ok results) ∧
        (∀ path ∈ files, ¬ Stops m p path (contentOf folder path)) ∨
      ∃ path ∈ files, Stops m p path (contentOf folder path) ∧
        ∃ fault, (FileImports.ofContent m p path (contentOf folder path)).result = .error fault ∧
          (importsOf m p folder files).result = .error fault := by
  have hcases := mapM_cases (fun path =>
    (path, ·) <$> (FileImports.ofContent m p path (contentOf folder path)).result) files
  rw [← result_importsOf] at hcases
  rcases hcases with ⟨results, hresults⟩ | ⟨path, hpath, fault, hfault, hall⟩
  · refine .inl ⟨⟨results, hresults⟩, fun path hpath hstops => ?_⟩
    obtain ⟨fault, hfault⟩ := FileImports.ofContent_error_iff.2 hstops
    obtain ⟨i, hi⟩ := List.getElem?_of_mem hpath
    obtain ⟨imports, -, himports⟩ := getElem?_results hresults hi
    cases hfault.symm.trans himports
  · cases himports : (FileImports.ofContent m p path (contentOf folder path)).result with
    | ok imports =>
      rw [himports] at hfault
      cases hfault
    | error fault' =>
      rw [himports] at hfault
      obtain rfl := Except.error.inj hfault
      exact .inr ⟨path, hpath, FileImports.ofContent_error_iff.1 ⟨fault', himports⟩, fault', himports, hall⟩

/-- What ends a run that is in time, on a project whose files can be found. -/
inductive Cause (clock : Clock) (m : Machine) (c : Config) (folder : Entry) (files : List String) :
    Fault → Prop
  /-- The wait for the files cannot be timed, whatever they hold. -/
  | wait : ¬ CanWait clock c → Cause clock m c folder files .hugeWait
  | nul {path : String} : path ∈ files → HoldsNul path (contentOf folder path) →
    Cause clock m c folder files .nulInSource
  | room {path : String} {problem : Exhaustion} : path ∈ files →
    Exhausts m path (contentOf folder path) problem →
      Cause clock m c folder files (.exhausted problem)
  | name {problem : Disk.Fault} : problem.cause = .nameTooLong →
    Cause clock m c folder files (.disk problem)

/-- A file that ends a run does so for a cause of its own. -/
theorem cause_of_ofContent {p : Project} {path : String} {fault : FileImports.Fault}
    (hp : p = projectOf d root c files) (hpath : path ∈ files)
    (h : (FileImports.ofContent m p path (contentOf folder path)).result = .error fault) :
    Cause clock m c folder files (.ofFileImports fault) := by
  have hindexed : Resolution.Indexed p := hp ▸ Resolution.indexed_ofFiles ..
  rcases FileImports.fault_of_ofContent hindexed h with
    (⟨hnul, rfl⟩ | ⟨problem, hroom, rfl⟩) | ⟨problem, rfl, c', hthere⟩
  · exact .nul hpath hnul
  · exact .room hpath hroom
  · subst hp
    exact .name (cause_of_isFile hthere)

/-- A project of one Python file. -/
def oneFile (content : ByteArray) : Entry := .folder [("a.py", .file content)]

def oneFileDisk (content : ByteArray) : Disk := .folder [("project", oneFile content)]

theorem rootFolder_oneFile (content : ByteArray) :
    rootFolder (oneFileDisk content) "/project" = .ok (oneFile content) := by cbv

theorem sourceFiles_oneFile (content : ByteArray) :
    Scan.sourceFiles (selection .builtin) (oneFile content) = .ok ["a.py"] := by
  have hfiles : Scan.sourceFiles (selection .builtin) (oneFile content) =
      .ok (sortedDistinct ["a.py"]) := by with_unfolding_all rfl
  have hsorted : sortedDistinct ["a.py"] = ["a.py"] := by cbv
  rw [hfiles, hsorted]

/-- At the beginning of a run, with nothing to wait for. -/
def atOnce : Clock := ⟨fun _ => 0, none⟩

end Analysis

end LayerGate
