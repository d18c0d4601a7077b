import LayerGate.Proofs.GraphAccounting
import LayerGate.Proofs.Rerun
import LayerGate.Proofs.SpecifierText

/-!
# One meaning for each specifier

Different statements are told by one specifier: `import a.b` and `from a import b`, or `from .a import b`
and `from . import a`.  Each is resolved on a way of its own, and still all references of a file with one
specifier come to the same outcome.  So a specifier leads to one file at most, and it is in one place of
the graph only.
-/

namespace LayerGate

open Import (IsWord IsSpelled spelled spelled_inj)

namespace Resolution

variable {p : Project} {file : String} {r r' : Import.Ref} {x : Resolution}
  {parts package : List String} {o o' : Outcome} {own : List Resolution}

/-! ## What a Python specifier means -/

/-- What names in a package are looked up by; without a name, the package itself is. -/
def partsCandidates (package parts : List String) : List String :=
  if parts = [] then [packageFile package] else moduleCandidates (package ++ parts)

/-- The outcome of names behind the dots of a reference, whichever reference asks for them. -/
def Means (p : Project) (file : String) (r : Import.Ref) (parts : List String) (o : Outcome) : Prop :=
  if r.level = 0 then
    o = match p.modules.longest? (".".intercalate parts) with
      | some found => .internal found
      | none => .external none
  else match package? file r with
    | none => o = .broken none
    | some package => ∃ found, p.find? (partsCandidates package parts) = .ok found ∧
        o = found.getD (.broken (nonEmpty? ("/".intercalate (package ++ parts))))

theorem means_relative (hlevel : r.level ≠ 0) (hpackage : package? file r = some package) :
    Means p file r parts o ↔ ∃ found, p.find? (partsCandidates package parts) = .ok found ∧
      o = found.getD (.broken (nonEmpty? ("/".intercalate (package ++ parts)))) := by
  unfold Means
  rw [if_neg hlevel, hpackage]

theorem Means.unique (h : Means p file r parts o) (h' : Means p file r' parts o')
    (hlevel : r.level = r'.level) : o = o' := by
  have hpackage : package? file r = package? file r' := by
    unfold package?
    rw [hlevel]
  unfold Means at h h'
  rw [hlevel, hpackage] at h
  split at h
  · rename_i habsolute
    rw [if_pos habsolute] at h'
    rw [h, h']
  · rename_i hrelative
    rw [if_neg hrelative] at h'
    cases hpackage' : package? file r' with
    | none =>
      rw [hpackage'] at h h'
      rw [h, h']
    | some package =>
      rw [hpackage'] at h h'
      obtain ⟨found, hfound, rfl⟩ := h
      obtain ⟨found', hfound', rfl⟩ := h'
      obtain rfl := Except.ok.inj (hfound.symm.trans hfound')
      rfl

/-- The resolution is told by names behind the dots of the reference, and it has the outcome that they
mean. -/
def Tells (p : Project) (file : String) (r : Import.Ref) (x : Resolution) : Prop :=
  ∃ parts, (∀ part ∈ parts, IsWord part) ∧ x.specifier = spelled r.level parts ∧
    Means p file r parts x.outcome

theorem absolute_tells (h : IsSpelled r) (hlevel : r.level = 0) (hx : x ∈ absolute p r) :
    Tells p file r x := by
  have hwords := isWord_moduleParts h
  have hmodule := module_eq h
  unfold absolute at hx
  rcases List.mem_append.1 hx with hx | hx
  · -- A name that is a module: the longest module on the way to it.
    obtain ⟨found, hfound, hsome⟩ := List.mem_filterMap.1 hx
    obtain ⟨name, hname, rfl⟩ := List.mem_map.1 hfound
    obtain ⟨target, htarget, rfl⟩ := Option.map_eq_some_iff.1 hsome
    have hspecifier : r.module ++ "." ++ name = ".".intercalate (moduleParts r ++ [name]) := by
      rw [String.intercalate_append_of_ne_nil (moduleParts_ne_nil h hlevel) (List.cons_ne_nil _ _),
        String.intercalate_singleton, ← hmodule]
    have hparts := isWord_moduleParts_concat h hname
    refine ⟨moduleParts r ++ [name], hparts, ?_, ?_⟩
    · rw [hlevel]
      exact hspecifier.trans (String.empty_append).symm
    · rw [hspecifier] at htarget
      unfold Means
      rw [if_pos hlevel, ModuleIndex.longest?_of_file? (by simp) hparts htarget]
  · split at hx
    · obtain rfl := List.mem_singleton.1 hx
      refine ⟨moduleParts r, hwords, ?_, ?_⟩
      · rw [← specifier_eq h, absoluteModule, Import.Ref.specifier, hlevel]
        split <;> exact (String.empty_append).symm
      · unfold Means absoluteModule
        rw [if_pos hlevel, ← hmodule]
        cases p.modules.longest? r.module <;> rfl
    · cases hx

theorem baseCandidates_eq : baseCandidates r (package ++ moduleParts r) =
    partsCandidates package (moduleParts r) := by
  unfold baseCandidates partsCandidates
  split
  · rename_i hnil
    rw [hnil, List.append_nil]
  · rfl

theorem partsCandidates_concat {name : String} :
    moduleCandidates (package ++ parts ++ [name]) = partsCandidates package (parts ++ [name]) := by
  unfold partsCandidates
  rw [if_neg (by simp), List.append_assoc]

theorem relativeNames_eq_mapM {target names : List String} : relativeNames p target names =
    names.mapM fun name => (p.find? (moduleCandidates (target ++ [name]))).map (name, ·) := by
  induction names with
  | nil => rfl
  | cons name rest ih =>
    rw [relativeNames, ih, List.mapM_cons]
    cases p.find? (moduleCandidates (target ++ [name])) <;> rfl

/-- Each name stands with the answer to its look-up, and nothing else does. -/
theorem mem_relativeNames_iff {target names : List String} {found : List (String × Option Outcome)}
    (h : relativeNames p target names = .ok found) {name : String} {outcome : Option Outcome} :
    (name, outcome) ∈ found ↔
      name ∈ names ∧ p.find? (moduleCandidates (target ++ [name])) = .ok outcome := by
  rw [relativeNames_eq_mapM] at h
  rw [mem_of_mapM_eq_ok h]
  constructor
  · rintro ⟨other, hother, hmap⟩
    cases hfind : p.find? (moduleCandidates (target ++ [other])) with
    | error fault =>
      rw [hfind] at hmap
      cases hmap
    | ok o =>
      rw [hfind] at hmap
      cases hmap
      exact ⟨hother, hfind⟩
  · rintro ⟨hname, hfind⟩
    exact ⟨name, hname, by rw [hfind]; rfl⟩

theorem base_tells {leftover : List String} (h : IsSpelled r) (hlevel : r.level ≠ 0)
    (hpackage : package? file r = some package) (hleftover : ∀ name ∈ leftover, IsWord name ∧
      p.find? (moduleCandidates (package ++ moduleParts r ++ [name])) = .ok none)
    (hbase : base p r (package ++ moduleParts r) leftover = .ok own) (hx : x ∈ own) :
    Tells p file r x := by
  have hmeans : ∀ {parts o}, _ → Means p file r parts o := (means_relative hlevel hpackage).2
  unfold base at hbase
  obtain ⟨found, hfound, hbase⟩ := bind_eq_ok_iff.1 hbase
  rw [baseCandidates_eq] at hfound
  cases found with
  | some outcome =>
    cases hbase
    obtain rfl := List.mem_singleton.1 hx
    exact ⟨moduleParts r, isWord_moduleParts h, specifier_eq h, hmeans ⟨_, hfound, rfl⟩⟩
  | none =>
    simp only at hbase
    split at hbase
    · cases hbase
      obtain rfl := List.mem_singleton.1 hx
      exact ⟨moduleParts r, isWord_moduleParts h, specifier_eq h, hmeans ⟨_, hfound, rfl⟩⟩
    · -- The package is not there, and each name that is left is missing in it.
      rename_i hbare
      have hparts : moduleParts r = [] := by
        by_contra hne
        exact hbare (.inl hne)
      cases hbase
      obtain ⟨name, hname, rfl⟩ := List.mem_map.1 hx
      obtain ⟨hword, hmissing⟩ := hleftover name hname
      rw [hparts, List.append_nil] at hmissing ⊢
      have hpath : "/".intercalate (package ++ [name]) ≠ "" := by
        intro hempty
        obtain ⟨c, hc⟩ := List.exists_mem_of_ne_nil _ fun hnil =>
          hword.nonempty (String.toList_eq_nil_iff.1 hnil)
        have hin := Path.mem_ofNames_of_mem (List.mem_append_right package (List.mem_singleton_self name)) hc
        rw [Path.ofNames, hempty] at hin
        cases hin
      refine ⟨[name], fun part hpart => ?_, ?_, hmeans ⟨none, ?_, ?_⟩⟩
      · obtain rfl := List.mem_singleton.1 hpart
        exact hword
      · rw [spelled, String.intercalate_singleton]
        rfl
      · exact hmissing
      · show Outcome.broken (some _) = Outcome.broken (nonEmpty? _)
        rw [nonEmpty?, if_neg hpath]

theorem relative_tells (h : IsSpelled r) (hlevel : r.level ≠ 0) (hown : relative p file r = .ok own)
    (hx : x ∈ own) : Tells p file r x := by
  cases hpackage : package? file r with
  | none =>
    unfold relative at hown
    rw [hpackage] at hown
    cases hown
    obtain rfl := List.mem_singleton.1 hx
    refine ⟨moduleParts r, isWord_moduleParts h, specifier_eq h, ?_⟩
    unfold Means
    rw [if_neg hlevel, hpackage]
  | some package =>
    cases hnames : relativeNames p (package ++ moduleParts r) r.names with
    | error fault =>
      unfold relative at hown
      rw [hpackage] at hown
      simp only [hnames] at hown
      cases hown
    | ok found =>
      rw [relative_of_names hpackage hnames] at hown
      -- A name that was found is told by the names of the package and itself.
      have hmodules : ∀ x ∈ moduleResolutions r found, Tells p file r x := by
        intro x hx
        obtain ⟨⟨name, outcome⟩, hentry, hsome⟩ := List.mem_filterMap.1 hx
        obtain ⟨o, ho, rfl⟩ := Option.map_eq_some_iff.1 hsome
        obtain ⟨hname, hfind⟩ := (mem_relativeNames_iff hnames).1 hentry
        refine ⟨moduleParts r ++ [name], isWord_moduleParts_concat h hname, nameSpecifier_eq h name,
          (means_relative hlevel hpackage).2 ⟨outcome, ?_, by rw [show outcome = some o from ho]; rfl⟩⟩
        rw [← partsCandidates_concat]
        exact hfind
      split at hown
      · cases hbase : base p r (package ++ moduleParts r) (leftoverNames found) with
        | error fault =>
          rw [hbase] at hown
          cases hown
        | ok later =>
          rw [hbase] at hown
          cases hown
          rcases List.mem_append.1 hx with hx | hx
          · exact hmodules x hx
          · refine base_tells h hlevel hpackage (fun name hname => ?_) hbase hx
            obtain ⟨⟨name', outcome⟩, hentry, rfl⟩ := List.mem_map.1 hname
            -- A name is left over because nothing was found for it.
            obtain ⟨hmem, hnone⟩ := List.mem_filter.1 hentry
            obtain ⟨hname', hfind⟩ := (mem_relativeNames_iff hnames).1 hmem
            exact ⟨h.names _ hname', hfind.trans (congrArg _ (Option.isNone_iff_eq_none.1 hnone))⟩
      · cases hown
        exact hmodules x hx

theorem dotted_tells (h : IsSpelled r) (hown : dotted p file r = .ok own) (hx : x ∈ own) :
    Tells p file r x := by
  unfold dotted at hown
  split at hown
  · rename_i hlevel
    cases hown
    exact absolute_tells h hlevel hx
  · rename_i hlevel
    exact relative_tells h hlevel hown hx

/-! ## What another specifier means -/

/-- The outcome of a specifier of JavaScript or TypeScript. -/
def webOutcome (p : Project) (file specifier : String) : Except Disk.Fault Outcome :=
  match pathOf? p file specifier with
  | none => .ok (.external none)
  | some path =>
    if escapes path then .ok (.broken none)
    else
      let inside := if path = "." then "" else path
      (p.find? (webCandidates p.webExtensions inside)).map
        (·.getD (.broken (if inside = "" then none else some inside)))

theorem web_eq_map :
    web p file r = (webOutcome p file r.module).map fun o => [⟨r.module, r.line, o⟩] := by
  unfold web webOutcome
  cases pathOf? p file r.module with
  | none => rfl
  | some path =>
    simp only
    split
    · rfl
    · cases p.find? (webCandidates p.webExtensions (if path = "." then "" else path)) with
      | error fault => rfl
      | ok found => cases found <;> rfl

theorem mem_web_iff (hown : web p file r = .ok own) :
    x ∈ own ↔ ∃ o, webOutcome p file r.module = .ok o ∧ x = ⟨r.module, r.line, o⟩ := by
  rw [web_eq_map] at hown
  cases houtcome : webOutcome p file r.module with
  | error fault =>
    rw [houtcome] at hown
    cases hown
  | ok o =>
    rw [houtcome] at hown
    cases hown
    rw [List.mem_singleton]
    exact ⟨fun hx => ⟨o, rfl, hx⟩, fun ⟨o', ho', hx⟩ => Except.ok.inj ho' ▸ hx⟩

end Resolution

/-! ## References of one file -/

namespace FileImports

variable {p : Project} {path : String} {x y : Resolution}

/-- Some content of the file holds a reference that resolves to this. -/
def MayResolve (p : Project) (path : String) (x : Resolution) : Prop :=
  ∃ m content rs, (refs m path content).result = .ok rs ∧
    ∃ r ∈ rs, ∃ own, resolveRef p path r = .ok own ∧ x ∈ own

/-- In one file, whatever stands in it, a specifier has one outcome. -/
theorem outcome_eq_of_specifier (hx : MayResolve p path x) (hy : MayResolve p path y)
    (h : x.specifier = y.specifier) : x.outcome = y.outcome := by
  obtain ⟨_, _, _, hrs, r, hr, own, hown, hx⟩ := hx
  obtain ⟨_, _, _, hrs', r', hr', own', hown', hy⟩ := hy
  unfold resolveRef at hown hown'
  -- The suffix of the file tells the language of both.
  rcases isSpelled_of_refs hrs hr with ⟨hpy, hspelled⟩ | ⟨hweb, hlanguage⟩ <;>
    rcases isSpelled_of_refs hrs' hr' with ⟨hpy', hspelled'⟩ | ⟨hweb', hlanguage'⟩
  · rw [hspelled.python] at hown
    rw [hspelled'.python] at hown'
    obtain ⟨parts, hparts, hx, hmeans⟩ := Resolution.dotted_tells hspelled hown hx
    obtain ⟨parts', hparts', hy, hmeans'⟩ := Resolution.dotted_tells hspelled' hown' hy
    obtain ⟨hlevel, rfl⟩ := spelled_inj hparts hparts' (hx.symm.trans (h.trans hy))
    exact hmeans.unique hmeans' hlevel
  · exact absurd hpy hweb'
  · exact absurd hpy' hweb
  · rw [hlanguage] at hown
    rw [hlanguage'] at hown'
    obtain ⟨o, ho, rfl⟩ := (Resolution.mem_web_iff hown).1 hx
    obtain ⟨o', ho', rfl⟩ := (Resolution.mem_web_iff hown').1 hy
    rw [show r.module = r'.module from h, ho'] at ho
    exact (Except.ok.inj ho).symm

/-- A list of references resolves to all that its members resolve to. -/
theorem mem_resolveAll_iff {rs : List Import.Ref} {resolutions : List Resolution}
    (h : resolveAll p path rs = .ok resolutions) :
    x ∈ resolutions ↔ ∃ r ∈ rs, ∃ own, resolveRef p path r = .ok own ∧ x ∈ own := by
  induction rs generalizing resolutions with
  | nil =>
    cases h
    exact iff_of_false List.not_mem_nil fun ⟨_, hr, _⟩ => List.not_mem_nil hr
  | cons r rest ih =>
    unfold resolveAll at h
    obtain ⟨own, hown, h⟩ := bind_eq_ok_iff.1 h
    obtain ⟨later, hlater, h⟩ := bind_eq_ok_iff.1 h
    cases h
    rw [List.mem_append, ih hlater]
    simp only [List.mem_cons, exists_eq_or_imp, hown, Except.ok.injEq, exists_eq_left']

theorem mayResolve_of_ofContent {m : Machine} {content : ByteArray} {imports : FileImports}
    (h : (ofContent m p path content).result = .ok imports) (hx : x ∈ imports.resolutions) :
    MayResolve p path x := by
  obtain ⟨rs, hrs, h⟩ := Journal.result_bind_eq_ok_iff.1 h
  have hofRefs := Journal.result_ofExcept_eq_ok_iff.1 h
  unfold ofRefs at hofRefs
  split at hofRefs
  · rename_i resolutions hall
    obtain rfl := Except.ok.inj hofRefs
    exact ⟨m, content, rs, hrs, (mem_resolveAll_iff hall).1 hx⟩
  · cases hofRefs

end FileImports

/-! ## The graph -/

namespace ModuleGraph

/-- In the graph a specifier of a file is the name of one thing: it leads to one file, or it is ignored,
or it is broken with one candidate. -/
structure MeansOne (g : ModuleGraph) : Prop where
  target : ∀ e ∈ g.edges, ∀ e' ∈ g.edges, e.source = e'.source → e.specifier = e'.specifier →
    e.target = e'.target
  edge_not_ignored : ∀ e ∈ g.edges, ∀ n, g.nodes[e.source]? = some n → e.specifier ∉ n.ignored
  edge_not_broken : ∀ e ∈ g.edges, ∀ n, g.nodes[e.source]? = some n →
    ∀ b ∈ n.broken, b.specifier ≠ e.specifier
  broken_not_ignored : ∀ n ∈ g.nodes, ∀ b ∈ n.broken, b.specifier ∉ n.ignored
  /-- Where two records agree up to the candidate, there is nothing left to compare. -/
  candidate : ∀ n ∈ g.nodes, ∀ b ∈ n.broken, ∀ b' ∈ n.broken, b.specifier = b'.specifier →
    b.candidate = b'.candidate

variable {p : Project} {results : List (String × FileImports)} {e : Edge}

/-- An edge comes from a resolution of the file where it begins. -/
theorem exists_resolution_of_mem_edges (h : e ∈ (ofImports results).edges) :
    ∃ path imports, results[e.source]? = some (path, imports) ∧ ∃ r ∈ imports.resolutions,
      r.specifier = e.specifier ∧ ∃ file, r.outcome = .internal file ∧
        (results.map (·.1)).idxOf? file = some e.target := by
  obtain ⟨i, path, imports, hi, he⟩ := mem_edgesFrom_iff.1 h
  obtain ⟨r, hr, hedge⟩ := edgeOf_mem he
  obtain ⟨file, target, hinternal, -, htarget, rfl⟩ := edgeOf?_eq_some_iff.1 hedge
  rw [Nat.zero_add]
  exact ⟨path, imports, hi, r, hr, rfl, file, hinternal, htarget⟩

theorem getElem?_nodes_ofImports {i : Nat} {n : Node} :
    (ofImports results).nodes[i]? = some n ↔
      ∃ path imports, results[i]? = some (path, imports) ∧ n = nodeOf path imports := by
  simp [ofImports, eq_comm]

/-- Whatever the project knows and whatever its files hold: no two resolutions of a file agree in the
specifier and differ in what comes of it, and so the graph of a project gives each specifier of a file
one meaning. -/
theorem specifier_means_one (p : Project) :
    (∀ path x y, FileImports.MayResolve p path x → FileImports.MayResolve p path y →
      x.specifier = y.specifier → x.outcome = y.outcome) ∧
    ∀ results : List (String × FileImports), (∀ path imports, (path, imports) ∈ results →
      ∃ m content, (FileImports.ofContent m p path content).result = .ok imports) →
        MeansOne (ofImports results) := by
  refine ⟨fun path x y hx hy => FileImports.outcome_eq_of_specifier hx hy, fun results hresults => ?_⟩
  have hone : ∀ {path imports}, (path, imports) ∈ results → ∀ x ∈ imports.resolutions,
      ∀ y ∈ imports.resolutions, x.specifier = y.specifier → x.outcome = y.outcome := by
    intro path imports hmem x hx y hy
    obtain ⟨m, content, hcontent⟩ := hresults path imports hmem
    exact FileImports.outcome_eq_of_specifier (FileImports.mayResolve_of_ofContent hcontent hx)
      (FileImports.mayResolve_of_ofContent hcontent hy)
  have hnode : ∀ n ∈ (ofImports results).nodes, ∃ path imports, (path, imports) ∈ results ∧
      n = nodeOf path imports := by
    intro n hn
    obtain ⟨i, hi⟩ := Array.getElem?_of_mem hn
    obtain ⟨path, imports, hresult, rfl⟩ := getElem?_nodes_ofImports.1 hi
    exact ⟨path, imports, List.mem_of_getElem? hresult, rfl⟩
  constructor
  case target =>
    intro e he e' he' hsource hspecifier
    obtain ⟨path, imports, hresult, r, hr, hr', file, hfile, htarget⟩ := exists_resolution_of_mem_edges he
    obtain ⟨_, _, hresult', s, hs, hs', file', hfile', htarget'⟩ := exists_resolution_of_mem_edges he'
    -- The edges begin in one file, and so do their resolutions.
    rw [← hsource, hresult] at hresult'
    cases hresult'
    have houtcome := hone (List.mem_of_getElem? hresult) r hr s hs (hr'.trans (hspecifier.trans hs'.symm))
    rw [hfile, hfile'] at houtcome
    cases houtcome
    exact Option.some.inj (htarget.symm.trans htarget')
  case edge_not_ignored =>
    intro e he n hn hignored
    obtain ⟨path, imports, hresult, r, hr, hr', file, hfile, -⟩ := exists_resolution_of_mem_edges he
    obtain ⟨_, _, hresult', rfl⟩ := getElem?_nodes_ofImports.1 hn
    cases hresult.symm.trans hresult'
    obtain ⟨s, hs, hs', there, hthere⟩ := mem_ignored_nodeOf.1 hignored
    have houtcome := hone (List.mem_of_getElem? hresult) r hr s hs (hr'.trans hs'.symm)
    exact nomatch hfile.symm.trans (houtcome.trans hthere)
  case edge_not_broken =>
    intro e he n hn b hb hspecifier
    obtain ⟨path, imports, hresult, r, hr, hr', file, hfile, -⟩ := exists_resolution_of_mem_edges he
    obtain ⟨_, _, hresult', rfl⟩ := getElem?_nodes_ofImports.1 hn
    cases hresult.symm.trans hresult'
    obtain ⟨s, hs, hs', -, hbroken⟩ := mem_broken_nodeOf.1 hb
    have houtcome := hone (List.mem_of_getElem? hresult) r hr s hs
      (hr'.trans (hspecifier.symm.trans hs'.symm))
    exact nomatch hfile.symm.trans (houtcome.trans hbroken)
  case broken_not_ignored =>
    intro n hn b hb hignored
    obtain ⟨path, imports, hmem, rfl⟩ := hnode n hn
    obtain ⟨r, hr, hr', -, hbroken⟩ := mem_broken_nodeOf.1 hb
    obtain ⟨s, hs, hs', there, hthere⟩ := mem_ignored_nodeOf.1 hignored
    exact nomatch hbroken.symm.trans ((hone hmem r hr s hs (hr'.trans hs'.symm)).trans hthere)
  case candidate =>
    intro n hn b hb b' hb' hspecifier
    obtain ⟨path, imports, hmem, rfl⟩ := hnode n hn
    obtain ⟨r, hr, hr', -, hbroken⟩ := mem_broken_nodeOf.1 hb
    obtain ⟨s, hs, hs', -, hbroken'⟩ := mem_broken_nodeOf.1 hb'
    have houtcome := hone hmem r hr s hs (hr'.trans (hspecifier.trans hs'.symm))
    exact Outcome.broken.inj (hbroken.symm.trans (houtcome.trans hbroken'))

/-! ### A submodule under its two imports -/

def submoduleProject : Project :=
  .ofFiles ["pkg/a.py", "pkg/m.py"] ["."] [".py"] [] fun _ => .ok false

def submoduleSource : List Char := "from . import a\nfrom .a import b\n".toList

def submoduleRefs : List Import.Ref := [⟨1, "", ["a"], 1, .python⟩, ⟨2, "a", ["b"], 1, .python⟩]

def submoduleImports : FileImports :=
  ⟨[".", ".a"], [⟨".a", 1, .internal "pkg/a.py"⟩, ⟨".a", 2, .internal "pkg/a.py"⟩]⟩

theorem imports_submoduleSource :
    Import.Indented.imports (String.ofList submoduleSource) = .ok submoduleRefs := by
  apply Import.Indented.imports_of_source
  · with_unfolding_all rfl
  · decide +kernel
  · with_unfolding_all rfl
  · decide +kernel

theorem specifier_means_one_submodule :
    let p := submoduleProject
    FileImports.MayResolve p "pkg/m.py" ⟨".a", 1, .internal "pkg/a.py"⟩ ∧
      FileImports.MayResolve p "pkg/m.py" ⟨".a", 2, .internal "pkg/a.py"⟩ ∧
      MeansOne (ofImports [("pkg/m.py", submoduleImports)]) := by
  intro p
  let content : ByteArray := ⟨(submoduleSource.map fun c => c.toNat.toUInt8).toArray⟩
  have hdecode : Text.Utf8.decode content = .ok submoduleSource := by with_unfolding_all rfl
  have hlines : Text.unifyNewlines submoduleSource = submoduleSource := by with_unfolding_all rfl
  have hrefs : (FileImports.refs .ample "pkg/m.py" content).result = .ok submoduleRefs := by
    unfold FileImports.refs
    rw [hdecode]
    simp only [hlines]
    unfold FileImports.refsOf
    rw [if_pos (by decide +kernel), imports_submoduleSource]
    rfl
  have hall : FileImports.ofRefs p "pkg/m.py" submoduleRefs = .ok submoduleImports := by
    with_unfolding_all rfl
  have himports : (FileImports.ofContent .ample p "pkg/m.py" content).result =
      .ok submoduleImports := by
    exact Journal.result_bind_eq_ok_iff.2 ⟨_, hrefs, Journal.result_ofExcept_eq_ok_iff.2 hall⟩
  have hresolve : ∀ x ∈ submoduleImports.resolutions, FileImports.MayResolve p "pkg/m.py" x :=
    fun x => FileImports.mayResolve_of_ofContent himports
  have hfirst := hresolve ⟨".a", 1, .internal "pkg/a.py"⟩ (by decide)
  have hsecond := hresolve ⟨".a", 2, .internal "pkg/a.py"⟩ (by decide)
  refine ⟨hfirst, hsecond, (specifier_means_one p).2 _ fun path imports hmem => ?_⟩
  obtain ⟨rfl, rfl⟩ := Prod.mk.inj (List.mem_singleton.1 hmem)
  exact ⟨.ample, content, himports⟩

end ModuleGraph

end LayerGate
