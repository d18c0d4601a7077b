import LayerGate.Proofs.NameSplitting
import LayerGate.Proofs.SourceRoots

/-!
# The file of a module

The module index reads names off files, a relative import makes files out of names.  Both come to the
same file: the module of the name if it is scanned, else the package.
-/

namespace LayerGate

/-! ## Identifiers -/

theorem Text.not_mem_of_isIdentifier {c : Char} {cs : List Char} (h : isIdentifier cs = true)
    (hstart : isIdentifierStart c = false) (hpart : isIdentifierPart c = false) : c ∉ cs := by
  cases cs with
  | nil => nofun
  | cons d ds =>
    unfold isIdentifier at h
    obtain ⟨hd, hds⟩ := Bool.and_eq_true_iff.1 h
    intro hc
    rcases List.mem_cons.1 hc with rfl | hc
    · exact absurd (hd.symm.trans hstart) (by decide)
    · exact absurd ((List.all_eq_true.1 hds c hc).symm.trans hpart) (by decide)

namespace Path

variable {path root name stem last : String} {front parts rest : List String} {cs before after : List Char}

/-- Identifiers that are not the name of a package's own file. -/
structure NamesModule (parts : List String) : Prop where
  ne_nil : parts ≠ []
  identifiers : ∀ part ∈ parts, Text.isIdentifier part.toList = true
  last_ne : parts.getLast? ≠ some "__init__"

theorem NamesModule.no_dot (h : NamesModule parts) : ∀ part ∈ parts, '.' ∉ part.toList :=
  fun part hpart => Text.not_mem_of_isIdentifier (h.identifiers part hpart) (by decide) (by decide)

theorem NamesModule.exists_char (h : NamesModule parts) :
    ∀ part ∈ parts, ∃ c ∈ part.toList, c ≠ '.' := by
  intro part hpart
  have hne : part.toList ≠ [] := by
    intro hnil
    have hidentifier := h.identifiers part hpart
    rw [hnil] at hidentifier
    cases hidentifier
  obtain ⟨c, hc⟩ := List.exists_mem_of_ne_nil _ hne
  exact ⟨c, hc, fun hdot => h.no_dot part hpart (hdot ▸ hc)⟩

theorem NamesModule.no_slash (h : NamesModule parts) : ∀ part ∈ parts, '/' ∉ part.toList :=
  fun part hpart => Text.not_mem_of_isIdentifier (h.identifiers part hpart) (by decide) (by decide)

/-! ## Extensions -/

theorem fromLastDot?_append (h : '.' ∉ after) :
    fromLastDot? (before ++ '.' :: after) = some (before, '.' :: after) := by
  have hspan : (before ++ '.' :: after).reverse.span (· ≠ '.') = (after.reverse, '.' :: before.reverse) := by
    rw [List.span_eq_takeWhile_dropWhile, List.reverse_append, List.reverse_cons, List.append_assoc,
      List.singleton_append]
    have hall : ∀ c ∈ after.reverse, decide (c ≠ '.') = true := by
      intro c hc
      exact decide_eq_true fun he => h (List.mem_reverse.1 (he ▸ hc))
    rw [List.takeWhile_append_of_pos hall, List.dropWhile_append_of_pos hall]
    simp
  unfold fromLastDot?
  rw [hspan]
  simp

theorem eq_append_of_fromLastDot? (h : fromLastDot? cs = some (before, after)) :
    cs = before ++ after := by
  unfold fromLastDot? at h
  rw [List.span_eq_takeWhile_dropWhile] at h
  have hback := List.takeWhile_append_dropWhile (p := fun c => decide (c ≠ '.')) (l := cs.reverse)
  split at h
  · cases h
  · rename_i after' c before' hspan
    obtain ⟨hafter, hbefore⟩ := Prod.mk.inj hspan
    -- What is left behind the span starts with the dot that ended it.
    have hdot := List.head?_dropWhile_not (fun c => decide (c ≠ '.')) cs.reverse
    rw [hbefore] at hdot
    obtain rfl : c = '.' := by simpa using hdot
    cases h
    rw [hafter, hbefore] at hback
    rw [← List.reverse_reverse cs, ← hback]
    simp

/-- Python files are those with the suffix, behind something that is no dot. -/
theorem extension_eq_py_iff : extension path = ".py" ↔
    ∃ stem, lastName path = stem ++ ".py" ∧ ∃ c ∈ stem.toList, c ≠ '.' := by
  unfold extension
  constructor
  · intro h
    split at h
    · rename_i before ext hdot
      split at h
      · rename_i hany
        have htext := eq_append_of_fromLastDot? hdot
        refine ⟨String.ofList before, ?_, ?_⟩
        · rw [← h, ← String.ofList_append, ← htext, String.ofList_toList]
        · rw [String.toList_ofList]
          simpa using hany
      · exact absurd h (by decide)
    · exact absurd h (by decide)
  · rintro ⟨stem, hlast, c, hc, hne⟩
    have hchars : (lastName path).toList = stem.toList ++ '.' :: ['p', 'y'] := by
      rw [hlast, String.toList_append]
      rfl
    rw [hchars, fromLastDot?_append (by decide)]
    have hany : stem.toList.any (· ≠ '.') = true := List.any_eq_true.2 ⟨c, hc, decide_eq_true hne⟩
    simp only [hany]
    rfl

/-! ## Names of files -/

theorem dropPySuffix_append : dropPySuffix (stem ++ ".py") = stem := by
  have hends : (stem ++ ".py").endsWith ".py" = true := by
    rw [endsWith_iff, String.toList_append]
    exact List.suffix_append ..
  unfold dropPySuffix
  rw [if_pos hends]
  apply String.toList_inj.1
  show ((stem ++ ".py").dropEnd 3).copy.toList = stem.toList
  rw [String.toList_copy_dropEnd, String.toList_append, List.length_append]
  exact List.take_left

theorem moduleNames_concat : moduleNames (front ++ [stem ++ ".py"]) =
    front ++ if stem = "__init__" then [] else [stem] := by
  unfold moduleNames
  rw [List.getLast?_concat, List.dropLast_concat]
  simp only [dropPySuffix_append]

/-- A name is given if identifiers are left below the root, and it joins them with dots. -/
theorem moduleName_eq_ok_iff_rest : moduleName path root = .ok name ↔ ∃ rest,
    Text.split '/' (normalized path) = names (normalized root) ++ rest ∧ moduleNames rest ≠ [] ∧
      (∀ part ∈ moduleNames rest, Text.isIdentifier part.toList = true) ∧
        name = ".".intercalate (moduleNames rest) := by
  unfold moduleName
  constructor
  · intro hok
    split at hok
    · cases hok
    · rename_i rest hbelow
      simp only at hok
      split at hok
      · rename_i hnames
        exact ⟨rest, below?_eq_some_iff.1 hbelow, hnames.1, List.all_eq_true.1 hnames.2,
          (Except.ok.inj hok).symm⟩
      · cases hok
  · rintro ⟨rest, hsplit, hne, hall, rfl⟩
    rw [below?_eq_some_iff.2 hsplit]
    exact if_pos ⟨hne, List.all_eq_true.2 hall⟩

theorem moduleName_eq_ok_iff (h : NamesModule parts) :
    moduleName path root = .ok (".".intercalate parts) ↔ ∃ rest,
      Text.split '/' (normalized path) = names (normalized root) ++ rest ∧ moduleNames rest = parts := by
  rw [moduleName_eq_ok_iff_rest]
  constructor
  · rintro ⟨rest, hsplit, hne, hall, hjoined⟩
    refine ⟨rest, hsplit, Text.intercalate_inj rfl hne h.ne_nil (fun part hpart => ?_) h.no_dot
      hjoined.symm⟩
    exact Text.not_mem_of_isIdentifier (hall part hpart) (by decide) (by decide)
  · rintro ⟨rest, hsplit, rfl⟩
    exact ⟨rest, hsplit, h.ne_nil, h.identifiers, rfl⟩

/-- The names of a Python file are read off its path. -/
theorem names_of_pyFile {folder : List String} (hfolder : ∀ n ∈ folder, '/' ∉ n.toList)
    (hnames : ∀ n ∈ front ++ [stem], '/' ∉ n.toList)
    (hpath : path = ofNames (folder ++ (front ++ [stem ++ ".py"]))) :
    lastName path = stem ++ ".py" ∧ Text.split '/' path = folder ++ (front ++ [stem ++ ".py"]) := by
  obtain ⟨hfront, hstem⟩ := List.forall_mem_append.1 hnames
  have hlast : '/' ∉ (stem ++ ".py").toList := by
    rw [String.toList_append, List.mem_append, not_or]
    exact ⟨hstem stem (List.mem_singleton_self _), by decide⟩
  have hall : ∀ n ∈ folder ++ (front ++ [stem ++ ".py"]), '/' ∉ n.toList :=
    List.forall_mem_append.2
      ⟨hfolder, List.forall_mem_append.2 ⟨hfront, List.forall_mem_singleton.2 hlast⟩⟩
  have hsplit : Text.split '/' path = folder ++ (front ++ [stem ++ ".py"]) := by
    rw [hpath]
    exact split_ofNames (by simp) hall
  refine ⟨?_, hsplit⟩
  rw [lastName, hsplit, ← List.append_assoc, List.getLast?_concat]
  rfl

end Path

namespace Resolution

variable {names front : List String} {last : String}

open Project (pySuffix)

/-- The file that a module is when it is no package. -/
def moduleFile (names : List String) : String := Path.ofNames names ++ pySuffix

theorem moduleFile_concat : moduleFile (front ++ [last]) = Path.ofNames (front ++ [last ++ pySuffix]) :=
  Path.ofNames_concat_append

theorem packageFile_eq (hne : names ≠ []) :
    packageFile names = Path.ofNames names ++ "/__init__" ++ pySuffix := by
  show Path.ofNames (names ++ ["__init__" ++ pySuffix]) = _
  rw [Path.ofNames_concat hne]
  simp only [String.append_assoc]
  rfl

theorem moduleCandidates_eq (hne : names ≠ []) :
    moduleCandidates names = [moduleFile names, packageFile names] := by
  obtain ⟨name, rest, rfl⟩ := List.exists_cons_of_ne_nil hne
  rw [packageFile_eq hne]
  rfl

/-- A dot comes before a slash, and so does the module before the package of its name. -/
theorem compare_moduleFile (hne : names ≠ []) :
    compare (moduleFile names) (packageFile names) = .lt := by
  have hlt : moduleFile names < packageFile names := by
    rw [packageFile_eq hne, moduleFile, String.append_assoc, String.lt_iff_toList_lt,
      String.toList_append, String.toList_append]
    exact List.append_left_lt (by decide)
  exact if_pos hlt

/-- Behind a folder, the names of a Python file make it the file of a module or that of a package. -/
theorem eq_moduleFile_or_eq_packageFile {folder rest : List String} {file stem : String}
    (hsplit : Text.split '/' file = folder ++ rest) (hlast : Path.lastName file = stem ++ ".py")
    (hne : rest ≠ []) : file = moduleFile (folder ++ Path.moduleNames rest) ∨
      file = packageFile (folder ++ Path.moduleNames rest) := by
  obtain ⟨front, last, rfl⟩ := (List.eq_nil_or_concat rest).resolve_left hne
  rw [List.concat_eq_append] at hsplit ⊢
  obtain rfl : last = stem ++ ".py" := by
    rw [← hlast, Path.lastName, hsplit, ← List.append_assoc, List.getLast?_concat]
    rfl
  rw [← @Path.ofNames_split file, hsplit, Path.moduleNames_concat]
  by_cases hinit : stem = "__init__"
  · rw [if_pos hinit, hinit, List.append_nil, ← List.append_assoc]
    exact .inr rfl
  · rw [if_neg hinit, ← List.append_assoc, ← List.append_assoc, moduleFile_concat]
    exact .inl rfl

theorem packageFile_ne_moduleFile (hne : names ≠ []) : packageFile names ≠ moduleFile names := by
  intro heq
  have hlt := compare_moduleFile hne
  rw [heq, Std.ReflOrd.compare_self] at hlt
  cases hlt

end Resolution

namespace ModuleIndex

open LayerGate.Path (NamesModule)
open Resolution (moduleFile moduleCandidates packageFile moduleCandidates_eq moduleFile_concat
  eq_moduleFile_or_eq_packageFile)

variable {files folder parts : List String} {root file name : String}

theorem nameOf?_root : nameOf? [root] file = some name ↔
    Path.extension file = ".py" ∧ Path.moduleName file root = .ok name := by
  unfold nameOf? nameBelow?
  by_cases hpy : Path.extension file = ".py"
  · rw [if_pos hpy, List.findSome?_singleton, toOption_eq_some_iff]
    exact (and_iff_right hpy).symm
  · rw [if_neg hpy]
    exact iff_of_false nofun fun h => hpy h.1

/-- A Python file that has these names below the folder. -/
structure NamedIn (folder : List String) (file : String) (parts : List String) : Prop where
  python : Path.extension file = ".py"
  below : ∃ rest, Text.split '/' file = folder ++ rest ∧ Path.moduleNames rest = parts

theorem NamedIn.eq_or_eq (h : NamesModule parts) (hin : NamedIn folder file parts) :
    file = moduleFile (folder ++ parts) ∨ file = packageFile (folder ++ parts) := by
  obtain ⟨stem, hlast, -⟩ := Path.extension_eq_py_iff.1 hin.python
  obtain ⟨rest, hsplit, rfl⟩ := hin.below
  refine eq_moduleFile_or_eq_packageFile hsplit hlast ?_
  rintro rfl
  exact h.ne_nil rfl

theorem namedIn_moduleFile (hfolder : ∀ name ∈ folder, '/' ∉ name.toList) (h : NamesModule parts) :
    NamedIn folder (moduleFile (folder ++ parts)) parts := by
  obtain ⟨front, last, rfl⟩ := (List.eq_nil_or_concat parts).resolve_left h.ne_nil
  rw [List.concat_eq_append] at h ⊢
  have hpath : moduleFile (folder ++ (front ++ [last])) =
      Path.ofNames (folder ++ (front ++ [last ++ ".py"])) := by
    rw [← List.append_assoc, moduleFile_concat, List.append_assoc]
    rfl
  have hinit : last ≠ "__init__" := by
    rintro rfl
    exact h.last_ne List.getLast?_concat
  obtain ⟨hlast, hsplit⟩ := Path.names_of_pyFile hfolder h.no_slash hpath
  refine ⟨Path.extension_eq_py_iff.2 ⟨last, hlast, h.exists_char last ?_⟩, _, hsplit, ?_⟩
  · exact List.mem_append_right _ (List.mem_singleton_self _)
  · rw [Path.moduleNames_concat, if_neg hinit]

theorem namedIn_packageFile (hfolder : ∀ name ∈ folder, '/' ∉ name.toList) (h : NamesModule parts) :
    NamedIn folder (packageFile (folder ++ parts)) parts := by
  have hpath : packageFile (folder ++ parts) = Path.ofNames (folder ++ (parts ++ ["__init__" ++ ".py"])) := by
    rw [← List.append_assoc]
    rfl
  have hslash : ∀ name ∈ parts ++ ["__init__"], '/' ∉ name.toList :=
    List.forall_mem_append.2 ⟨h.no_slash, List.forall_mem_singleton.2 (by decide)⟩
  obtain ⟨hlast, hsplit⟩ := Path.names_of_pyFile hfolder hslash hpath
  refine ⟨Path.extension_eq_py_iff.2 ⟨"__init__", hlast, '_', by decide, by decide⟩, _, hsplit, ?_⟩
  rw [Path.moduleNames_concat, if_pos rfl, List.append_nil]

/-- A file has the name if it is one that an import looks for under that name. -/
theorem nameOf?_eq_some_iff_mem (h : NamesModule parts) (hfile : Path.normalized file = file) :
    nameOf? [root] file = some (".".intercalate parts) ↔
      file ∈ moduleCandidates (Path.names (Path.normalized root) ++ parts) := by
  have hne : Path.names (Path.normalized root) ++ parts ≠ [] := by simp [h.ne_nil]
  have hfolder : ∀ name ∈ Path.names (Path.normalized root), '/' ∉ name.toList :=
    fun name hname => (Path.isStep_of_mem_names hname).no_slash
  rw [nameOf?_root, Path.moduleName_eq_ok_iff h, hfile, moduleCandidates_eq hne, List.mem_pair]
  constructor
  · rintro ⟨hpython, hbelow⟩
    exact NamedIn.eq_or_eq h ⟨hpython, hbelow⟩
  · rintro (rfl | rfl)
    · exact ⟨(namedIn_moduleFile hfolder h).python, (namedIn_moduleFile hfolder h).below⟩
    · exact ⟨(namedIn_packageFile hfolder h).python, (namedIn_packageFile hfolder h).below⟩

theorem find?_pair_eq_some_iff {a b : String} : [a, b].find? (files.contains ·) = some file ↔
    a ∈ files ∧ file = a ∨ a ∉ files ∧ b ∈ files ∧ file = b := by
  by_cases ha : a ∈ files <;> by_cases hb : b ∈ files <;> simp [ha, hb, eq_comm]

/-- The index gives the first of the files that an import looks for. -/
theorem file?_eq_find? (h : NamesModule parts) (hsorted : StrictlySorted files)
    (hnormal : ∀ file ∈ files, Path.normalized file = file) :
    (ofFiles files [root]).file? (".".intercalate parts) =
      (moduleCandidates (Path.names (Path.normalized root) ++ parts)).find? (files.contains ·) := by
  have hne : Path.names (Path.normalized root) ++ parts ≠ [] := by simp [h.ne_nil]
  have hname : ∀ file ∈ files, (∃ i, NamedBelow [root] file (".".intercalate parts) i) ↔
      file = moduleFile (Path.names (Path.normalized root) ++ parts) ∨
        file = packageFile (Path.names (Path.normalized root) ++ parts) := by
    intro file hfile
    rw [← nameOf?_eq_some_iff, nameOf?_eq_some_iff_mem h (hnormal file hfile), moduleCandidates_eq hne,
      List.mem_pair]
  have hlt := Resolution.compare_moduleFile hne
  have hdiffer := Resolution.packageFile_ne_moduleFile hne
  rw [moduleCandidates_eq hne]
  generalize moduleFile (Path.names (Path.normalized root) ++ parts) = module at hname hlt hdiffer ⊢
  generalize packageFile (Path.names (Path.normalized root) ++ parts) = package at hname hlt hdiffer ⊢
  have hgt : compare package module ≠ .lt := by
    rw [Std.OrientedOrd.eq_swap, hlt]
    decide
  apply Option.ext
  intro file
  rw [file?_ofFiles_eq_some_iff hsorted, find?_pair_eq_some_iff]
  constructor
  · -- The package is not least where the module is a file too.
    rintro ⟨hfile, hnamed, hleast⟩
    rcases (hname file hfile).1 hnamed with rfl | rfl
    · exact .inl ⟨hfile, rfl⟩
    · refine .inr ⟨fun hmodule => ?_, hfile, rfl⟩
      obtain ⟨i, hi⟩ := (hname module hmodule).2 (.inl rfl)
      rcases hleast module hmodule i hi with heq | hless
      · exact hdiffer heq
      · exact hgt hless
  · rintro (⟨hmodule, rfl⟩ | ⟨hmodule, hpackage, rfl⟩)
    · refine ⟨hmodule, (hname _ hmodule).2 (.inl rfl), fun other hother i hi => ?_⟩
      rcases (hname other hother).1 ⟨i, hi⟩ with rfl | rfl
      · exact .inl rfl
      · exact .inr hlt
    · refine ⟨hpackage, (hname _ hpackage).2 (.inr rfl), fun other hother i hi => ?_⟩
      rcases (hname other hother).1 ⟨i, hi⟩ with rfl | rfl
      · exact absurd hother hmodule
      · exact .inl rfl

end ModuleIndex

/-! ## References to a module -/

namespace Resolution

open Import (IsWord IsSpelled spelled spelled_inj)

variable {p : Project} {file f : String} {r : Import.Ref} {parts package : List String} {o : Outcome}
  {own : List Resolution}

/-- The reference is to the module of these names behind its dots: it imports the module as such, or
the last name from the others. -/
def Asks (r : Import.Ref) (parts : List String) : Prop :=
  r.names = [] ∧ moduleParts r = parts ∨ ∃ name ∈ r.names, moduleParts r ++ [name] = parts

/-- The reference is resolved, and the specifier of these names comes to this and to nothing else. -/
def Picks (p : Project) (file : String) (r : Import.Ref) (parts : List String) (o : Outcome) : Prop :=
  ∃ own, dotted p file r = .ok own ∧ (⟨spelled r.level parts, r.line, o⟩ : Resolution) ∈ own ∧
    ∀ x ∈ own, x.specifier = spelled r.level parts → x.outcome = o

theorem picks_iff (h : IsSpelled r) (hown : dotted p file r = .ok own) :
    Picks p file r parts o ↔ (⟨spelled r.level parts, r.line, o⟩ : Resolution) ∈ own := by
  constructor
  · rintro ⟨own', hown', hmem, -⟩
    exact Except.ok.inj (hown.symm.trans hown') ▸ hmem
  · intro hmem
    refine ⟨own, hown, hmem, fun x hx hspecifier => ?_⟩
    obtain ⟨ps, hps, hsame, hmeans⟩ := dotted_tells h hown hx
    obtain ⟨qs, hqs, hsame', hmeans'⟩ := dotted_tells h hown hmem
    obtain ⟨-, rfl⟩ := spelled_inj hps hqs (hsame.symm.trans (hspecifier.trans hsame'))
    exact hmeans.unique hmeans' rfl

theorem isWord_of_asks (h : IsSpelled r) (hasks : Asks r parts) : ∀ part ∈ parts, IsWord part := by
  rcases hasks with ⟨-, rfl⟩ | ⟨name, hname, rfl⟩
  · exact isWord_moduleParts h
  · exact isWord_moduleParts_concat h hname

/-- An absolute import of a module comes to the file of its name. -/
theorem picks_absolute (h : IsSpelled r) (hlevel : r.level = 0) (hasks : Asks r parts)
    (hfile : p.modules.file? (".".intercalate parts) = some f) :
    Picks p file r parts (.internal f) := by
  have hspelled : spelled r.level parts = ".".intercalate parts := by
    rw [hlevel]
    exact String.empty_append
  rw [picks_iff h (if_pos hlevel), mem_absolute_iff, hspelled]
  rcases hasks with ⟨hnames, rfl⟩ | ⟨name, hname, rfl⟩
  · refine .inr ⟨.inl hnames, ?_⟩
    rw [absoluteModule, module_eq h, ModuleIndex.longest?_of_file? (moduleParts_ne_nil h hlevel)
      (isWord_moduleParts h) hfile]
  · have hfull : r.module ++ "." ++ name = ".".intercalate (moduleParts r ++ [name]) := by
      rw [String.intercalate_append_of_ne_nil (moduleParts_ne_nil h hlevel) (List.cons_ne_nil _ _),
        String.intercalate_singleton, ← module_eq h]
    refine .inl ⟨name, hname, ?_⟩
    unfold absoluteName
    simp only [hfull, hfile]
    rfl

/-- Dots alone are looked for as the package; what stands behind them, as a module before a package. -/
theorem partsCandidates_eq {target names : List String} (hne : target ≠ [])
    (htarget : package ++ names = target) : partsCandidates package names =
      if names = [] then [packageFile target] else [moduleFile target, packageFile target] := by
  unfold partsCandidates
  split
  · rename_i hnames
    rw [← htarget, hnames, List.append_nil]
  · rw [htarget, moduleCandidates_eq hne]

/-- A relative import of a module comes to what its look-up finds. -/
theorem mem_relative_of_asks (h : IsSpelled r) (hpackage : package? file r = some package)
    (hasks : Asks r parts) (hown : relative p file r = .ok own)
    (hfind : p.find? (partsCandidates package parts) = .ok (some o)) :
    (⟨spelled r.level parts, r.line, o⟩ : Resolution) ∈ own := by
  rcases hasks with ⟨hnames, rfl⟩ | ⟨name, hname, rfl⟩
  · have hrelative : relativeNames p (package ++ moduleParts r) r.names = .ok [] := by
      rw [hnames]
      rfl
    rw [relative_of_names hpackage hrelative, if_pos (.inl hnames),
      base_of_found (by rwa [baseCandidates_eq])] at hown
    obtain rfl := Except.ok.inj hown
    rw [specifier_eq h]
    exact List.mem_append_right _ (List.mem_singleton_self _)
  · rw [mem_relative_iff hpackage (List.ne_nil_of_mem hname) hown]
    refine ⟨name, hname, .inl ⟨o, ?_, by rw [nameSpecifier_eq h]⟩⟩
    rwa [partsCandidates_concat]

/-- A reference is resolved unless the disk refuses one of its look-ups. -/
theorem dotted_ok_iff (h : IsSpelled r) : (∃ own, dotted p file r = .ok own) ↔
    ∀ candidates ∈ lookups p file r, ¬ Refuses p candidates := by
  have hresolve : dotted p file r = FileImports.resolveRef p file r := by
    unfold FileImports.resolveRef
    rw [h.python]
  rw [hresolve, exists_ok_iff, FileImports.resolveRef_error_iff]
  simp only [not_exists, not_and]

/-- What is no broken import is what the look-up found. -/
theorem picks_relative_iff (h : IsSpelled r) (hlevel : r.level ≠ 0)
    (hpackage : package? file r = some package) (hasks : Asks r parts) (ho : ∀ c, o ≠ .broken c) :
    Picks p file r parts o ↔ (∀ candidates ∈ lookups p file r, ¬ Refuses p candidates) ∧
      p.find? (partsCandidates package parts) = .ok (some o) := by
  rw [← dotted_ok_iff h]
  constructor
  · rintro ⟨own, hown, hmem, -⟩
    refine ⟨⟨own, hown⟩, ?_⟩
    obtain ⟨ps, hps, hspecifier, hmeans⟩ := dotted_tells h hown hmem
    obtain ⟨-, rfl⟩ := spelled_inj (isWord_of_asks h hasks) hps hspecifier
    obtain ⟨found, hfind, houtcome⟩ := (means_relative hlevel hpackage).1 hmeans
    cases found with
    | none => exact absurd houtcome (ho _)
    | some o' =>
      obtain rfl : o = o' := houtcome
      exact hfind
  · rintro ⟨⟨own, hown⟩, hfind⟩
    have hrelative : relative p file r = .ok own := by
      rwa [dotted, if_neg hlevel] at hown
    rw [picks_iff h hown]
    exact mem_relative_of_asks h hpackage hasks hrelative hfind

end Resolution

open Resolution

/-! ## Look-ups of a module -/

namespace Project

variable {p : Project} {a b f : String} {candidates : List String} {o : Outcome}

theorem find?_cons_eq_some_iff : p.find? (a :: candidates) = .ok (some o) ↔
    a ∈ p.files ∧ o = .internal a ∨ a ∉ p.files ∧
      (p.isFile a = .ok true ∧ o = .external (some a) ∨
        p.isFile a = .ok false ∧ p.find? candidates = .ok (some o)) := by
  rw [find?]
  by_cases ha : a ∈ p.files
  · rw [if_pos (List.contains_iff_mem.2 ha)]
    simp [ha, pure, Except.pure, eq_comm]
  · rw [if_neg fun h => ha (List.contains_iff_mem.1 h)]
    cases p.isFile a with
    | error fault => simp [ha, bind, Except.bind]
    | ok there => cases there <;> simp [ha, bind, Except.bind, pure, Except.pure, eq_comm]

theorem find?_nil_ne_some : p.find? [] ≠ .ok (some o) := nofun

/-- Of a module and its package, the package alone is looked up, or the module first.  What is scanned
first is found but where the module is passed over, or where it is there and is not scanned. -/
theorem find?_eq_internal_iff (hne : b ≠ a) (h : [a, b].find? (p.files.contains ·) = some f)
    {alone : Prop} [Decidable alone] :
    p.find? (if alone then [b] else [a, b]) = .ok (some (.internal f)) ↔
      if alone then a ∉ p.files else a ∈ p.files ∨ p.isFile a = .ok false := by
  rw [ModuleIndex.find?_pair_eq_some_iff] at h
  rcases h with ⟨ha, rfl⟩ | ⟨ha, hb, rfl⟩ <;> split
  · simp [find?_cons_eq_some_iff, find?_nil_ne_some, ha, hne.symm]
  · simp [find?_cons_eq_some_iff, ha]
  · simp [find?_cons_eq_some_iff, ha, hb]
  · simp [find?_cons_eq_some_iff, ha, hb]

theorem find?_eq_external_iff (hne : b ≠ a) {alone : Prop} [Decidable alone] :
    p.find? (if alone then [b] else [a, b]) = .ok (some (.external (some a))) ↔
      ¬ alone ∧ a ∉ p.files ∧ p.isFile a = .ok true := by
  split
  · rename_i halone
    simp [find?_cons_eq_some_iff, find?_nil_ne_some, halone, hne.symm]
  · rename_i halone
    simp [find?_cons_eq_some_iff, find?_nil_ne_some, halone, hne.symm]

open Import (IsSpelled)

/-- The index gives for a name the first of the files that the name may be, the module before the
package.  An absolute import of the name comes to that file.  A relative import that spells the same
module comes to it too, but for three things: the disk may refuse to look, a module that is there and
was not scanned is found before the package, and dots alone stand for the package. -/
theorem module_lookups_agree (files extensions : List String) (root : String)
    (aliases : List (String × String)) (isFile : String → Except Disk.Fault Bool)
    (hnormal : ∀ file ∈ files, Path.normalized file = file) {parts : List String}
    (h : Path.NamesModule parts) :
    let p := Project.ofFiles files [root] extensions aliases isFile
    let target := Path.names (Path.normalized root) ++ parts
    p.modules.file? (".".intercalate parts) = (moduleCandidates target).find? (files.contains ·) ∧
    ∀ f, p.modules.file? (".".intercalate parts) = some f →
      (∀ file r, IsSpelled r → r.level = 0 → Asks r parts → Picks p file r parts (.internal f)) ∧
      ∀ file r package names, IsSpelled r → r.level ≠ 0 → package? file r = some package →
        package ++ names = target → Asks r names →
          (Picks p file r names (.internal f) ↔
            (∀ candidates ∈ lookups p file r, ¬ Refuses p candidates) ∧
              if names = [] then moduleFile target ∉ files
              else moduleFile target ∈ files ∨ isFile (moduleFile target) = .ok false) ∧
          (Picks p file r names (.external (some (moduleFile target))) ↔
            (∀ candidates ∈ lookups p file r, ¬ Refuses p candidates) ∧
              names ≠ [] ∧ moduleFile target ∉ files ∧ isFile (moduleFile target) = .ok true) := by
  intro p target
  have hne : target ≠ [] := by simp [target, h.ne_nil]
  have hcontains : ∀ file, (sortedDistinct files).contains file = files.contains file := by
    intro file
    rw [Bool.eq_iff_iff, List.contains_iff_mem, List.contains_iff_mem, mem_sortedDistinct]
  have hindex : p.modules.file? (".".intercalate parts) =
      (moduleCandidates target).find? (files.contains ·) := by
    simp only [← hcontains]
    exact ModuleIndex.file?_eq_find? h (strictlySorted_sortedDistinct files)
      fun file hfile => hnormal file (mem_sortedDistinct.1 hfile)
  refine ⟨hindex, fun f hf => ⟨fun file r hr hlevel hasks => picks_absolute hr hlevel hasks hf,
    fun file r package names hr hlevel hpackage htarget hasks => ?_⟩⟩
  have hfirst : [moduleFile target, packageFile target].find? (p.files.contains ·) = some f := by
    rw [← moduleCandidates_eq hne]
    exact hindex.symm.trans hf
  have hcandidates := partsCandidates_eq hne htarget
  have hdiffer := packageFile_ne_moduleFile hne
  constructor
  · rw [picks_relative_iff hr hlevel hpackage hasks (by simp), hcandidates,
      find?_eq_internal_iff hdiffer hfirst]
    rfl
  · rw [picks_relative_iff hr hlevel hpackage hasks (by simp), hcandidates,
      find?_eq_external_iff hdiffer]
    rfl

/-! ### A module and a package of one name -/

theorem namesModule_x : Path.NamesModule ["x"] :=
  ⟨by decide, by decide +kernel, by decide⟩

theorem isWord_x : Import.IsWord "x" where
  nonempty := by decide
  plain c hc := by
    obtain rfl := List.mem_singleton.1 hc
    decide

/-- Both the module and the package are scanned. -/
theorem module_lookups_agree_on_module :
    let files := ["main.py", "x.py", "x/__init__.py"]
    let p := Project.ofFiles files ["."] [".py"] [] fun _ => .ok false
    (∀ file ∈ files, Path.normalized file = file) ∧ Path.NamesModule ["x"] ∧
      p.modules.file? "x" = some "x.py" ∧
      Picks p "main.py" ⟨1, "x", [], 0, .python⟩ ["x"] (.internal "x.py") ∧
      Picks p "main.py" ⟨2, "", ["x"], 1, .python⟩ ["x"] (.internal "x.py") := by
  intro files p
  have hnormal : ∀ file ∈ files, Path.normalized file = file := by decide +kernel
  obtain ⟨hindex, hall⟩ := module_lookups_agree files [".py"] "." [] (fun _ => .ok false) hnormal
    namesModule_x
  rw [String.intercalate_singleton] at hindex hall
  have hfile : p.modules.file? "x" = some "x.py" := hindex.trans (by decide +kernel)
  have habsolute : IsSpelled ⟨1, "x", [], 0, .python⟩ := ⟨rfl, .inl isWord_x.isDotted, nofun⟩
  have hrelative : IsSpelled ⟨2, "", ["x"], 1, .python⟩ :=
    ⟨rfl, .inr ⟨rfl, by decide⟩, fun name hname => List.mem_singleton.1 hname ▸ isWord_x⟩
  refine ⟨hnormal, namesModule_x, hfile, ?_, ?_⟩
  · exact (hall "x.py" hfile).1 "main.py" _ habsolute rfl (.inl ⟨rfl, by decide +kernel⟩)
  · have hlookups : ∀ candidates ∈ lookups p "main.py" ⟨2, "", ["x"], 1, .python⟩,
        ¬ Refuses p candidates := by
      rintro candidates - ⟨_, _, _, -, -, -, fault, hfault⟩
      cases hfault
    refine ((hall "x.py" hfile).2 "main.py" ⟨2, "", ["x"], 1, .python⟩ [] ["x"] hrelative (by decide)
      (by decide +kernel) (by decide +kernel) (.inr ⟨"x", by decide, by decide +kernel⟩)).1.2 ?_
    exact ⟨hlookups, .inl (by decide +kernel)⟩

/-! ### A module that is passed over -/

/-- For this module and this importing file: the index gives the first file that the name may be, and
absolute and relative imports of the module come to it without exception. -/
def LookupsAgree (files : List String) (root : String) (isFile : String → Except Disk.Fault Bool)
    (parts : List String) (file : String) : Prop :=
  (∀ file ∈ files, Path.normalized file = file) → Path.NamesModule parts →
    let p := Project.ofFiles files [root] [".py"] [] isFile
    let target := Path.names (Path.normalized root) ++ parts
    p.modules.file? (".".intercalate parts) = (moduleCandidates target).find? (files.contains ·) ∧
    ∀ f, p.modules.file? (".".intercalate parts) = some f →
      (∀ r, IsSpelled r → r.level = 0 → Asks r parts → Picks p file r parts (.internal f)) ∧
      ∀ r package names, IsSpelled r → r.level ≠ 0 → package? file r = some package →
        package ++ names = target → Asks r names → Picks p file r names (.internal f)

/-- In the first project the module is a file that was not scanned, in the second one dots alone stand
for the package beside the module. -/
theorem module_lookups_differ :
    ¬ LookupsAgree ["main.py", "x/__init__.py"] "." (fun path => .ok (path = "x.py")) ["x"] "main.py" ∧
      ¬ LookupsAgree ["x.py", "x/__init__.py", "x/m.py"] "." (fun _ => .ok false) ["x"] "x/m.py" := by
  constructor
  · intro h
    obtain ⟨hindex, hall⟩ := h (by decide +kernel) namesModule_x
    have hspelled : IsSpelled ⟨1, "x", [], 1, .python⟩ := ⟨rfl, .inl isWord_x.isDotted, nofun⟩
    obtain ⟨own, hown, hmem, -⟩ := (hall "x/__init__.py" (hindex.trans (by decide +kernel))).2 _ [] ["x"]
      hspelled (by decide) (by decide +kernel) (by decide +kernel) (.inl ⟨rfl, by decide +kernel⟩)
    have hother : dotted (.ofFiles ["main.py", "x/__init__.py"] ["."] [".py"] []
        fun path => .ok (path = "x.py")) "main.py" ⟨1, "x", [], 1, .python⟩ =
          .ok [⟨".x", 1, .external (some "x.py")⟩] := by decide +kernel
    obtain rfl := Except.ok.inj (hown.symm.trans hother)
    exact nomatch congrArg Resolution.outcome (List.mem_singleton.1 hmem)
  · intro h
    obtain ⟨hindex, hall⟩ := h (by decide +kernel) namesModule_x
    have hspelled : IsSpelled ⟨1, "", [], 1, .python⟩ := ⟨rfl, .inr ⟨rfl, by decide⟩, nofun⟩
    obtain ⟨own, hown, hmem, -⟩ := (hall "x.py" (hindex.trans (by decide +kernel))).2 _ ["x"] []
      hspelled (by decide) (by decide +kernel) (by decide +kernel) (.inl ⟨rfl, by decide +kernel⟩)
    have hother : dotted (.ofFiles ["x.py", "x/__init__.py", "x/m.py"] ["."] [".py"] []
        fun _ => .ok false) "x/m.py" ⟨1, "", [], 1, .python⟩ =
          .ok [⟨".", 1, .internal "x/__init__.py"⟩] := by decide +kernel
    obtain rfl := Except.ok.inj (hown.symm.trans hother)
    have hfile := Outcome.internal.inj (congrArg Resolution.outcome (List.mem_singleton.1 hmem))
    exact absurd hfile (by decide)

end Project

end LayerGate
