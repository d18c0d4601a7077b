import LayerGate.Proofs.ModuleFiles
import LayerGate.Proofs.ProjectPaths

/-!
# Module names tell their files

The dotted name of a Python file below a source root tells the path of the file, but for the choice
between a module and a package; and the two files that a name may stand for both have it.
-/

namespace LayerGate

/-! ## Characters exchanged -/

theorem Text.map_append {f : Char → Char} (s t : String) : (s ++ t).map f = s.map f ++ t.map f := by
  apply String.toList_inj.1
  simp only [String.toList_map, String.toList_append, List.map_append]

theorem Text.map_eq_self {f : Char → Char} {s : String} (h : ∀ c ∈ s.toList, f c = c) :
    s.map f = s := by
  apply String.toList_inj.1
  rw [String.toList_map]
  exact (List.map_congr_left h).trans (List.map_id _)

namespace Path

open Resolution (moduleFile moduleFile_concat packageFile packageFile_eq eq_moduleFile_or_eq_packageFile)

variable {path root name last : String} {parts front : List String}

/-- The name with slashes for its dots. -/
def slashed (name : String) : String := name.map fun c => if c = '.' then '/' else c

theorem slashed_append (s t : String) : slashed (s ++ t) = slashed s ++ slashed t := Text.map_append s t

theorem slashed_eq_self (h : '.' ∉ name.toList) : slashed name = name := by
  refine Text.map_eq_self fun c hc => if_neg ?_
  rintro rfl
  exact h hc

theorem slashed_intercalate (h : ∀ part ∈ parts, '.' ∉ part.toList) :
    slashed (".".intercalate parts) = ofNames parts := by
  induction parts with
  | nil => decide +kernel
  | cons part parts ih =>
    obtain ⟨hpart, hparts⟩ := List.forall_mem_cons.1 h
    cases parts with
    | nil =>
      rw [String.intercalate_singleton, slashed_eq_self hpart]
      exact (String.intercalate_singleton ..).symm
    | cons next parts =>
      rw [String.intercalate_cons_cons, slashed_append, slashed_append, slashed_eq_self hpart, ih hparts,
        ofNames_cons (List.cons_ne_nil _ _)]
      have hdot : slashed "." = "/" := by decide +kernel
      rw [hdot]

/-- The names of a cleaned up path are those of the path with slashes for backslashes. -/
theorem names_normalized (path : String) : names (normalized path) =
    names (path.map fun c => if c = '\\' then '/' else c) :=
  names_ofNames fun _ h => isStep_of_mem_names h

theorem normalized_of_slashes (text : String) (h : path.map (fun c => if c = '\\' then '/' else c) = text) :
    normalized path = ofNames (names text) := by
  rw [normalized, h]

/-! ## From a name to the file -/

/-- The last name of the cleaned up path ends as that of a Python file does. -/
def EndsInPy (path : String) : Prop := (lastName (normalized path)).endsWith ".py" = true

theorem EndsInPy.exists_stem (h : EndsInPy path) : ∃ stem, lastName (normalized path) = stem ++ ".py" := by
  obtain ⟨stem, hstem⟩ := endsWith_iff.1 h
  refine ⟨String.ofList stem, String.toList_inj.1 ?_⟩
  rw [String.toList_append, String.toList_ofList, hstem]

theorem isDown_of_isIdentifier (h : Text.isIdentifier name.toList = true) : IsDown name where
  no_slash := Text.not_mem_of_isIdentifier h (by decide) (by decide)
  ne_empty := by
    rintro rfl
    exact absurd h (by decide)
  ne_dot := by
    rintro rfl
    exact absurd h (by decide)
  ne_dots := by
    rintro rfl
    exact absurd h (by decide)

theorem packageFile_text (hne : parts ≠ []) : packageFile parts = ofNames parts ++ "/__init__.py" := by
  rw [packageFile_eq hne, String.append_assoc]
  rfl

theorem normalized_eq_ofNames (path : String) : normalized path = ofNames (names (normalized path)) := by
  rw [names_normalized, normalized]

/-- Joined with the folder, the text of a name is the text of all its names. -/
theorem join_slashed (hne : parts ≠ []) (hparts : ∀ part ∈ parts, Text.isIdentifier part.toList = true)
    (root ext : String) : join (normalized root) (slashed (".".intercalate parts) ++ ext) =
      ofNames (names (normalized root) ++ parts) ++ ext := by
  have hfolder : ∀ n ∈ names (normalized root), IsStep n := fun _ hn => isStep_of_mem_names hn
  have hdown : ∀ part ∈ parts, IsStep part := fun part hpart =>
    (isDown_of_isIdentifier (hparts part hpart)).toIsStep
  have hdots : ∀ part ∈ parts, '.' ∉ part.toList := fun part hpart =>
    Text.not_mem_of_isIdentifier (hparts part hpart) (by decide) (by decide)
  rw [slashed_intercalate hdots, normalized_eq_ofNames root,
    join_ofNames hfolder (relative_ofNames_append hne hdown), names_ofNames hfolder]
  split
  · rename_i hnil
    rw [hnil, List.nil_append]
  · rename_i hfolders
    have hsplit : ofNames (names (normalized root) ++ parts) =
        ofNames (names (normalized root)) ++ "/" ++ ofNames parts :=
      String.intercalate_append_of_ne_nil hfolders hne
    rw [hsplit]
    simp only [String.append_assoc]

/-- The path of a file with this name is that of the module or that of the package. -/
theorem normalized_of_moduleName (hpy : EndsInPy path) (h : moduleName path root = .ok name) :
    normalized path = join (normalized root) (slashed name ++ ".py") ∨
      normalized path = join (normalized root) (slashed name ++ "/__init__.py") := by
  obtain ⟨rest, hsplit, hne, hall, rfl⟩ := moduleName_eq_ok_iff_rest.1 h
  obtain ⟨stem, hstem⟩ := hpy.exists_stem
  have hrest : rest ≠ [] := by
    rintro rfl
    exact hne rfl
  have hfile := eq_moduleFile_or_eq_packageFile hsplit hstem hrest
  rw [packageFile_text (by simp [hne]), moduleFile] at hfile
  rw [join_slashed hne hall, join_slashed hne hall]
  exact hfile

/-! ## From the file to a name -/

/-- A step that is written without backslashes. -/
structure IsPlainStep (name : String) : Prop extends IsStep name where
  no_backslash : '\\' ∉ name.toList

theorem isPlainStep_of_isIdentifier (h : Text.isIdentifier name.toList = true) : IsPlainStep name where
  toIsStep := (isDown_of_isIdentifier h).toIsStep
  no_backslash := Text.not_mem_of_isIdentifier h (by decide) (by decide)

theorem isPlainStep_pyFile (h : Text.isIdentifier name.toList = true) : IsPlainStep (name ++ ".py") where
  toIsStep := ((isDown_of_isIdentifier h).append (by decide)).toIsStep
  no_backslash := by
    rw [String.toList_append, List.mem_append, not_or]
    exact ⟨(isPlainStep_of_isIdentifier h).no_backslash, by decide⟩

/-- Steps that are written behind a root stand behind its names when both are cleaned up. -/
theorem normalized_below {steps : List String} (h : ∀ n ∈ steps, IsPlainStep n) (root : String) :
    normalized (root ++ "/" ++ ofNames steps) = ofNames (names (normalized root) ++ steps) := by
  have hsame : (ofNames steps).map (fun c => if c = '\\' then '/' else c) = ofNames steps := by
    refine Text.map_eq_self fun c hc => if_neg ?_
    rintro rfl
    rcases mem_ofNames hc with hslash | ⟨n, hn, hin⟩
    · exact absurd hslash (by decide)
    · exact (h n hn).no_backslash hin
  have hslash : "/".map (fun c => if c = '\\' then '/' else c) = "/" := by decide +kernel
  rw [names_normalized, normalized, Text.map_append, Text.map_append, hsame, hslash, names_append_slash,
    names_ofNames fun n hn => (h n hn).toIsStep]

theorem normalized_moduleFile (h : NamesModule parts) (root : String) :
    normalized (root ++ "/" ++ moduleFile parts) = moduleFile (names (normalized root) ++ parts) := by
  obtain ⟨front, last, rfl⟩ := (List.eq_nil_or_concat parts).resolve_left h.ne_nil
  rw [List.concat_eq_append] at h ⊢
  obtain ⟨hfront, hlast⟩ := List.forall_mem_append.1 h.identifiers
  rw [moduleFile_concat, ← List.append_assoc, moduleFile_concat, List.append_assoc]
  refine normalized_below (List.forall_mem_append.2 ⟨fun n hn => ?_, List.forall_mem_singleton.2 ?_⟩) root
  · exact isPlainStep_of_isIdentifier (hfront n hn)
  · exact isPlainStep_pyFile (hlast last (List.mem_singleton_self _))

theorem normalized_packageFile (h : NamesModule parts) (root : String) :
    normalized (root ++ "/" ++ packageFile parts) = packageFile (names (normalized root) ++ parts) := by
  rw [packageFile, packageFile, List.append_assoc]
  refine normalized_below (List.forall_mem_append.2 ⟨fun n hn => ?_, List.forall_mem_singleton.2 ?_⟩) root
  · exact isPlainStep_of_isIdentifier (h.identifiers n hn)
  · exact isPlainStep_pyFile (by decide +kernel)

/-- The file of the module and the file of the package both have the name. -/
theorem moduleName_of_normalized (h : NamesModule parts)
    (hpath : normalized path = moduleFile (names (normalized root) ++ parts) ∨
      normalized path = packageFile (names (normalized root) ++ parts)) :
    moduleName path root = .ok (".".intercalate parts) := by
  have hfolder : ∀ n ∈ names (normalized root), '/' ∉ n.toList :=
    fun _ hn => (isStep_of_mem_names hn).no_slash
  rw [moduleName_eq_ok_iff h]
  rcases hpath with hpath | hpath
  · rw [hpath]
    exact (ModuleIndex.namedIn_moduleFile hfolder h).below
  · rw [hpath]
    exact (ModuleIndex.namedIn_packageFile hfolder h).below

/-- A name tells the path of its Python file below a root, but for the choice between a module and a
package.  Back from there, both files of a name have it, however their paths are written.  So at most
two paths that differ when they are cleaned up have one name. -/
theorem moduleName_inverts (root : String) :
    (∀ path name, EndsInPy path → moduleName path root = .ok name →
      normalized path = join (normalized root) (slashed name ++ ".py") ∨
        normalized path = join (normalized root) (slashed name ++ "/__init__.py")) ∧
    (∀ parts, NamesModule parts → ∀ path,
      normalized path = normalized (root ++ "/" ++ ofNames parts ++ ".py") ∨
        normalized path = normalized (root ++ "/" ++ ofNames parts ++ "/__init__.py") →
      moduleName path root = .ok (".".intercalate parts)) ∧
    ∀ name a b c, (∀ path ∈ [a, b, c], EndsInPy path ∧ moduleName path root = .ok name) →
      normalized a = normalized b ∨ normalized a = normalized c ∨ normalized b = normalized c := by
  refine ⟨fun path name => normalized_of_moduleName, fun parts h path hpath => ?_,
    fun name a b c hall => ?_⟩
  · refine moduleName_of_normalized h ?_
    rw [← normalized_moduleFile h, ← normalized_packageFile h, packageFile_text h.ne_nil, moduleFile,
      ← String.append_assoc, ← String.append_assoc]
    exact hpath
  · have hfile : ∀ path ∈ [a, b, c], normalized path = join (normalized root) (slashed name ++ ".py") ∨
        normalized path = join (normalized root) (slashed name ++ "/__init__.py") :=
      fun path hpath => normalized_of_moduleName (hall path hpath).1 (hall path hpath).2
    simp only [List.forall_mem_cons, List.not_mem_nil] at hfile
    grind

theorem namesModule_pkgSub : NamesModule ["pkg", "sub"] :=
  ⟨by decide, by decide +kernel, by decide⟩

/-- A module and its package as they are written behind a root, and the module written with a
backslash. -/
theorem moduleName_inverts_pkgSub :
    let module := "./lib/" ++ "/" ++ ofNames ["pkg", "sub"] ++ ".py"
    let package := "./lib/" ++ "/" ++ ofNames ["pkg", "sub"] ++ "/__init__.py"
    let name := ".".intercalate ["pkg", "sub"]
    NamesModule ["pkg", "sub"] ∧
      (∀ path ∈ [module, package, "lib\\pkg/sub.py"],
        EndsInPy path ∧ moduleName path "./lib/" = .ok name) ∧
      (normalized package = join (normalized "./lib/") (slashed name ++ ".py") ∨
        normalized package = join (normalized "./lib/") (slashed name ++ "/__init__.py")) ∧
      (normalized module = normalized package ∨ normalized module = normalized "lib\\pkg/sub.py" ∨
        normalized package = normalized "lib\\pkg/sub.py") := by
  intro module package name
  obtain ⟨htold, hback, htwo⟩ := moduleName_inverts "./lib/"
  have hmodule : normalized module = "lib/pkg/sub.py" :=
    (normalized_of_slashes "./lib//pkg/sub.py" (by decide +kernel)).trans (by decide +kernel)
  have hpackage : normalized package = "lib/pkg/sub/__init__.py" :=
    (normalized_of_slashes "./lib//pkg/sub/__init__.py" (by decide +kernel)).trans
      (by decide +kernel)
  have hbackslash : normalized "lib\\pkg/sub.py" = "lib/pkg/sub.py" :=
    (normalized_of_slashes "lib/pkg/sub.py" (by decide +kernel)).trans (by decide +kernel)
  have hall : ∀ path ∈ [module, package, "lib\\pkg/sub.py"],
      EndsInPy path ∧ moduleName path "./lib/" = .ok name := by
    refine List.forall_mem_cons.2 ⟨⟨?_, hback _ namesModule_pkgSub _ (.inl rfl)⟩,
      List.forall_mem_cons.2 ⟨⟨?_, hback _ namesModule_pkgSub _ (.inr rfl)⟩, List.forall_mem_singleton.2
        ⟨?_, hback _ namesModule_pkgSub _ (.inl (hbackslash.trans hmodule.symm))⟩⟩⟩
    · rw [EndsInPy, hmodule]
      decide +kernel
    · rw [EndsInPy, hpackage]
      decide +kernel
    · rw [EndsInPy, hbackslash]
      decide +kernel
  obtain ⟨hends, hname⟩ := hall package (List.mem_cons_of_mem _ (List.mem_cons_self ..))
  exact ⟨namesModule_pkgSub, hall, htold _ _ hends hname, htwo _ _ _ _ hall⟩

end Path

end LayerGate
