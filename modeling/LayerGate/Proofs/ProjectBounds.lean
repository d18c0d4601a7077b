import LayerGate.Proofs.ModuleFiles
import LayerGate.Proofs.ProjectPaths

/-!
# The bounds of a project

Imports are looked for below the project's folder and nowhere else, whatever their specifiers say: one
that climbs above the folder leads nowhere.  What else leads nowhere is an import of the project's folder
itself, when there is no file that stands for it.
-/

namespace LayerGate

/-- The path is no scanned file and no other file either. -/
def Project.Missing (p : Project) (path : String) : Prop :=
  path ∉ p.files ∧ p.isFile path = .ok false

namespace Resolution

open LayerGate.Path (IsBelow IsDown IsStep along? placeText)
open Import (IsSpelled spelled spelled_inj)

variable {p : Project} {file specifier text f : String} {aliases : List (String × String)}
  {steps there package parts names extensions candidates : List String} {r : Import.Ref} {x : Resolution}
  {o : Outcome} {found : Option Outcome}

/-! ## The steps of a specifier -/

/-- The steps from the project's folder to what a specifier means; `none` for a package. -/
def stepsOf? (p : Project) (file specifier : String) : Option (List String) :=
  match aliased? specifier p.aliases with
  | some text => some (Path.names text)
  | none => if isRelative specifier then some (foldersOf file ++ Path.names specifier) else none

theorem head?_dropSlashes : (dropSlashes text).toList.head? ≠ some '/' := by
  have hhead := List.head?_dropWhile_not (fun c => decide (c = '/')) text.toList
  unfold dropSlashes
  rw [String.toList_ofList]
  intro hslash
  rw [hslash] at hhead
  exact absurd hhead (by decide)

theorem head?_trimSlashes : (trimSlashes text).toList.head? ≠ some '/' := by
  have hhead := List.head?_dropWhile_not (fun c => decide (c = '/')) text.toList
  unfold trimSlashes Text.trim
  rw [String.toList_ofList]
  intro hslash
  -- What is left is a beginning of what was left before.
  have hbegin : ((text.toList.dropWhile (· = '/')).reverse.dropWhile (· = '/')).reverse <+:
      text.toList.dropWhile (· = '/') := by
    rw [← List.reverse_suffix, List.reverse_reverse]
    exact List.dropWhile_suffix _
  obtain ⟨after, hafter⟩ := hbegin
  rw [← hafter, List.head?_append, hslash, Option.some_or] at hhead
  exact absurd hhead (by decide)

/-- The path of an alias is counted from the project's folder. -/
theorem relative_of_aliased? (h : aliased? specifier aliases = some text) :
    text.startsWith "/" = false := by
  rw [Bool.eq_false_iff, Ne, Path.startsWith_slash_iff]
  unfold aliased? at h
  obtain ⟨⟨key, directory⟩, -, htext⟩ := Option.map_eq_some_iff.1 h
  simp only at htext
  split at htext
  · rename_i hboth
    rw [← htext, String.append_assoc, String.toList_append, List.head?_append]
    cases hfirst : (trimSlashes directory).toList.head? with
    | none =>
      exact absurd (String.toList_eq_nil_iff.1 (List.head?_eq_none_iff.1 hfirst)) hboth.1
    | some c =>
      have hfront := @head?_trimSlashes directory
      rwa [hfirst] at hfront
  · split at htext
    · exact htext ▸ head?_trimSlashes
    · exact htext ▸ head?_dropSlashes

theorem relative_of_isRelative (h : isRelative specifier = true) : specifier.startsWith "/" = false := by
  rw [Bool.eq_false_iff, Ne, Path.startsWith_slash_iff]
  unfold isRelative at h
  simp only [Bool.or_eq_true, decide_eq_true_eq, String.startsWith_string_iff] at h
  rcases h with ((rfl | rfl) | ⟨rest, hrest⟩) | ⟨rest, hrest⟩
  · decide
  · decide
  · rw [← hrest]
    nofun
  · rw [← hrest]
    nofun

/-- A file of a project is its last name in its folders. -/
theorem file_eq (hfile : IsBelow file) : ∃ last, file = Path.ofNames (foldersOf file ++ [last]) ∧
    ∀ n ∈ foldersOf file ++ [last], IsDown n := by
  rcases List.eq_nil_or_concat (Text.split '/' file) with hnil | ⟨front, last, hsplit⟩
  · exact absurd (List.map_eq_nil_iff.1 hnil) (Text.pieces_ne_nil _ _)
  · rw [List.concat_eq_append] at hsplit
    have hfolders : foldersOf file = front := by
      unfold foldersOf
      rw [hsplit, List.dropLast_concat]
    refine ⟨last, ?_, ?_⟩
    · rw [hfolders, ← hsplit, Path.ofNames_split]
    · rw [hfolders, ← hsplit]
      exact hfile.isDown

theorem parent_eq (hfile : IsBelow file) : Path.parent file = Path.ofNames (foldersOf file) := by
  obtain ⟨last, hlast, hdown⟩ := file_eq hfile
  calc Path.parent file
    _ = Path.parent (Path.ofNames (foldersOf file ++ [last])) := congrArg Path.parent hlast
    _ = Path.ofNames (foldersOf file) := Path.parent_ofNames fun n hn => (hdown n hn).toIsStep

theorem isDown_foldersOf (hfile : IsBelow file) : ∀ n ∈ foldersOf file, IsDown n :=
  fun n hn => hfile.isDown n (List.dropLast_subset _ hn)

/-- The path that a specifier means is made of its steps. -/
theorem pathOf?_eq_of_steps (hfile : IsBelow file) (h : stepsOf? p file specifier = some steps) :
    ∃ path, pathOf? p file specifier = some (Path.shortest path) ∧ path.startsWith "/" = false ∧
      Path.names path = steps := by
  unfold stepsOf? at h
  unfold pathOf?
  cases halias : aliased? specifier p.aliases with
  | some text =>
    rw [halias] at h
    obtain rfl := Option.some.inj h
    exact ⟨text, rfl, relative_of_aliased? halias, rfl⟩
  | none =>
    rw [halias] at h
    simp only at h ⊢
    split at h
    · rename_i hrelative
      obtain rfl := Option.some.inj h
      obtain ⟨hnames, hstart⟩ := Path.names_join
        (fun n hn => (isDown_foldersOf hfile n hn).toIsStep) (relative_of_isRelative hrelative)
      rw [if_pos hrelative, parent_eq hfile]
      exact ⟨_, rfl, hstart, hnames⟩
    · cases h

theorem pathOf?_eq_none (h : stepsOf? p file specifier = none) : pathOf? p file specifier = none := by
  unfold stepsOf? at h
  unfold pathOf?
  cases halias : aliased? specifier p.aliases with
  | some text =>
    rw [halias] at h
    cases h
  | none =>
    rw [halias] at h
    simp only at h ⊢
    split at h
    · cases h
    · rename_i hpackage
      rw [if_neg hpackage]

/-! ## What the specifier leads to -/

theorem placeText_cases (h : ∀ n ∈ there, IsDown n) :
    (if placeText there = "." then "" else placeText there) = Path.ofNames there := by
  unfold placeText
  by_cases hnone : there = []
  · subst hnone
    rfl
  · have hbelow := Path.isBelow_ofNames hnone h
    have hdot : Path.ofNames there ≠ "." := by
      intro hdot
      exact (hdot ▸ hbelow).components "." (by decide) |>.2.1 rfl
    rw [if_neg hnone, if_neg hdot]

/-- A specifier is no path, or one that climbs above the project, or one to a place in it. -/
theorem pathOf?_cases (hfile : IsBelow file) :
    stepsOf? p file specifier = none ∧ pathOf? p file specifier = none ∨
      ∃ steps path, stepsOf? p file specifier = some steps ∧ pathOf? p file specifier = some path ∧
        (along? [] steps = none ∧ escapes path = true ∨
          ∃ there, along? [] steps = some there ∧ escapes path = false ∧ (∀ n ∈ there, IsDown n) ∧
            (if path = "." then "" else path) = Path.ofNames there) := by
  cases hsteps : stepsOf? p file specifier with
  | none => exact .inl ⟨rfl, pathOf?_eq_none hsteps⟩
  | some steps =>
    obtain ⟨path, hpath, hrelative, rfl⟩ := pathOf?_eq_of_steps hfile hsteps
    refine .inr ⟨_, _, rfl, hpath, ?_⟩
    cases halong : along? [] (Path.names path) with
    | none => exact .inl ⟨rfl, Path.escapes_shortest hrelative halong⟩
    | some there =>
      obtain ⟨hplace, hescapes, hdown⟩ := Path.shortest_of_along? hrelative halong
      refine .inr ⟨there, rfl, hescapes, hdown, ?_⟩
      rw [hplace, placeText_cases hdown]

/-- A specifier that is a path is looked up where its steps lead, unless they climb above the project. -/
theorem webOutcome_eq (hfile : IsBelow file) : webOutcome p file specifier =
    match stepsOf? p file specifier with
    | none => .ok (.external none)
    | some steps => match along? [] steps with
      | none => .ok (.broken none)
      | some there => (p.find? (webCandidates p.webExtensions (Path.ofNames there))).map
          (·.getD (.broken (nonEmpty? (Path.ofNames there)))) := by
  unfold webOutcome
  rcases @pathOf?_cases p file specifier hfile with ⟨hsteps, hpath⟩ | ⟨steps, path, hsteps, hpath, hplace⟩
  · rw [hsteps, hpath]
  · rcases hplace with ⟨halong, hescapes⟩ | ⟨there, halong, hescapes, -, hplace⟩
    · simp only [hsteps, hpath, halong, hescapes, if_true]
    · simp only [hsteps, hpath, halong, hescapes, hplace]
      rfl

/-- The candidates of a specifier are those of the place where its steps lead. -/
theorem mem_webPathCandidates_iff (hfile : IsBelow file) {c : String} :
    c ∈ webPathCandidates p file r ↔ ∃ steps there, stepsOf? p file r.module = some steps ∧
      along? [] steps = some there ∧ c ∈ webCandidates p.webExtensions (Path.ofNames there) := by
  unfold webPathCandidates
  rcases @pathOf?_cases p file r.module hfile with ⟨hsteps, hpath⟩ | ⟨steps, path, hsteps, hpath, hplace⟩
  · simp [hsteps, hpath]
  · rcases hplace with ⟨halong, hescapes⟩ | ⟨there, halong, hescapes, -, hplace⟩
    · simp [hsteps, hpath, halong, hescapes]
    · simp [hsteps, hpath, halong, hescapes, hplace]

theorem isDown_of_steps (hfile : IsBelow file) (h : stepsOf? p file specifier = some steps)
    (halong : along? [] steps = some there) : ∀ n ∈ there, IsDown n := by
  rcases @pathOf?_cases p file specifier hfile with ⟨hsteps, -⟩ | ⟨steps', path, hsteps, -, hplace⟩
  · cases hsteps.symm.trans h
  · obtain rfl := Option.some.inj (hsteps.symm.trans h)
    rcases hplace with ⟨hnone, -⟩ | ⟨there', hthere, -, hdown, -⟩
    · cases hnone.symm.trans halong
    · exact Option.some.inj (hthere.symm.trans halong) ▸ hdown

/-! ## Candidates -/

theorem isBelow_webCandidates (hext : ∀ e ∈ extensions, '/' ∉ e.toList) (h : ∀ n ∈ there, IsDown n) :
    ∀ c ∈ webCandidates extensions (Path.ofNames there), IsBelow c := by
  have hindex : IsDown "index" := ⟨⟨by decide, by decide, by decide⟩, by decide⟩
  intro c hc
  unfold webCandidates at hc
  by_cases hnone : there = []
  · subst hnone
    rw [if_pos (show Path.ofNames [] = "" from rfl)] at hc
    obtain ⟨e, he, rfl⟩ := List.mem_map.1 hc
    exact Path.isBelow_append (List.cons_ne_nil "index" [])
      (fun n hn => List.mem_singleton.1 hn ▸ hindex) (hext e he)
  · have hbelow := Path.isBelow_ofNames hnone h
    rw [if_neg hbelow.nonempty] at hc
    rcases List.mem_append.1 hc with hc | hc
    · rcases List.mem_cons.1 hc with rfl | hc
      · exact hbelow
      · obtain ⟨e, he, rfl⟩ := List.mem_map.1 hc
        exact Path.isBelow_append hnone h (hext e he)
    · obtain ⟨e, he, rfl⟩ := List.mem_map.1 hc
      have hjoin : Path.ofNames there ++ "/index" = Path.ofNames (there ++ ["index"]) := by
        rw [← Path.ofNames_append_slash hnone]
        rfl
      rw [hjoin]
      exact Path.isBelow_append (by simp) (Path.isDown_concat h hindex) (hext e he)

theorem isDown_of_package? (hfile : IsBelow file) (h : package? file r = some package) :
    ∀ n ∈ package, IsDown n := by
  intro n hn
  unfold package? at h
  simp only at h
  split at h
  · cases h
  · obtain rfl := Option.some.inj h
    exact isDown_foldersOf hfile n (List.mem_of_mem_take hn)

theorem isDown_of_isWord {name : String} (h : Import.IsWord name) : IsDown name where
  no_slash := h.no_slash
  ne_empty := h.nonempty
  ne_dot hdot := h.no_dot (hdot ▸ by decide)
  ne_dots := h.staysPut.ne_dots

theorem isBelow_packageFile (h : ∀ n ∈ names, IsDown n) : IsBelow (packageFile names) :=
  Path.isBelow_ofNames (by simp)
    (Path.isDown_concat h ⟨⟨by decide, by decide, by decide⟩, by decide⟩)

theorem isBelow_partsCandidates (hpackage : ∀ n ∈ package, IsDown n) (hparts : ∀ n ∈ parts, IsDown n) :
    ∀ c ∈ partsCandidates package parts, IsBelow c := by
  intro c hc
  unfold partsCandidates at hc
  split at hc
  · obtain rfl := List.mem_singleton.1 hc
    exact isBelow_packageFile hpackage
  · rename_i hne
    have hall : ∀ n ∈ package ++ parts, IsDown n := List.forall_mem_append.2 ⟨hpackage, hparts⟩
    have hnames : package ++ parts ≠ [] := List.append_ne_nil_of_right_ne_nil _ hne
    rw [moduleCandidates_eq hnames, List.mem_pair] at hc
    rcases hc with rfl | rfl
    · exact Path.isBelow_append hnames hall (by decide)
    · exact isBelow_packageFile hall

/-- Whatever a reference asks the disk for is a path below the project's folder. -/
theorem isBelow_candidatesOf (hfile : IsBelow file) (hext : ∀ e ∈ p.webExtensions, '/' ∉ e.toList)
    (hr : r.language = .python → IsSpelled r) :
    ∀ c ∈ FileImports.candidatesOf p file r, IsBelow c := by
  intro c hc
  unfold FileImports.candidatesOf at hc
  split at hc
  · rename_i hpython
    have hspelled := hr hpython
    have hmodule : ∀ n ∈ moduleParts r, IsDown n := fun n hn =>
      isDown_of_isWord (isWord_moduleParts hspelled n hn)
    split at hc
    · cases hc
    · unfold relativeCandidates at hc
      split at hc
      · cases hc
      · rename_i package hpackage
        have hdown := isDown_of_package? hfile hpackage
        rcases List.mem_append.1 hc with hc | hc
        · obtain ⟨name, hname, hc⟩ := List.mem_flatMap.1 hc
          rw [partsCandidates_concat] at hc
          refine isBelow_partsCandidates hdown (fun n hn => ?_) c hc
          exact isDown_of_isWord (isWord_moduleParts_concat hspelled hname n hn)
        · rw [baseCandidates_eq] at hc
          exact isBelow_partsCandidates hdown hmodule c hc
  · obtain ⟨steps, there, hsteps, halong, hc⟩ := (mem_webPathCandidates_iff hfile).1 hc
    exact isBelow_webCandidates hext (isDown_of_steps hfile hsteps halong) c hc

/-! ## Outcomes -/

theorem target_of_find? (h : p.find? candidates = .ok (some o)) : ∃ c ∈ candidates, o.target = some c := by
  induction candidates with
  | nil => exact absurd h Project.find?_nil_ne_some
  | cons c rest ih =>
    rcases Project.find?_cons_eq_some_iff.1 h with ⟨-, rfl⟩ | ⟨-, ⟨-, rfl⟩ | ⟨-, hrest⟩⟩
    · exact ⟨c, List.mem_cons_self .., rfl⟩
    · exact ⟨c, List.mem_cons_self .., rfl⟩
    · obtain ⟨c', hc', htarget⟩ := ih hrest
      exact ⟨c', List.mem_cons_of_mem _ hc', htarget⟩

/-- What was looked up and not found is told by its place, where it has one. -/
theorem getD_eq_broken_none_iff (h : p.find? candidates = .ok found) :
    found.getD (.broken (nonEmpty? text)) = .broken none ↔
      text = "" ∧ ∀ c ∈ candidates, p.Missing c := by
  have hmissing : (∀ c ∈ candidates, p.Missing c) ↔ p.find? candidates = .ok none := find?_eq_none_iff.symm
  rw [hmissing, h]
  cases found with
  | none =>
    unfold nonEmpty?
    split <;> simp [*]
  | some o =>
    obtain ⟨c, -, htarget⟩ := target_of_find? h
    refine iff_of_false ?_ (by simp)
    rintro (rfl : o = .broken none)
    cases htarget

theorem isBelow_of_getD (h : p.find? candidates = .ok found) (hbelow : ∀ c ∈ candidates, IsBelow c)
    (htext : text ≠ "" → IsBelow text) {target : String}
    (htarget : (found.getD (.broken (nonEmpty? text))).target = some target) : IsBelow target := by
  cases found with
  | some o =>
    obtain ⟨c, hc, hsame⟩ := target_of_find? h
    exact Option.some.inj (hsame.symm.trans htarget) ▸ hbelow c hc
  | none =>
    change nonEmpty? text = some target at htarget
    unfold nonEmpty? at htarget
    split at htarget
    · cases htarget
    · rename_i hne
      exact Option.some.inj htarget ▸ htext hne

/-! ## Imports without a place -/

/-- The specifier climbs above the project, or leads to the project's folder itself, which has no index
file. -/
def WebHasNoPlace (p : Project) (file specifier : String) : Prop :=
  ∃ steps, stepsOf? p file specifier = some steps ∧ (along? [] steps = none ∨
    along? [] steps = some [] ∧ ∀ e ∈ p.webExtensions, p.Missing ("index" ++ e))

/-- The dots climb above the project, or lead to the project's folder itself, which is no package, and
nothing stands behind them. -/
def DotsHaveNoPlace (p : Project) (file : String) (r : Import.Ref) (specifier : String) : Prop :=
  (foldersOf file).length < r.level - 1 ∨
    specifier = dots r ∧ (foldersOf file).length = r.level - 1 ∧ p.Missing "__init__.py"

variable {own : List Resolution}

theorem web_bounds (hfile : IsBelow file) (hext : ∀ e ∈ p.webExtensions, '/' ∉ e.toList)
    (hown : web p file r = .ok own) (hx : x ∈ own) :
    (∀ target, x.outcome.target = some target → IsBelow target) ∧
      (x.outcome = .broken none ↔ WebHasNoPlace p file x.specifier) := by
  obtain ⟨o, ho, rfl⟩ := (mem_web_iff hown).1 hx
  rw [webOutcome_eq hfile] at ho
  unfold WebHasNoPlace
  simp only
  cases hsteps : stepsOf? p file r.module with
  | none =>
    rw [hsteps] at ho
    cases ho
    exact ⟨nofun, by simp⟩
  | some steps =>
    rw [hsteps] at ho
    simp only [Option.some.injEq, exists_eq_left']
    cases halong : along? [] steps with
    | none =>
      simp only [halong] at ho
      cases ho
      exact ⟨nofun, by simp⟩
    | some there =>
      simp only [halong] at ho
      have hdown := isDown_of_steps hfile hsteps halong
      obtain ⟨found, hfind, rfl⟩ := map_eq_ok_iff.1 ho
      refine ⟨fun target => ?_, ?_⟩
      · exact isBelow_of_getD hfind (isBelow_webCandidates hext hdown) fun hne =>
          Path.isBelow_ofNames (fun hnil => hne (hnil ▸ rfl)) hdown
      · rw [getD_eq_broken_none_iff hfind]
        by_cases hroot : there = []
        · subst hroot
          have hcandidates : webCandidates p.webExtensions (Path.ofNames []) =
              p.webExtensions.map ("index" ++ ·) := if_pos rfl
          simp only [hcandidates, List.forall_mem_map]
          simp [Path.ofNames]
        · refine iff_of_false (fun h => ?_) (by simp [hroot])
          exact Path.ofNames_ne_empty hroot (fun n hn => (hdown n hn).toIsStep) h.1

theorem package?_eq_none_iff : package? file r = none ↔ (foldersOf file).length < r.level - 1 := by
  unfold package?
  simp only
  split
  · rename_i hclimbs
    exact iff_of_true rfl hclimbs
  · rename_i hdepth
    exact iff_of_false nofun hdepth

/-- The dots lead to the project's folder if there is one for each folder of the file, and one more. -/
theorem package_eq_nil_iff (h : package? file r = some package) :
    package = [] ↔ (foldersOf file).length = r.level - 1 := by
  unfold package? at h
  simp only at h
  split at h
  · cases h
  · obtain rfl := Option.some.inj h
    rw [List.take_eq_nil_iff, ← List.length_eq_zero_iff]
    omega

theorem spelled_eq_dots_iff (h : ∀ part ∈ parts, Import.IsWord part) :
    spelled r.level parts = dots r ↔ parts = [] := by
  have hbare : dots r = spelled r.level [] := (String.append_empty).symm
  have hnone : ∀ part ∈ ([] : List String), Import.IsWord part := nofun
  rw [hbare]
  exact ⟨fun heq => (spelled_inj h hnone heq).2, fun heq => heq ▸ rfl⟩

theorem relative_bounds (hfile : IsBelow file) (hr : Import.IsSpelled r) (hlevel : r.level ≠ 0)
    (hown : dotted p file r = .ok own) (hx : x ∈ own) :
    (∀ target, x.outcome.target = some target → IsBelow target) ∧
      (x.outcome = .broken none ↔ DotsHaveNoPlace p file r x.specifier) := by
  obtain ⟨parts, hparts, hspecifier, hmeans⟩ := dotted_tells hr hown hx
  unfold DotsHaveNoPlace
  cases hpackage : package? file r with
  | none =>
    have hout : x.outcome = .broken none := by
      unfold Means at hmeans
      rwa [if_neg hlevel, hpackage] at hmeans
    rw [hout]
    exact ⟨nofun, iff_of_true rfl (.inl (package?_eq_none_iff.1 hpackage))⟩
  | some package =>
    obtain ⟨found, hfind, hout⟩ := (means_relative hlevel hpackage).1 hmeans
    have hdepth : ¬ (foldersOf file).length < r.level - 1 := by
      rw [← package?_eq_none_iff, hpackage]
      nofun
    have hpackageDown := isDown_of_package? hfile hpackage
    have hpartsDown : ∀ n ∈ parts, IsDown n := fun n hn => isDown_of_isWord (hparts n hn)
    have hall : ∀ n ∈ package ++ parts, IsDown n :=
      List.forall_mem_append.2 ⟨hpackageDown, hpartsDown⟩
    rw [hout]
    refine ⟨fun target => ?_, ?_⟩
    · exact isBelow_of_getD hfind (isBelow_partsCandidates hpackageDown hpartsDown) fun hne =>
        Path.isBelow_ofNames (fun hnil => hne (hnil ▸ rfl)) hall
    · rw [getD_eq_broken_none_iff hfind, or_iff_right hdepth, hspecifier, spelled_eq_dots_iff hparts,
        ← package_eq_nil_iff hpackage]
      constructor
      · rintro ⟨htext, hmissing⟩
        have hnil : package ++ parts = [] := by
          by_contra hne
          exact Path.ofNames_ne_empty hne (fun n hn => (hall n hn).toIsStep) htext
        obtain ⟨rfl, rfl⟩ := List.append_eq_nil_iff.1 hnil
        exact ⟨rfl, rfl, hmissing _ (List.mem_singleton_self _)⟩
      · rintro ⟨rfl, rfl, hmissing⟩
        exact ⟨rfl, fun c hc => List.mem_singleton.1 hc ▸ hmissing⟩

end Resolution

/-- Whatever its specifier, an import of a JavaScript file, or a relative one of a Python file, is looked
for below the project's folder only, and all that it resolves to is there.  It is broken without a
candidate just if it climbs above the folder, or leads to the folder itself and finds no file that stands
for it.  It does resolve to something, unless the disk refuses to say whether a file is there. -/
theorem FileImports.resolution_stays_below (p : Project)
    (hext : ∀ e ∈ p.webExtensions, '/' ∉ e.toList) {file : String} (hfile : Path.IsBelow file)
    {r : Import.Ref} (hr : r.language = .javascript ∨ Import.IsSpelled r ∧ r.level ≠ 0) :
    (∀ c ∈ candidatesOf p file r, Path.IsBelow c) ∧
    (∀ isFile, (∀ c, Path.IsBelow c → isFile c = p.isFile c) →
      resolveRef { p with isFile } file r = resolveRef p file r) ∧
    (Resolution.Refused p (candidatesOf p file r) (resolveRef p file r) ∨
      ∃ own, resolveRef p file r = .ok own ∧ own ≠ []) ∧
    ∀ own, resolveRef p file r = .ok own → ∀ x ∈ own,
      (∀ target, x.outcome.target = some target → Path.IsBelow target) ∧
      (x.outcome = .broken none ↔ match r.language with
        | .javascript => Resolution.WebHasNoPlace p file x.specifier
        | .python => Resolution.DotsHaveNoPlace p file r x.specifier) := by
  have hbelow := Resolution.isBelow_candidatesOf hfile hext (r := r) fun hpython =>
    (hr.resolve_left (by rw [hpython]; decide)).1
  refine ⟨hbelow, fun isFile hsame => ?_, ?_, fun own hown x hx => ?_⟩
  · apply Resolution.SameAt.resolveRef_eq
    exact ⟨rfl, rfl, rfl, rfl, fun c hc => hsame c (hbelow c hc)⟩
  · -- Nothing of this is an absolute import of Python, so the index plays no part.
    have hlocal : r.language = .python → r.level ≠ 0 := fun hpython =>
      (hr.resolve_left (by rw [hpython]; decide)).2
    rcases resolveRef_answered (p := p) (fun hpython hlevel => absurd hlevel (hlocal hpython)) file with
      hrefused | ⟨own, hown, hne, -⟩
    · exact .inl hrefused
    · exact .inr ⟨own, hown, hne⟩
  · rcases hr with hweb | ⟨hspelled, hlevel⟩
    · unfold resolveRef at hown
      rw [hweb] at hown ⊢
      exact Resolution.web_bounds hfile hext hown hx
    · unfold resolveRef at hown
      rw [hspelled.python] at hown ⊢
      exact Resolution.relative_bounds hfile hspelled hlevel hown hx

/-- From the folder `a`, two steps up climb above the project, and one leads to its index file.  With
dots it takes one more for the same. -/
theorem FileImports.resolution_stays_below_upwards :
    let p := Project.ofFiles ["a/m.js", "a/m.py", "index.js", "x.py"] ["."] [".js"] []
      fun _ => .ok false
    let climb : Import.Ref := ⟨1, "", ["x"], 3, .python⟩
    let level : Import.Ref := ⟨2, "", ["x"], 2, .python⟩
    (∀ e ∈ p.webExtensions, '/' ∉ e.toList) ∧ Path.IsBelow "a/m.js" ∧ Path.IsBelow "a/m.py" ∧
      resolveRef p "a/m.js" ⟨1, "../..", [], 0, .javascript⟩ = .ok [⟨"../..", 1, .broken none⟩] ∧
      Resolution.WebHasNoPlace p "a/m.js" "../.." ∧
      resolveRef p "a/m.js" ⟨2, "..", [], 0, .javascript⟩ = .ok [⟨"..", 2, .internal "index.js"⟩] ∧
      Path.IsBelow "index.js" ∧ Import.IsSpelled climb ∧ Import.IsSpelled level ∧
      resolveRef p "a/m.py" climb = .ok [⟨"...", 1, .broken none⟩] ∧
      Resolution.DotsHaveNoPlace p "a/m.py" climb "..." ∧
      resolveRef p "a/m.py" level = .ok [⟨"..x", 2, .internal "x.py"⟩] ∧ Path.IsBelow "x.py" := by
  intro p climb level
  have hext : ∀ e ∈ p.webExtensions, '/' ∉ e.toList := by decide +kernel
  have hfile : Path.IsBelow "a/m.js" := ⟨by decide, by decide +kernel, by decide +kernel⟩
  have hfile' : Path.IsBelow "a/m.py" := ⟨by decide, by decide +kernel, by decide +kernel⟩
  have hout : resolveRef p "a/m.js" ⟨1, "../..", [], 0, .javascript⟩ =
      .ok [⟨"../..", 1, .broken none⟩] := by decide +kernel
  have hindex : resolveRef p "a/m.js" ⟨2, "..", [], 0, .javascript⟩ =
      .ok [⟨"..", 2, .internal "index.js"⟩] := by decide +kernel
  have hclimbs : resolveRef p "a/m.py" climb = .ok [⟨"...", 1, .broken none⟩] := by decide +kernel
  have hlevels : resolveRef p "a/m.py" level = .ok [⟨"..x", 2, .internal "x.py"⟩] := by decide +kernel
  have hnames : ∀ n ∈ ["x"], Import.IsWord n := List.forall_mem_singleton.2 Project.isWord_x
  have hclimb : Import.IsSpelled climb := ⟨rfl, .inr ⟨rfl, by decide⟩, hnames⟩
  have hlevel : Import.IsSpelled level := ⟨rfl, .inr ⟨rfl, by decide⟩, hnames⟩
  obtain ⟨-, -, -, hweb⟩ := resolution_stays_below p hext hfile
    (r := ⟨1, "../..", [], 0, .javascript⟩) (.inl rfl)
  obtain ⟨-, -, -, hroot⟩ := resolution_stays_below p hext hfile
    (r := ⟨2, "..", [], 0, .javascript⟩) (.inl rfl)
  obtain ⟨-, -, -, habove⟩ := resolution_stays_below p hext hfile' (.inr ⟨hclimb, by decide⟩)
  obtain ⟨-, -, -, hthere⟩ := resolution_stays_below p hext hfile' (.inr ⟨hlevel, by decide⟩)
  refine ⟨hext, hfile, hfile', hout, ?_, hindex, ?_, hclimb, hlevel, hclimbs, ?_, hlevels, ?_⟩
  · exact (hweb _ hout _ (List.mem_singleton_self _)).2.1 rfl
  · exact (hroot _ hindex _ (List.mem_singleton_self _)).1 "index.js" rfl
  · exact (habove _ hclimbs _ (List.mem_singleton_self _)).2.1 rfl
  · exact (hthere _ hlevels _ (List.mem_singleton_self _)).1 "x.py" rfl

end LayerGate
