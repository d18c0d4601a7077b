import LayerGate.Proofs.PathText
import LayerGate.Proofs.ResolutionAnswers

/-!
# The files that resolution asks for

No candidate of an import climbs out of the project.  So what an import means depends on the disk only
as far as paths are concerned that stay below the project's folder.
-/

namespace LayerGate

namespace Path

variable {path last ext name : String} {ns front : List String}

/-- No name on the path climbs. -/
def IsInside (path : String) : Prop := ".." ∉ names path

/-- A name, possibly empty, that does not climb. -/
structure StaysPut (name : String) : Prop where
  no_slash : '/' ∉ name.toList
  ne_dots : name ≠ ".."

theorem isInside_iff : IsInside path ↔ ".." ∉ Text.split '/' path := by
  unfold IsInside names
  rw [List.mem_filter]
  exact not_congr ⟨fun h => h.1, fun h => ⟨h, by decide⟩⟩

theorem isInside_ofNames (h : ∀ n ∈ ns, StaysPut n) : IsInside (ofNames ns) := by
  cases ns with
  | nil => unfold IsInside; decide
  | cons n ns =>
    rw [isInside_iff, split_ofNames (List.cons_ne_nil _ _) fun m hm => (h m hm).no_slash]
    intro hdots
    exact (h _ hdots).ne_dots rfl

theorem ofNames_cons (h : ns ≠ []) : ofNames (name :: ns) = name ++ "/" ++ ofNames ns := by
  cases ns with
  | nil => exact absurd rfl h
  | cons n ns => exact String.intercalate_cons_cons ..

theorem ofNames_concat (h : ns ≠ []) : ofNames (ns ++ [name]) = ofNames ns ++ "/" ++ name := by
  induction ns with
  | nil => exact absurd rfl h
  | cons n ns ih =>
    cases ns with
    | nil => rfl
    | cons m ns =>
      have hrest := ih (List.cons_ne_nil _ _)
      rw [List.cons_append, ofNames_cons (by simp), hrest, ofNames_cons (List.cons_ne_nil _ _)]
      simp only [String.append_assoc]

theorem ofNames_append_slash (h : ns ≠ []) : ofNames ns ++ ("/" ++ name) = ofNames (ns ++ [name]) := by
  rw [ofNames_concat h, String.append_assoc]

/-- What is added to a path is added to its last name. -/
theorem ofNames_append : ofNames (front ++ [last]) ++ ofNames (ext :: ns) =
    ofNames (front ++ (last ++ ext) :: ns) := by
  induction front with
  | nil =>
    show ofNames [last] ++ _ = ofNames (_ :: ns)
    rw [ofNames, String.intercalate_singleton]
    cases ns with
    | nil => rfl
    | cons n ns =>
      rw [ofNames_cons (List.cons_ne_nil _ _), ofNames_cons (List.cons_ne_nil _ _)]
      simp only [String.append_assoc]
  | cons n front ih =>
    rw [List.cons_append, List.cons_append, @ofNames_cons n _ (by simp), @ofNames_cons n _ (by simp),
      String.append_assoc, ih]

theorem ofNames_concat_append : ofNames (front ++ [last]) ++ ext = ofNames (front ++ [last ++ ext]) := by
  rw [← ofNames_append]
  exact congrArg (ofNames (front ++ [last]) ++ ·) (String.intercalate_singleton).symm

/-- What is added to a name makes it no step upwards. -/
theorem IsStep.append_ne (h : IsStep name) (hdots : name ≠ "..") : name ++ ext ≠ ".." := by
  intro heq
  have hchars : name.toList ++ ext.toList = ['.', '.'] := by
    rw [← String.toList_append, heq]
    rfl
  cases htext : name.toList with
  | nil => exact h.ne_empty (String.toList_inj.1 htext)
  | cons c cs =>
    rw [htext, List.cons_append] at hchars
    obtain ⟨rfl, hsecond⟩ := List.cons.inj hchars
    cases cs with
    | nil => exact h.ne_dot (String.toList_inj.1 htext)
    | cons d ds =>
      obtain ⟨rfl, hthird⟩ := List.cons.inj hsecond
      obtain ⟨rfl, -⟩ := List.append_eq_nil_iff.1 hthird
      exact hdots (String.toList_inj.1 htext)

theorem isInside_append (h : ∀ n ∈ front ++ [last], StaysPut n) (hext : '/' ∉ ext.toList)
    (hns : ∀ n ∈ ns, StaysPut n) (hne : last ++ ext ≠ "..") :
    IsInside (ofNames (front ++ [last]) ++ ofNames (ext :: ns)) := by
  rw [ofNames_append]
  apply isInside_ofNames
  intro n hn
  rcases List.mem_append.1 hn with hn | hn
  · exact h n (List.mem_append_left _ hn)
  · rcases List.mem_cons.1 hn with rfl | hn
    · have hlast := h last (List.mem_append_right _ (List.mem_singleton.2 rfl))
      refine ⟨?_, hne⟩
      rw [String.toList_append, List.mem_append, not_or]
      exact ⟨hlast.no_slash, hext⟩
    · exact hns n hn

/-! ## Extensions -/

/-- Behind no slash of the extension there is a step upwards. -/
def NeverClimbs (ext : String) : Prop := ".." ∉ (Text.split '/' ext).tail

theorem ofNames_map_ofList {pss : List (List Char)} :
    ofNames (pss.map String.ofList) = String.ofList (Text.joined '/' pss) := by
  induction pss with
  | nil => rfl
  | cons p pss ih =>
    cases pss with
    | nil => exact String.intercalate_singleton ..
    | cons q pss =>
      rw [List.map_cons, ofNames_cons (by simp), ih]
      apply String.toList_inj.1
      simp [Text.joined]

theorem ofNames_split : ofNames (Text.split '/' path) = path := by
  rw [Text.split, ofNames_map_ofList, Text.joined_pieces, String.ofList_toList]

/-- On an extension of this kind, a path that stays in the project goes on to stay there. -/
theorem NeverClimbs.isInside (h : NeverClimbs ext) (hpath : ∀ n ∈ front ++ [last], StaysPut n)
    (hne : ∀ first, last ++ first ≠ "..") : IsInside (ofNames (front ++ [last]) ++ ext) := by
  cases hsplit : Text.split '/' ext with
  | nil => exact absurd (List.map_eq_nil_iff.1 hsplit) (Text.pieces_ne_nil _ _)
  | cons first rest =>
    have hslash : ∀ n ∈ first :: rest, '/' ∉ n.toList := by
      rw [← hsplit]
      exact fun n hn => no_slash_of_mem_split hn
    have hrest : ∀ n ∈ rest, StaysPut n := by
      intro n hn
      refine ⟨hslash n (List.mem_cons_of_mem _ hn), ?_⟩
      rintro rfl
      rw [NeverClimbs, hsplit] at h
      exact h hn
    rw [← @ofNames_split ext, hsplit]
    exact isInside_append hpath (hslash first (List.mem_cons_self ..)) hrest (hne first)

/-! ## Shortest paths -/

/-- Of a shortened path, only the first names climb. -/
theorem climb_eq (done names : List String) (ups : Nat) (hdone : ".." ∉ done) :
    ∃ ups' rest, climb false (done ++ List.replicate ups "..") names =
      List.replicate ups' ".." ++ rest ∧ ".." ∉ rest ∧ ∀ n ∈ rest, n ∈ done ∨ n ∈ names := by
  induction names generalizing done ups with
  | nil =>
    refine ⟨ups, done.reverse, ?_, ?_, ?_⟩
    · rw [climb, List.reverse_append, List.reverse_replicate]
    · rwa [List.mem_reverse]
    · intro n hn
      exact .inl (List.mem_reverse.1 hn)
  | cons name names ih =>
    by_cases hdots : name = ".."
    · subst hdots
      cases done with
      | nil =>
        -- There is nothing to take back.
        have hstep : climb false ([] ++ List.replicate ups "..") (".." :: names) =
            climb false ([] ++ List.replicate (ups + 1) "..") names := by
          cases ups with
          | zero => rfl
          | succ ups => rfl
        obtain ⟨ups', rest, heq, hrest, hmem⟩ := ih [] (ups + 1) nofun
        refine ⟨ups', rest, hstep.trans heq, hrest, fun n hn => ?_⟩
        exact .inr (List.mem_cons_of_mem _ ((hmem n hn).resolve_left nofun))
      | cons n before =>
        rw [List.mem_cons, not_or] at hdone
        have hstep : climb false (n :: before ++ List.replicate ups "..") (".." :: names) =
            climb false (before ++ List.replicate ups "..") names := by
          rw [List.cons_append, climb]
          exact fun heq => hdone.1 heq.symm
        obtain ⟨ups', rest, heq, hrest, hmem⟩ := ih before ups hdone.2
        refine ⟨ups', rest, hstep.trans heq, hrest, fun m hm => ?_⟩
        rcases hmem m hm with hm | hm
        · exact .inl (List.mem_cons_of_mem _ hm)
        · exact .inr (List.mem_cons_of_mem _ hm)
    · have hstep : climb false (done ++ List.replicate ups "..") (name :: names) =
          climb false (name :: done ++ List.replicate ups "..") names := by
        rw [climb]
        · rfl
        · exact hdots
      have hdone' : ".." ∉ name :: done := by
        rw [List.mem_cons, not_or]
        exact ⟨Ne.symm hdots, hdone⟩
      obtain ⟨ups', rest, heq, hrest, hmem⟩ := ih (name :: done) ups hdone'
      refine ⟨ups', rest, hstep.trans heq, hrest, fun m hm => ?_⟩
      rcases hmem m hm with hm | hm
      · rcases List.mem_cons.1 hm with rfl | hm
        · exact .inr (List.mem_cons_self ..)
        · exact .inl hm
      · exact .inr (List.mem_cons_of_mem _ hm)

theorem escapes_of_dots : Resolution.escapes
    (if ofNames (".." :: ns) = "" then "." else ofNames (".." :: ns)) = true := by
  cases ns with
  | nil => decide
  | cons n ns =>
    have htext : ofNames (".." :: n :: ns) = "../" ++ ofNames (n :: ns) :=
      ofNames_cons (List.cons_ne_nil _ _)
    have hstarts : (ofNames (".." :: n :: ns)).startsWith "../" = true := by
      rw [htext, String.startsWith_string_iff, String.toList_append]
      exact List.prefix_append ..
    rw [if_neg (by rw [htext]; simp)]
    unfold Resolution.escapes
    rw [hstarts, Bool.or_true, Bool.true_or]

/-- A shortened path that does not lead out of the project is the project itself or made of names. -/
theorem shortest_cases (h : Resolution.escapes (shortest path) = false) :
    shortest path = "." ∨ ∃ front last, shortest path = ofNames (front ++ [last]) ∧
      ∀ n ∈ front ++ [last], IsStep n ∧ n ≠ ".." := by
  unfold shortest at h ⊢
  cases hslash : path.startsWith "/" with
  | true =>
    have hescapes := @startsWith_behindSlashes path (climb true [] (names path)) hslash
    unfold Resolution.escapes at h
    rw [hslash, hescapes, Bool.or_true] at h
    cases h
  | false =>
    obtain ⟨ups, rest, hclimb, hdots, hmem⟩ := climb_eq [] (names path) 0 nofun
    rw [List.replicate_zero, List.append_nil] at hclimb
    rw [hslash] at h
    rw [behindSlashes_relative hslash, hclimb] at h ⊢
    cases ups with
    | succ ups =>
      -- A name that climbs stands in front.
      rw [List.replicate_succ, List.cons_append] at h
      exact nomatch escapes_of_dots.symm.trans h
    | zero =>
      rw [List.replicate_zero, List.nil_append]
      rcases List.eq_nil_or_concat rest with rfl | ⟨front, last, rfl⟩
      · exact .inl rfl
      · rw [List.concat_eq_append] at hdots hmem ⊢
        have hsteps : ∀ n ∈ front ++ [last], IsStep n := fun n hn =>
          isStep_of_mem_names ((hmem n hn).resolve_left nofun)
        rw [if_neg (ofNames_ne_empty (by simp) hsteps)]
        refine .inr ⟨front, last, rfl, fun n hn => ⟨hsteps n hn, ?_⟩⟩
        rintro rfl
        exact hdots hn

end Path

namespace Resolution

open LayerGate.Path (IsInside StaysPut)

variable {p : Project} {isFile : String → Except Disk.Fault Bool} {r : Import.Ref} {file : String}
  {candidates parts target leftover names : List String}

/-! ## Candidates -/

theorem append_py_ne (name : String) : name ++ Project.pySuffix ≠ ".." := by
  intro h
  have hlast := congrArg (fun s : String => s.toList.getLast?) h
  have hpy : (name ++ Project.pySuffix).toList.getLast? = some 'y' := by
    rw [String.toList_append, List.getLast?_append]
    rfl
  exact absurd (hpy.symm.trans hlast) (by decide)

theorem isInside_append_py {front : List String} {last : String}
    (h : ∀ n ∈ front ++ [last], StaysPut n) :
    IsInside (Path.ofNames (front ++ [last]) ++ Project.pySuffix) := by
  have hext : Project.pySuffix = Path.ofNames [Project.pySuffix] := by decide
  rw [hext]
  exact Path.isInside_append h (by decide) (fun _ hn => nomatch hn) (append_py_ne last)

theorem isInside_moduleCandidates (h : ∀ n ∈ parts, StaysPut n) :
    ∀ c ∈ moduleCandidates parts, IsInside c := by
  rcases List.eq_nil_or_concat parts with rfl | ⟨front, last, hparts⟩
  · exact nofun
  · rw [List.concat_eq_append] at hparts
    have hne : parts ≠ [] := by simp [hparts]
    have hcandidates : moduleCandidates parts =
        [Path.ofNames parts ++ Project.pySuffix,
          Path.ofNames (parts ++ ["__init__"]) ++ Project.pySuffix] := by
      rw [← Path.ofNames_append_slash hne]
      cases parts with
      | nil => exact absurd rfl hne
      | cons n parts => rfl
    intro c hc
    rw [hcandidates] at hc
    rcases List.mem_cons.1 hc with rfl | hc
    · rw [hparts] at h ⊢
      exact isInside_append_py h
    · obtain rfl := List.mem_singleton.1 hc
      refine isInside_append_py fun n hn => ?_
      rcases List.mem_append.1 hn with hn | hn
      · exact h n hn
      · obtain rfl := List.mem_singleton.1 hn
        exact ⟨by decide, by decide⟩

theorem isInside_packageFile (h : ∀ n ∈ target, StaysPut n) : IsInside (packageFile target) := by
  apply Path.isInside_ofNames
  intro n hn
  rcases List.mem_append.1 hn with hn | hn
  · exact h n hn
  · obtain rfl := List.mem_singleton.1 hn
    exact ⟨by decide, by decide⟩

theorem isInside_webCandidates {extensions : List String} {path : String}
    (hext : ∀ e ∈ extensions, Path.NeverClimbs e) (h : escapes (Path.shortest path) = false) :
    ∀ c ∈ webCandidates extensions (if Path.shortest path = "." then "" else Path.shortest path),
      IsInside c := by
  have hindex : ∀ e : String, "index" ++ e ≠ ".." := by
    intro e he
    have hhead := congrArg (fun s : String => s.toList.head?) he
    simp only [String.toList_append] at hhead
    exact absurd hhead (by simp)
  by_cases hdot : Path.shortest path = "."
  · intro c hc
    rw [if_pos hdot] at hc
    obtain ⟨e, he, rfl⟩ := List.mem_map.1 hc
    have hstays : ∀ n ∈ [] ++ ["index"], StaysPut n := by
      intro n hn
      obtain rfl := List.mem_singleton.1 hn
      exact ⟨by decide, by decide⟩
    have hinside : IsInside (Path.ofNames ([] ++ ["index"]) ++ e) :=
      (hext e he).isInside hstays hindex
    exact hinside
  · obtain ⟨front, last, htext, hsteps⟩ := (Path.shortest_cases h).resolve_left hdot
    have hput : ∀ n ∈ front ++ [last], StaysPut n := fun n hn =>
      ⟨(hsteps n hn).1.no_slash, (hsteps n hn).2⟩
    have hne : Path.shortest path ≠ "" := by
      rw [htext]
      exact Path.ofNames_ne_empty (by simp) fun n hn => (hsteps n hn).1
    intro c hc
    rw [if_neg hdot, webCandidates, if_neg hne, htext] at hc
    rcases List.mem_append.1 hc with hc | hc
    · rcases List.mem_cons.1 hc with rfl | hc
      · exact Path.isInside_ofNames hput
      · obtain ⟨e, he, rfl⟩ := List.mem_map.1 hc
        have hlast := hsteps last (List.mem_append_right _ (List.mem_singleton.2 rfl))
        exact (hext e he).isInside hput fun _ => hlast.1.append_ne hlast.2
    · obtain ⟨e, he, rfl⟩ := List.mem_map.1 hc
      have hne : front ++ [last] ≠ [] := by simp
      have hjoin : Path.ofNames (front ++ [last]) ++ "/index" =
          Path.ofNames (front ++ [last] ++ ["index"]) := by
        rw [← Path.ofNames_append_slash hne]
        rfl
      rw [hjoin]
      refine (hext e he).isInside (fun n hn => ?_) hindex
      rcases List.mem_append.1 hn with hn | hn
      · exact hput n hn
      · obtain rfl := List.mem_singleton.1 hn
        exact ⟨by decide, by decide⟩

/-- The path that a specifier means is as short as can be. -/
theorem shortest_of_pathOf? {specifier path : String} (h : pathOf? p file specifier = some path) :
    ∃ text, path = Path.shortest text := by
  unfold pathOf? at h
  split at h
  · exact ⟨_, (Option.some.inj h).symm⟩
  · split at h
    · exact ⟨_, (Option.some.inj h).symm⟩
    · cases h

/-! ## The same answers -/

/-- What a reference says in names is no path. -/
structure IsPlain (r : Import.Ref) : Prop where
  module : '/' ∉ r.module.toList
  names : ∀ n ∈ r.names, StaysPut n

theorem staysPut_moduleParts (h : '/' ∉ r.module.toList) : ∀ n ∈ moduleParts r, StaysPut n := by
  intro n hn
  unfold moduleParts at hn
  split at hn
  · cases hn
  · obtain ⟨cs, hcs, rfl⟩ := List.mem_map.1 hn
    refine ⟨?_, ?_⟩
    · rw [String.toList_ofList]
      exact fun hslash => h (Text.mem_of_mem_pieces hcs hslash)
    · intro hdots
      have hchars := congrArg String.toList hdots
      rw [String.toList_ofList] at hchars
      exact Text.not_mem_of_mem_pieces hcs (hchars ▸ by decide)

theorem staysPut_package (h : IsInside file) {package : List String}
    (hpackage : package? file r = some package) : ∀ n ∈ package, StaysPut n := by
  intro n hn
  unfold package? at hpackage
  simp only at hpackage
  split at hpackage
  · cases hpackage
  · obtain rfl := Option.some.inj hpackage
    have hsplit : n ∈ Text.split '/' file := (List.dropLast_sublist _).subset (List.mem_of_mem_take hn)
    refine ⟨Path.no_slash_of_mem_split hsplit, ?_⟩
    rintro rfl
    exact Path.isInside_iff.1 h hsplit

theorem isInside_baseCandidates (h : ∀ n ∈ target, StaysPut n) :
    ∀ c ∈ baseCandidates r target, IsInside c := by
  intro c hc
  unfold baseCandidates at hc
  split at hc
  · obtain rfl := List.mem_singleton.1 hc
    exact isInside_packageFile h
  · exact isInside_moduleCandidates h c hc

theorem isInside_relativeCandidates (hfile : IsInside file) (hplain : IsPlain r) :
    ∀ c ∈ relativeCandidates file r, IsInside c := by
  intro c hc
  unfold relativeCandidates at hc
  split at hc
  · cases hc
  · rename_i package hpackage
    have htarget : ∀ n ∈ package ++ moduleParts r, StaysPut n := by
      intro n hn
      rcases List.mem_append.1 hn with hn | hn
      · exact staysPut_package hfile hpackage n hn
      · exact staysPut_moduleParts hplain.module n hn
    rcases List.mem_append.1 hc with hc | hc
    · obtain ⟨name, hname, hc⟩ := List.mem_flatMap.1 hc
      refine isInside_moduleCandidates (fun n hn => ?_) c hc
      rcases List.mem_append.1 hn with hn | hn
      · exact htarget n hn
      · obtain rfl := List.mem_singleton.1 hn
        exact hplain.names n hname
    · exact isInside_baseCandidates htarget c hc

theorem isInside_webPathCandidates (hext : ∀ e ∈ p.webExtensions, Path.NeverClimbs e) :
    ∀ c ∈ webPathCandidates p file r, IsInside c := by
  intro c hc
  unfold webPathCandidates at hc
  split at hc
  · cases hc
  · rename_i path hpath
    obtain ⟨text, rfl⟩ := shortest_of_pathOf? hpath
    split at hc
    · cases hc
    · rename_i hescapes
      exact isInside_webCandidates hext (Bool.eq_false_iff.2 hescapes) c hc

theorem isInside_candidatesOf (hfile : IsInside file)
    (hext : ∀ e ∈ p.webExtensions, Path.NeverClimbs e) (hplain : r.language = .python → IsPlain r) :
    ∀ c ∈ FileImports.candidatesOf p file r, IsInside c := by
  intro c hc
  unfold FileImports.candidatesOf at hc
  split at hc
  · rename_i hpython
    split at hc
    · cases hc
    · exact isInside_relativeCandidates hfile (hplain hpython) c hc
  · exact isInside_webPathCandidates hext c hc

/-- Two pictures of one project that tell alike which of the paths are files. -/
structure SameAt (q p : Project) (paths : List String) : Prop where
  files : q.files = p.files
  modules : q.modules = p.modules
  webExtensions : q.webExtensions = p.webExtensions
  aliases : q.aliases = p.aliases
  isFile : ∀ path ∈ paths, q.isFile path = p.isFile path

namespace SameAt

variable {q : Project} {paths : List String}

theorem subset (h : SameAt q p paths) (hsub : candidates ⊆ paths) : SameAt q p candidates :=
  ⟨h.files, h.modules, h.webExtensions, h.aliases, fun c hc => h.isFile c (hsub hc)⟩

theorem find?_eq (h : SameAt q p candidates) : q.find? candidates = p.find? candidates := by
  induction candidates with
  | nil => rfl
  | cons c rest ih =>
    have hrest := ih (h.subset (List.subset_cons_self c rest))
    unfold Project.find?
    rw [h.files, h.isFile c (List.mem_cons_self ..), hrest]

theorem absolute_eq (h : SameAt q p paths) : absolute q r = absolute p r := by
  have hname : absoluteName q r = absoluteName p r := by
    funext name
    unfold absoluteName
    rw [h.modules]
  have hmodule : absoluteModule q r = absoluteModule p r := by
    unfold absoluteModule
    rw [h.modules]
  unfold absolute
  rw [hname, hmodule]

theorem base_eq (h : SameAt q p (baseCandidates r target)) :
    base q r target leftover = base p r target leftover := by
  unfold base
  rw [h.find?_eq]

theorem relativeNames_eq (h : SameAt q p (nameCandidates target names)) :
    relativeNames q target names = relativeNames p target names := by
  induction names with
  | nil => rfl
  | cons name rest ih =>
    have hfirst := (h.subset (List.subset_append_left (moduleCandidates (target ++ [name])) _)).find?_eq
    have hrest := ih (h.subset (List.subset_append_right (moduleCandidates (target ++ [name])) _))
    unfold relativeNames
    rw [hfirst, hrest]

theorem relative_eq (h : SameAt q p (relativeCandidates file r)) :
    relative q file r = relative p file r := by
  unfold relativeCandidates at h
  unfold relative
  cases hpackage : package? file r with
  | none => rfl
  | some package =>
    rw [hpackage] at h
    have hbase := h.subset (List.subset_append_right _ _)
    simp only [(h.subset (List.subset_append_left _ _)).relativeNames_eq, hbase.base_eq]

theorem web_eq (h : SameAt q p (webPathCandidates p file r)) : web q file r = web p file r := by
  have hpath : pathOf? q file r.module = pathOf? p file r.module := by
    unfold pathOf?
    rw [h.aliases]
  unfold webPathCandidates at h
  unfold web
  rw [hpath, h.webExtensions]
  cases hp : pathOf? p file r.module with
  | none => rfl
  | some path =>
    rw [hp] at h
    cases hescapes : escapes path with
    | true => simp only [hescapes, if_true]
    | false =>
      simp only [hescapes, Bool.false_eq_true, if_false] at h
      simp only [h.find?_eq]

/-- A reference means the same in two pictures that are alike where it is looked for. -/
theorem resolveRef_eq (h : SameAt q p (FileImports.candidatesOf p file r)) :
    FileImports.resolveRef q file r = FileImports.resolveRef p file r := by
  unfold FileImports.candidatesOf at h
  unfold FileImports.resolveRef
  cases hlanguage : r.language with
  | python =>
    rw [hlanguage] at h
    simp only at h ⊢
    unfold dotted
    split
    · rw [h.absolute_eq]
    · rename_i hlevel
      rw [if_neg hlevel] at h
      exact h.relative_eq
  | javascript =>
    rw [hlanguage] at h
    exact h.web_eq

end SameAt

/-- Two pictures of one project that tell alike which paths below its folder are files. -/
structure SameBelow (q p : Project) : Prop where
  files : q.files = p.files
  modules : q.modules = p.modules
  webExtensions : q.webExtensions = p.webExtensions
  aliases : q.aliases = p.aliases
  isFile : ∀ path, IsInside path → q.isFile path = p.isFile path

theorem sameBelow_ofFiles {files roots extensions : List String} {aliases : List (String × String)}
    {isFile isFile' : String → Except Disk.Fault Bool}
    (h : ∀ path, IsInside path → isFile' path = isFile path) :
    SameBelow (.ofFiles files roots extensions aliases isFile')
      (.ofFiles files roots extensions aliases isFile) := ⟨rfl, rfl, rfl, rfl, h⟩

namespace SameBelow

variable {q : Project} (h : SameBelow q p)

include h

theorem resolveRef_eq (hfile : IsInside file) (hext : ∀ e ∈ p.webExtensions, Path.NeverClimbs e)
    (hplain : r.language = .python → IsPlain r) :
    FileImports.resolveRef q file r = FileImports.resolveRef p file r := by
  apply SameAt.resolveRef_eq
  exact ⟨h.files, h.modules, h.webExtensions, h.aliases, fun c hc =>
    h.isFile c (isInside_candidatesOf hfile hext hplain c hc)⟩

theorem resolveAll_eq (hfile : IsInside file) (hext : ∀ e ∈ p.webExtensions, Path.NeverClimbs e)
    {refs : List Import.Ref} (hplain : ∀ r ∈ refs, r.language = .python → IsPlain r) :
    FileImports.resolveAll q file refs = FileImports.resolveAll p file refs := by
  induction refs with
  | nil => rfl
  | cons r rest ih =>
    unfold FileImports.resolveAll
    rw [h.resolveRef_eq hfile hext (hplain r (List.mem_cons_self ..)),
      ih fun r hr => hplain r (List.mem_cons_of_mem _ hr)]

end SameBelow

end Resolution

end LayerGate
