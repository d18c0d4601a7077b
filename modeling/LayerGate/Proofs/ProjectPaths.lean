import LayerGate.Proofs.Candidates
import Mathlib.Data.List.TakeWhile

/-!
# Paths of a project

A path below a folder is told by names that go down.  Steps that also climb lead to a folder below, to
the folder itself or out of it, and the shortest text of a path says which.
-/

namespace LayerGate

/-- Where two texts meet at a separator, the pieces are those of both. -/
theorem Text.pieces_append {sep : Char} (p cs : List Char) :
    pieces sep (p ++ sep :: cs) = pieces sep p ++ pieces sep cs := by
  induction p with
  | nil =>
    show pieces sep (sep :: cs) = [] :: pieces sep cs
    rw [pieces, if_pos rfl]
  | cons c p ih =>
    rw [List.cons_append, pieces, pieces, ih]
    split
    · rfl
    · cases hpieces : pieces sep p with
      | nil => exact absurd hpieces (pieces_ne_nil sep p)
      | cons q qs => rfl

namespace Path

variable {path text last ext name : String} {ns front here steps there done rest folders : List String}

/-! ## Names that go down -/

/-- A step to a folder or file below. -/
structure IsDown (name : String) : Prop extends IsStep name where
  ne_dots : name ≠ ".."

/-- A path below a folder, with nothing to be left out of it. -/
structure IsBelow (path : String) : Prop where
  nonempty : path ≠ ""
  relative : path.startsWith "/" = false
  components : ∀ n ∈ Text.split '/' path, n ≠ "" ∧ n ≠ "." ∧ n ≠ ".."

theorem IsBelow.isDown (h : IsBelow path) : ∀ n ∈ Text.split '/' path, IsDown n := by
  intro n hn
  obtain ⟨hempty, hdot, hdots⟩ := h.components n hn
  exact ⟨⟨no_slash_of_mem_split hn, hempty, hdot⟩, hdots⟩

theorem isBelow_ofNames (hne : ns ≠ []) (h : ∀ n ∈ ns, IsDown n) : IsBelow (ofNames ns) where
  nonempty := ofNames_ne_empty hne fun n hn => (h n hn).toIsStep
  relative := by
    rw [Bool.eq_false_iff, Ne, startsWith_slash_iff]
    exact ofNames_head?_ne fun n hn => (h n hn).toIsStep
  components n hn := by
    rw [split_ofNames hne fun m hm => (h m hm).no_slash] at hn
    exact ⟨(h n hn).ne_empty, (h n hn).ne_dot, (h n hn).ne_dots⟩

/-- What is added to a step that goes down, goes down. -/
theorem IsDown.append (h : IsDown name) (hext : '/' ∉ ext.toList) : IsDown (name ++ ext) where
  no_slash := by
    rw [String.toList_append, List.mem_append, not_or]
    exact ⟨h.no_slash, hext⟩
  ne_empty hempty := by
    have hchars := congrArg String.toList hempty
    rw [String.toList_append] at hchars
    exact h.ne_empty (String.toList_eq_nil_iff.1 (List.append_eq_nil_iff.1 hchars).1)
  ne_dot hdot := by
    have hchars : name.toList ++ ext.toList = ['.'] := by
      rw [← String.toList_append, hdot]
      rfl
    rcases List.append_eq_singleton_iff.1 hchars with ⟨hname, -⟩ | ⟨hname, -⟩
    · exact h.ne_empty (String.toList_eq_nil_iff.1 hname)
    · exact h.ne_dot (String.toList_inj.1 hname)
  ne_dots := h.toIsStep.append_ne h.ne_dots

theorem isDown_concat (h : ∀ n ∈ ns, IsDown n) (hname : IsDown name) : ∀ n ∈ ns ++ [name], IsDown n :=
  List.forall_mem_append.2 ⟨h, List.forall_mem_singleton.2 hname⟩

/-- An extension of a path below a folder is below it too. -/
theorem isBelow_append (hne : ns ≠ []) (h : ∀ n ∈ ns, IsDown n) (hext : '/' ∉ ext.toList) :
    IsBelow (ofNames ns ++ ext) := by
  obtain ⟨front, last, rfl⟩ := (List.eq_nil_or_concat ns).resolve_left hne
  rw [List.concat_eq_append] at h ⊢
  obtain ⟨hfront, hlast⟩ := List.forall_mem_append.1 h
  rw [ofNames_concat_append]
  refine isBelow_ofNames (by simp) (isDown_concat hfront ?_)
  exact (List.forall_mem_singleton.1 hlast).append hext

/-! ## Where steps lead -/

/-- Where steps lead from a folder of the project; `none` if they climb above the project. -/
def along? : (here steps : List String) → Option (List String)
  | here, [] => some here
  | here, ".." :: steps => if here = [] then none else along? here.dropLast steps
  | here, name :: steps => along? (here ++ [name]) steps

/-- Where steps lead, all names go down. -/
theorem isDown_of_along? (hhere : ∀ n ∈ here, IsDown n) (hsteps : ∀ n ∈ steps, IsStep n)
    (h : along? here steps = some there) : ∀ n ∈ there, IsDown n := by
  fun_induction along? here steps with
  | case1 here =>
    cases h
    exact hhere
  | case2 => cases h
  | case3 here steps _ ih =>
    refine ih (fun n hn => hhere n (List.dropLast_subset _ hn)) ?_ h
    exact fun n hn => hsteps n (List.mem_cons_of_mem _ hn)
  | case4 here name steps hname ih =>
    obtain ⟨hstep, hrest⟩ := List.forall_mem_cons.1 hsteps
    exact ih (isDown_concat hhere ⟨hstep, hname⟩) hrest h

/-- Once a shortened path climbs, it goes on to start with a climb. -/
theorem climb_concat_dots : ∃ rest, climb false (done ++ [".."]) steps = ".." :: rest := by
  -- A further climb takes back a name or is added to the first; that one is never taken back.
  induction steps generalizing done with
  | nil => exact ⟨done.reverse, by rw [climb, List.reverse_concat]⟩
  | cons name steps ih =>
    by_cases hdots : name = ".."
    · subst hdots
      cases done with
      | nil => exact @ih [".."]
      | cons n done =>
        by_cases hn : n = ".."
        · subst hn
          exact @ih (".." :: ".." :: done)
        · have hback : climb false (n :: done ++ [".."]) (".." :: steps) =
              climb false (done ++ [".."]) steps := by
            rw [List.cons_append, climb]
            exact hn
          rw [hback]
          exact ih
    · have hon : climb false (done ++ [".."]) (name :: steps) =
          climb false (name :: done ++ [".."]) steps := by
        rw [climb]
        · rfl
        · exact hdots
      rw [hon]
      exact ih

/-- A shortened path is where its steps lead, or it starts with a climb. -/
theorem climb_eq_along? (hhere : ".." ∉ here) :
    (∀ there, along? here steps = some there → climb false here.reverse steps = there) ∧
      (along? here steps = none → ∃ rest, climb false here.reverse steps = ".." :: rest) := by
  fun_induction along? here steps with
  | case1 here =>
    refine ⟨fun there h => ?_, fun h => absurd h (Option.some_ne_none _)⟩
    obtain rfl := Option.some.inj h
    rw [climb, List.reverse_reverse]
  | case2 steps =>
    refine ⟨fun there h => absurd h.symm (Option.some_ne_none there), fun _ => ?_⟩
    have hdots : ∃ rest, climb false ([] ++ [".."]) steps = ".." :: rest := climb_concat_dots
    exact hdots
  | case3 here steps hne ih =>
    obtain ⟨front, last, rfl⟩ := (List.eq_nil_or_concat here).resolve_left hne
    rw [List.concat_eq_append] at hhere ih ⊢
    rw [List.mem_append, not_or, List.mem_singleton] at hhere
    rw [List.dropLast_concat] at ih ⊢
    have hback : climb false (front ++ [last]).reverse (".." :: steps) =
        climb false front.reverse steps := by
      rw [List.reverse_concat, climb]
      exact fun heq => hhere.2 heq.symm
    rw [hback]
    exact ih hhere.1
  | case4 here name steps hname ih =>
    have hon : climb false here.reverse (name :: steps) = climb false (here ++ [name]).reverse steps := by
      rw [List.reverse_append, climb]
      · rfl
      · exact hname
    rw [hon]
    refine ih ?_
    rw [List.mem_append, not_or, List.mem_singleton]
    exact ⟨hhere, Ne.symm hname⟩

/-! ## The shortest text -/

/-- The project itself has no names, and is written as a dot. -/
def placeText (there : List String) : String := if there = [] then "." else ofNames there

theorem not_escapes_of_isBelow (h : IsBelow path) : Resolution.escapes path = false := by
  have hfirst : ¬ path.startsWith "../" = true := by
    rw [String.startsWith_string_iff]
    rintro ⟨rest, hrest⟩
    have hsplit : ".." ∈ Text.split '/' path := by
      unfold Text.split
      rw [← hrest]
      exact List.mem_cons_self ..
    exact (h.components _ hsplit).2.2 rfl
  have hdots : path ≠ ".." := by
    rintro rfl
    exact (h.components ".." (by decide)).2.2 rfl
  unfold Resolution.escapes
  simp only [hdots, decide_false, Bool.eq_false_iff.2 hfirst, h.relative, Bool.or_false]

theorem shortest_eq (hrelative : path.startsWith "/" = false) :
    shortest path = if ofNames (climb false [] (names path)) = "" then "."
      else ofNames (climb false [] (names path)) := by
  unfold shortest
  rw [behindSlashes_relative hrelative, hrelative]

/-- A relative path leads out of the project just if its steps climb above it. -/
theorem escapes_shortest (hrelative : path.startsWith "/" = false) (h : along? [] (names path) = none) :
    Resolution.escapes (shortest path) = true := by
  obtain ⟨rest, hclimb⟩ := (climb_eq_along? List.not_mem_nil).2 h
  rw [List.reverse_nil] at hclimb
  rw [shortest_eq hrelative, hclimb]
  exact escapes_of_dots

theorem shortest_of_along? (hrelative : path.startsWith "/" = false)
    (h : along? [] (names path) = some there) :
    shortest path = placeText there ∧ Resolution.escapes (shortest path) = false ∧
      ∀ n ∈ there, IsDown n := by
  have hnone : ∀ n ∈ ([] : List String), IsDown n := nofun
  have hdown := isDown_of_along? hnone (fun _ => isStep_of_mem_names) h
  have hclimb := (climb_eq_along? List.not_mem_nil).1 there h
  rw [List.reverse_nil] at hclimb
  rw [shortest_eq hrelative, hclimb, placeText]
  by_cases hroot : there = []
  · subst hroot
    exact ⟨rfl, by decide +kernel, hnone⟩
  · have hbelow := isBelow_ofNames hroot hdown
    rw [if_neg hbelow.nonempty, if_neg hroot]
    exact ⟨rfl, not_escapes_of_isBelow hbelow, hdown⟩

/-! ## Paths beside a file -/

/-- Joined names do not end in a slash. -/
theorem ofNames_getLast?_ne (h : ∀ n ∈ ns, IsStep n) : (ofNames ns).toList.getLast? ≠ some '/' := by
  rcases List.eq_nil_or_concat ns with rfl | ⟨front, last, rfl⟩
  · nofun
  · rw [List.concat_eq_append] at h ⊢
    have hlast := h last (List.mem_append_right _ (List.mem_singleton_self _))
    have htext : ofNames (front ++ [last]) = ofNames (front ++ [""]) ++ last := by
      rw [ofNames_concat_append, String.empty_append]
    rw [htext, String.toList_append, List.getLast?_append]
    cases hend : last.toList.getLast? with
    | none => exact absurd (String.toList_eq_nil_iff.1 (List.getLast?_eq_none_iff.1 hend)) hlast.ne_empty
    | some c =>
      intro hslash
      obtain rfl : c = '/' := Option.some.inj hslash
      exact hlast.no_slash (List.mem_of_getLast? hend)

/-- What stands before the last name of a file is its folder. -/
theorem parent_ofNames (h : ∀ n ∈ front ++ [last], IsStep n) :
    parent (ofNames (front ++ [last])) = ofNames front := by
  have hlast := h last (List.mem_append_right _ (List.mem_singleton_self _))
  have hskip : ∀ c ∈ last.toList.reverse, decide (c ≠ '/') = true := by
    intro c hc
    exact decide_eq_true fun heq => hlast.no_slash (heq ▸ List.mem_reverse.1 hc)
  unfold parent
  by_cases hne : front = []
  · subst hne
    have hnone : last.toList.reverse.dropWhile (· ≠ '/') = [] :=
      List.dropWhile_eq_nil_iff.2 hskip
    rw [List.nil_append, ofNames, String.intercalate_singleton, hnone]
    rfl
  · have hfront : ∀ n ∈ front, IsStep n := fun n hn => h n (List.mem_append_left _ hn)
    have hchars : (ofNames (front ++ [last])).toList.reverse =
        last.toList.reverse ++ '/' :: (ofNames front).toList.reverse := by
      rw [ofNames_concat hne, String.toList_append, String.toList_append]
      simp
    have hkept : (ofNames front).toList.reverse.dropWhile (· = '/') = (ofNames front).toList.reverse := by
      have hend := ofNames_getLast?_ne hfront
      rw [← List.head?_reverse] at hend
      cases hrev : (ofNames front).toList.reverse with
      | nil => rfl
      | cons c cs =>
        rw [hrev] at hend
        exact List.dropWhile_cons_of_neg fun hc => hend (congrArg some (of_decide_eq_true hc))
    have hstop : ('/' :: (ofNames front).toList.reverse).dropWhile (· ≠ '/') =
        '/' :: (ofNames front).toList.reverse := List.dropWhile_cons_of_neg (by decide)
    have hslash : ('/' :: (ofNames front).toList.reverse).dropWhile (· = '/') =
        (ofNames front).toList.reverse := by
      rw [List.dropWhile_cons_of_pos (by decide), hkept]
    rw [hchars, List.dropWhile_append_of_pos hskip, hstop]
    simp only [hslash]
    split
    · rename_i hnil
      rw [List.reverse_eq_nil_iff, String.toList_eq_nil_iff] at hnil
      exact absurd hnil (ofNames_ne_empty hne hfront)
    · rw [List.reverse_reverse, String.ofList_toList]

theorem names_append_slash : names (path ++ "/" ++ text) = names path ++ names text := by
  have hchars : (path ++ "/" ++ text).toList = path.toList ++ '/' :: text.toList := by
    rw [String.toList_append, String.toList_append, List.append_assoc]
    rfl
  unfold names Text.split
  rw [hchars, Text.pieces_append, List.map_append, List.filter_append]

/-- Names with something behind them are a relative path. -/
theorem relative_ofNames_append (hne : ns ≠ []) (h : ∀ n ∈ ns, IsStep n) :
    (ofNames ns ++ text).startsWith "/" = false := by
  rw [Bool.eq_false_iff, Ne, startsWith_slash_iff, String.toList_append, List.head?_append]
  have hhead := ofNames_head?_ne h
  cases hfirst : (ofNames ns).toList.head? with
  | none =>
    exact absurd (String.toList_eq_nil_iff.1 (List.head?_eq_none_iff.1 hfirst)) (ofNames_ne_empty hne h)
  | some c => rwa [hfirst] at hhead

/-- A relative path stands behind the folder that it is seen from. -/
theorem join_ofNames (h : ∀ n ∈ folders, IsStep n) (hrelative : path.startsWith "/" = false) :
    join (ofNames folders) path = if folders = [] then path else ofNames folders ++ "/" ++ path := by
  unfold join
  by_cases hne : folders = []
  · subst hne
    rw [if_pos (.inr rfl), if_pos rfl]
  · have hends : ¬ (ofNames folders).endsWith "/" = true := by
      rw [endsWith_iff]
      rintro ⟨rest, hrest⟩
      refine ofNames_getLast?_ne h ?_
      rw [← hrest]
      exact List.getLast?_concat
    rw [if_neg (not_or.2 ⟨by rw [hrelative]; exact Bool.false_ne_true, ofNames_ne_empty hne h⟩),
      if_neg hends, if_neg hne]

/-- Seen from a folder of the project, a relative path is a relative path still. -/
theorem names_join (h : ∀ n ∈ folders, IsStep n) (hrelative : path.startsWith "/" = false) :
    names (join (ofNames folders) path) = folders ++ names path ∧
      (join (ofNames folders) path).startsWith "/" = false := by
  rw [join_ofNames h hrelative]
  split
  · rename_i hnil
    rw [hnil]
    exact ⟨rfl, hrelative⟩
  · rename_i hne
    rw [names_append_slash, names_ofNames h, String.append_assoc]
    exact ⟨rfl, relative_ofNames_append hne h⟩

end Path

end LayerGate
