import LayerGate.Proofs.ImportedNames
import LayerGate.Proofs.JoinedText
import LayerGate.Resolution.FileImports

/-!
# Specifiers

A Python specifier is dots and then names with dots between them.  It tells both, and so do the
specifiers that a reference is reported by.
-/

namespace LayerGate

/-! ## Dots and names -/

namespace Import

variable {text : String} {parts qs : List String} {level level' : Nat}

theorem toList_pushn (c : Char) (n : Nat) : ("".pushn c n).toList = List.replicate n c := by
  unfold String.pushn
  induction n with
  | zero => rfl
  | succ n ih =>
    rw [Nat.repeat, String.toList_push, ih]
    exact List.replicate_succ'.symm

/-- Dots, then names with dots between them. -/
def spelled (level : Nat) (parts : List String) : String :=
  "".pushn '.' level ++ ".".intercalate parts

theorem intercalate_ne_empty (h : ∀ part ∈ parts, IsWord part) (hne : parts ≠ []) :
    ".".intercalate parts ≠ "" := by
  obtain ⟨part, rest, rfl⟩ := List.exists_cons_of_ne_nil hne
  have hword := (h part (List.mem_cons_self ..)).nonempty
  cases rest with
  | nil => rwa [String.intercalate_singleton]
  | cons next rest =>
    rw [String.intercalate_cons_cons]
    intro hempty
    have hnil := congrArg String.toList hempty
    rw [String.append_assoc, String.toList_append] at hnil
    exact hword (String.toList_eq_nil_iff.1 (List.append_eq_nil_iff.1 hnil).1)

theorem IsWord.head?_ne (h : IsWord text) (rest : List Char) :
    (text.toList ++ rest).head? ≠ some '.' := by
  cases hchars : text.toList with
  | nil => exact absurd (String.toList_eq_nil_iff.1 hchars) h.nonempty
  | cons c cs =>
    intro hdot
    refine h.no_dot ?_
    rw [hchars, ← Option.some.inj hdot]
    exact List.mem_cons_self ..

/-- Names between dots do not begin with a dot. -/
theorem head?_intercalate_ne (h : ∀ part ∈ parts, IsWord part) :
    (".".intercalate parts).toList.head? ≠ some '.' := by
  cases parts with
  | nil => nofun
  | cons part parts =>
    have hword := h part (List.mem_cons_self ..)
    cases parts with
    | nil => simpa using hword.head?_ne []
    | cons next parts =>
      rw [String.intercalate_cons_cons, String.append_assoc, String.toList_append]
      exact hword.head?_ne _

/-- Nor do they end with one. -/
theorem getLast?_intercalate_ne (h : ∀ part ∈ parts, IsWord part) :
    (".".intercalate parts).toList.getLast? ≠ some '.' := by
  induction parts with
  | nil => nofun
  | cons part parts ih =>
    obtain ⟨hword, hrest⟩ := List.forall_mem_cons.1 h
    cases parts with
    | nil =>
      rw [String.intercalate_singleton]
      exact fun hlast => hword.no_dot (List.mem_of_getLast? hlast)
    | cons next parts =>
      have hne : (".".intercalate (next :: parts)).toList ≠ [] := fun hnil =>
        intercalate_ne_empty hrest (List.cons_ne_nil _ _) (String.toList_eq_nil_iff.1 hnil)
      rw [String.intercalate_cons_cons, String.toList_append, List.getLast?_append_of_ne_nil _ hne]
      exact ih hrest

theorem toList_spelled (level : Nat) (parts : List String) : (spelled level parts).toList =
    List.replicate level '.' ++ (".".intercalate parts).toList := by
  unfold spelled
  rw [String.toList_append, toList_pushn]

/-- The names begin behind the last of the leading dots. -/
theorem takeWhile_spelled (level : Nat) (h : ∀ part ∈ parts, IsWord part) :
    (spelled level parts).toList.takeWhile (· = '.') = List.replicate level '.' := by
  have hhead := head?_intercalate_ne h
  rw [toList_spelled,
    List.takeWhile_append_of_pos fun c hc => decide_eq_true (List.eq_of_mem_replicate hc)]
  cases hrest : (".".intercalate parts).toList with
  | nil => exact List.append_nil _
  | cons c cs =>
    rw [hrest] at hhead
    have hc : c ≠ '.' := fun he => hhead (congrArg some he)
    rw [List.takeWhile_cons_of_neg (by simpa using hc), List.append_nil]

/-- A specifier tells its dots and its names. -/
theorem spelled_inj (hps : ∀ part ∈ parts, IsWord part) (hqs : ∀ part ∈ qs, IsWord part)
    (h : spelled level parts = spelled level' qs) : level = level' ∧ parts = qs := by
  have hdots : List.replicate level '.' = List.replicate level' '.' := by
    rw [← takeWhile_spelled level hps, h, takeWhile_spelled level' hqs]
  have hlevel : level = level' := by
    simpa using congrArg List.length hdots
  have hchars := congrArg String.toList h
  rw [toList_spelled, toList_spelled, hdots] at hchars
  have hnames : ".".intercalate parts = ".".intercalate qs :=
    String.toList_inj.1 (List.append_cancel_left hchars)
  refine ⟨hlevel, ?_⟩
  by_cases hp : parts = [] <;> by_cases hq : qs = []
  · rw [hp, hq]
  · rw [hp] at hnames
    exact absurd hnames.symm (intercalate_ne_empty hqs hq)
  · rw [hq] at hnames
    exact absurd hnames (intercalate_ne_empty hps hp)
  · exact Text.intercalate_inj rfl hp hq (fun part h => (hps part h).no_dot)
      (fun part h => (hqs part h).no_dot) hnames

end Import

open Import (IsWord IsSpelled spelled)

/-! ## Modules of one name -/

namespace ModuleIndex

variable {m : ModuleIndex} {parts : List String} {file : String}

theorem bareName_intercalate (h : ∀ part ∈ parts, IsWord part) :
    bareName (".".intercalate parts) = ".".intercalate parts := by
  have hdrop : ∀ cs : List Char, cs.head? ≠ some '.' → cs.dropWhile (· = '.') = cs := by
    intro cs hhead
    cases cs with
    | nil => rfl
    | cons c cs => exact List.dropWhile_cons_of_neg (by simpa using hhead)
  unfold bareName Text.trim
  rw [hdrop _ (Import.head?_intercalate_ne h), hdrop, List.reverse_reverse, String.ofList_toList]
  rw [List.head?_reverse]
  exact Import.getLast?_intercalate_ne h

/-- The longest beginning is the whole. -/
theorem getLast?_beginnings {α : Type} {as : List α} (h : as ≠ []) :
    (beginnings as).getLast? = some as := by
  induction as with
  | nil => exact absurd rfl h
  | cons a as ih =>
    cases as with
    | nil => rfl
    | cons b as =>
      have hne : (beginnings (b :: as)).map (a :: ·) ≠ [] := by
        rw [Ne, List.map_eq_nil_iff]
        nofun
      rw [beginnings, List.getLast?_cons_of_ne_nil hne, List.getLast?_map, ih (List.cons_ne_nil _ _)]
      rfl

/-- Cut before its dots, a dotted name has the beginnings of its parts. -/
theorem longest?_intercalate (hne : parts ≠ []) (h : ∀ part ∈ parts, IsWord part) :
    m.longest? (".".intercalate parts) =
      (beginnings parts).reverse.findSome? fun parts => m.file? (".".intercalate parts) := by
  have hsplit : Text.split '.' (".".intercalate parts) = parts :=
    Text.split_intercalate rfl hne fun part hpart => (h part hpart).no_dot
  unfold longest?
  simp only [bareName_intercalate h]
  rw [if_neg (Import.intercalate_ne_empty h hne), hsplit]

/-- A name that is a module means that module. -/
theorem longest?_of_file? (hne : parts ≠ []) (h : ∀ part ∈ parts, IsWord part)
    (hfile : m.file? (".".intercalate parts) = some file) :
    m.longest? (".".intercalate parts) = some file := by
  obtain ⟨shorter, hall⟩ := List.getLast?_eq_some_iff.1 (getLast?_beginnings hne)
  rw [longest?_intercalate hne h, hall, List.reverse_concat, List.findSome?_cons, hfile]

theorem beginnings_concat {α : Type} (as : List α) (a : α) :
    beginnings (as ++ [a]) = beginnings as ++ [as ++ [a]] := by
  induction as with
  | nil => rfl
  | cons b as ih =>
    rw [List.cons_append, beginnings, ih, List.map_append]
    rfl

/-- A name that is no module means what its package means. -/
theorem longest?_concat {name : String} (hne : parts ≠ []) (h : ∀ part ∈ parts ++ [name], IsWord part)
    (hnone : m.file? (".".intercalate (parts ++ [name])) = none) :
    m.longest? (".".intercalate (parts ++ [name])) = m.longest? (".".intercalate parts) := by
  have hparts : ∀ part ∈ parts, IsWord part := fun part hpart => h part (List.mem_append_left _ hpart)
  rw [longest?_intercalate (by simp) h, longest?_intercalate hne hparts, beginnings_concat,
    List.reverse_concat, List.findSome?_cons, hnone]

end ModuleIndex

namespace Resolution

variable {r : Import.Ref} {parts : List String}

/-! ## The parts of a reference -/

theorem moduleParts_intercalate (hne : parts ≠ [])
    (h : ∀ part ∈ parts, IsWord part) (hmodule : r.module = ".".intercalate parts) :
    moduleParts r = parts := by
  unfold moduleParts
  rw [hmodule, if_neg (Import.intercalate_ne_empty h hne)]
  exact Text.split_intercalate rfl hne fun part hpart => (h part hpart).no_dot

theorem isWord_moduleParts (h : IsSpelled r) : ∀ part ∈ moduleParts r, IsWord part := by
  rcases h.module with ⟨parts, hne, hparts, hmodule⟩ | ⟨hbare, -⟩
  · rwa [moduleParts_intercalate hne hparts hmodule]
  · unfold moduleParts
    rw [if_pos hbare]
    nofun

theorem isWord_moduleParts_concat {name : String} (h : IsSpelled r) (hname : name ∈ r.names) :
    ∀ part ∈ moduleParts r ++ [name], IsWord part := by
  intro part hpart
  rcases List.mem_append.1 hpart with hpart | hpart
  · exact isWord_moduleParts h part hpart
  · obtain rfl := List.mem_singleton.1 hpart
    exact h.names _ hname

theorem module_eq (h : IsSpelled r) : r.module = ".".intercalate (moduleParts r) := by
  rcases h.module with ⟨parts, hne, hparts, hmodule⟩ | ⟨hbare, -⟩
  · rw [moduleParts_intercalate hne hparts hmodule, hmodule]
  · unfold moduleParts
    rw [if_pos hbare, hbare]
    rfl

/-- An absolute reference names a module. -/
theorem moduleParts_ne_nil (h : IsSpelled r) (hlevel : r.level = 0) : moduleParts r ≠ [] := by
  rcases h.module with ⟨parts, hne, hparts, hmodule⟩ | ⟨-, hrelative⟩
  · rwa [moduleParts_intercalate hne hparts hmodule]
  · exact absurd hlevel hrelative

theorem specifier_eq (h : IsSpelled r) : r.specifier = spelled r.level (moduleParts r) := by
  unfold Import.Ref.specifier spelled
  rw [module_eq h]

theorem nameSpecifier_eq (h : IsSpelled r) (name : String) :
    nameSpecifier r name = spelled r.level (moduleParts r ++ [name]) := by
  unfold nameSpecifier
  split
  · rename_i hbare
    unfold moduleParts
    rw [if_pos hbare]
    simp [dots, spelled]
  · rename_i hmodule
    have hne : moduleParts r ≠ [] := by
      intro hnil
      rw [module_eq h, hnil] at hmodule
      exact hmodule rfl
    rw [specifier_eq h, spelled, spelled,
      String.intercalate_append_of_ne_nil hne (List.cons_ne_nil _ _), String.intercalate_singleton]
    simp [String.append_assoc]

end Resolution

end LayerGate
