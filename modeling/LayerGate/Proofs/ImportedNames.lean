import Mathlib
import LayerGate.Import.Indented.Source
import LayerGate.Proofs.Candidates

/-!
# The names in a source

Whatever a source imports, its modules and names are identifiers.
-/

namespace LayerGate

namespace Import

/-! ## Spelling -/

/-- An identifier, as far as its characters go. -/
structure IsWord (text : String) : Prop where
  nonempty : text ≠ ""
  plain : ∀ c ∈ text.toList, Text.isIdentifierPart c = true

/-- Identifiers with dots between them. -/
def IsDotted (module : String) : Prop :=
  ∃ parts, parts ≠ [] ∧ (∀ part ∈ parts, IsWord part) ∧ module = ".".intercalate parts

/-- A Python reference as a source can spell it: only behind dots may the module be left out. -/
structure IsSpelled (r : Ref) : Prop where
  python : r.language = .python
  module : IsDotted r.module ∨ r.module = "" ∧ r.level ≠ 0
  names : ∀ n ∈ r.names, IsWord n

variable {text module : String}

theorem IsWord.no_dot (h : IsWord text) : '.' ∉ text.toList :=
  fun hdot => absurd ((h.plain _ hdot).symm.trans Text.isIdentifierPart_dot) (by decide)

theorem IsWord.no_slash (h : IsWord text) : '/' ∉ text.toList :=
  fun hslash => absurd ((h.plain _ hslash).symm.trans Text.isIdentifierPart_slash) (by decide)

theorem IsWord.staysPut (h : IsWord text) : Path.StaysPut text :=
  ⟨h.no_slash, fun he => h.no_dot (he ▸ by decide)⟩

theorem IsWord.isDotted (h : IsWord text) : IsDotted text := by
  refine ⟨[text], List.cons_ne_nil _ _, fun part hpart => ?_, (String.intercalate_singleton).symm⟩
  rw [List.mem_singleton.1 hpart]
  exact h

theorem IsDotted.cons (h : IsDotted module) (hword : IsWord text) : IsDotted (text ++ "." ++ module) := by
  obtain ⟨parts, hne, hparts, rfl⟩ := h
  refine ⟨text :: parts, List.cons_ne_nil _ _, List.forall_mem_cons.2 ⟨hword, hparts⟩, ?_⟩
  obtain ⟨part, parts, rfl⟩ := List.exists_cons_of_ne_nil hne
  rw [String.intercalate_cons_cons]

theorem IsDotted.no_slash (h : IsDotted module) : '/' ∉ module.toList := by
  obtain ⟨parts, -, hparts, rfl⟩ := h
  intro hslash
  rcases Text.mem_intercalate rfl hslash with heq | ⟨part, hpart, hc⟩
  · exact absurd heq (by decide)
  · exact (hparts part hpart).no_slash hc

theorem IsSpelled.isPlain {r : Ref} (h : IsSpelled r) : Resolution.IsPlain r where
  module := by
    rcases h.module with hdotted | ⟨hbare, -⟩
    · exact hdotted.no_slash
    · rw [hbare]
      decide
  names n hn := (h.names n hn).staysPut

end Import

namespace Import.Indented

variable {α β : Type} {fuel : Nat}

/-! ## What a parse gives -/

/-- Whatever the parse takes off a stream has the property. -/
def Parse.Gives (p : Parse α) (P : α → Prop) : Prop := ∀ ts a rest, p ts = .ok (a, rest) → P a

namespace Parse

variable {p : Parse α} {f : α → Parse β} {P : α → Prop} {R : β → Prop}

theorem gives_pure {a : α} (h : P a) : (pure a : Parse α).Gives P := by
  intro ts b rest hrun
  cases hrun
  exact h

theorem Gives.bind (hp : p.Gives P) (hf : ∀ a, P a → (f a).Gives R) : (p >>= f).Gives R := by
  intro ts b rest hrun
  cases hfirst : p ts with
  | error e =>
    have hfail : (p >>= f) ts = .error e := by
      show (p ts >>= fun x => f x.1 x.2) = _
      rw [hfirst]
      rfl
    exact nomatch hfail.symm.trans hrun
  | ok x =>
    obtain ⟨a, mid⟩ := x
    have hnext : (p >>= f) ts = f a mid := by
      show (p ts >>= fun x => f x.1 x.2) = _
      rw [hfirst]
      rfl
    exact hf a (hp ts a mid hfirst) mid b rest (hnext.symm.trans hrun)

/-- What is taken off first need not matter. -/
theorem gives_bind (hf : ∀ a, (f a).Gives R) : (p >>= f).Gives R :=
  Gives.bind (P := fun _ => True) (fun _ _ _ _ => trivial) fun a _ => hf a

theorem gives_unexpected : (unexpected : Parse α).Gives P := by
  intro ts a rest hrun
  cases hrun

theorem gives_failWith {fault : Fault} : (failWith fault : Parse α).Gives P := by
  intro ts a rest hrun
  match ts with
  | [] => cases hrun
  | t :: ts =>
    obtain ⟨kind, line, depth⟩ := t
    cases kind <;> cases hrun

theorem gives_ite {c : Prop} [Decidable c] {q : Parse α} (hp : p.Gives P) (hq : q.Gives P) :
    (if c then p else q).Gives P := by
  split
  · exact hp
  · exact hq

theorem Gives.orElse {q : Parse α} (hp : p.Gives P) (hq : q.Gives P) : (Parse.orElse p q).Gives P := by
  intro ts a rest hrun
  unfold Parse.orElse at hrun
  cases hfirst : p ts with
  | ok r =>
    rw [hfirst] at hrun
    cases hrun
    exact hp ts a rest hfirst
  | error e =>
    rw [hfirst] at hrun
    cases hsecond : q ts with
    | ok r =>
      rw [hsecond] at hrun
      cases hrun
      exact hq ts a rest hsecond
    | error e' =>
      rw [hsecond] at hrun
      cases hrun

end Parse

open Parse

/-! ## Names -/

theorem Name.isWord (n : Name) : IsWord n.text := ⟨n.isPlain.1, List.all_eq_true.1 n.isPlain.2⟩

/-- References that are spelled by identifiers. -/
def AllSpelled (refs : List Ref) : Prop := ∀ r ∈ refs, IsSpelled r

theorem allSpelled_nil : AllSpelled [] := nofun

theorem AllSpelled.append {xs ys : List Ref} (hx : AllSpelled xs) (hy : AllSpelled ys) :
    AllSpelled (xs ++ ys) := by
  intro r hr
  rcases List.mem_append.1 hr with hr | hr
  · exact hx r hr
  · exact hy r hr

theorem gives_append {xs : List Ref} {q : Parse (List Ref)} (hx : AllSpelled xs) (hq : q.Gives AllSpelled) :
    (do return xs ++ (← q) : Parse (List Ref)).Gives AllSpelled :=
  hq.bind fun _ hy => gives_pure (hx.append hy)

/-! ## Imports -/

theorem gives_dottedName : (dottedName fuel).Gives IsDotted := by
  induction fuel with
  | zero => exact gives_unexpected
  | succ fuel ih =>
    unfold dottedName
    refine gives_bind fun first => gives_bind fun more => gives_ite ?_ ?_
    · exact ih.bind fun rest hrest => gives_pure (hrest.cons first.isWord)
    · exact gives_pure first.isWord.isDotted

theorem gives_importedModules {at_ : Nat} : (importedModules fuel at_).Gives AllSpelled := by
  induction fuel with
  | zero => exact gives_unexpected
  | succ fuel ih =>
    unfold importedModules
    refine gives_dottedName.bind fun module hmodule => gives_bind fun _ => gives_bind fun _ => ?_
    have href : AllSpelled [⟨at_, module, [], 0, .python⟩] := by
      intro r hr
      obtain rfl := List.mem_singleton.1 hr
      exact ⟨rfl, .inl hmodule, nofun⟩
    exact gives_ite (gives_append href ih) (gives_pure href)

theorem gives_fromImport {at_ : Nat} : (fromImport fuel at_).Gives IsSpelled := by
  unfold fromImport
  refine gives_bind fun level => gives_bind fun next => ?_
  -- The module is named, or left out behind dots.
  let Fits (module : String) : Prop := IsDotted module ∨ module = "" ∧ level ≠ 0
  have hrest : ∀ module, Fits module → ∀ (names : Parse (List Name)),
      (names >>= fun names => pure ⟨at_, module, names.map Name.text, level, .python⟩ :
        Parse Ref).Gives IsSpelled := by
    intro module hmodule names
    refine gives_bind fun names => gives_pure ⟨rfl, hmodule, fun n hn => ?_⟩
    obtain ⟨name, -, rfl⟩ := List.mem_map.1 hn
    exact name.isWord
  have hmodule : ∀ module, Fits module → (do
      expectWord "import"
      let isAll ← acceptOp "*"
      let isEnclosed ← acceptOp "("
      if isAll = true then do
        let names ← pure []
        pure ⟨at_, module, names.map Name.text, level, .python⟩
      else if isEnclosed = true then do
        let names ← enclosedNames fuel
        pure ⟨at_, module, names.map Name.text, level, .python⟩
      else do
        let names ← openNames fuel
        pure ⟨at_, module, names.map Name.text, level, .python⟩ : Parse Ref).Gives IsSpelled := by
    intro module hmodule
    refine gives_bind fun _ => gives_bind fun _ => gives_bind fun _ => ?_
    exact gives_ite (hrest module hmodule _) (gives_ite (hrest module hmodule _) (hrest module hmodule _))
  split
  · rename_i hbare
    exact (gives_pure (P := Fits) (.inr ⟨rfl, hbare.1⟩)).bind hmodule
  · exact gives_dottedName.bind fun module hdotted => hmodule module (.inl hdotted)

/-! ## Simple statements -/

theorem gives_simpleStatement : (simpleStatement fuel).Gives AllSpelled := by
  have hnone : ∀ {p : Parse Unit}, (do p; return [] : Parse (List Ref)).Gives AllSpelled :=
    gives_bind fun _ => gives_pure allSpelled_nil
  have hempty : (pure [] : Parse (List Ref)).Gives AllSpelled := gives_pure allSpelled_nil
  unfold simpleStatement
  refine gives_bind fun at_ => gives_bind fun kind => ?_
  split
  · exact gives_bind fun _ => gives_importedModules
  · refine gives_bind fun _ => gives_fromImport.bind fun r hr => gives_pure ?_
    intro r' hr'
    obtain rfl := List.mem_singleton.1 hr'
    exact hr
  -- No other statement imports anything.
  · exact hnone
  · exact hnone
  · exact hnone
  · exact gives_bind fun _ => gives_bind fun _ => gives_ite (gives_bind fun _ => hempty) hempty
  · exact gives_bind fun _ => gives_bind fun _ => gives_ite
      (gives_bind fun _ => gives_bind fun _ => gives_ite (gives_bind fun _ => hempty) hempty) hempty
  · exact gives_bind fun _ => gives_bind fun _ => gives_bind fun _ =>
      gives_ite (gives_bind fun _ => hempty) hempty
  · exact gives_bind fun _ => hnone
  · exact gives_bind fun _ => hnone
  · exact gives_bind fun _ => hnone
  · exact hnone

theorem gives_simpleStatements : (simpleStatements fuel).Gives AllSpelled := by
  induction fuel with
  | zero => exact gives_unexpected
  | succ fuel ih =>
    unfold simpleStatements
    refine gives_simpleStatement.bind fun refs hrefs => gives_bind fun _ => gives_ite ?_ ?_
    · exact gives_bind fun _ => gives_ite (gives_pure hrefs) (gives_append hrefs ih)
    · exact gives_bind fun _ => gives_pure hrefs

/-! ## Compound statements -/

/-- With so much fuel, every part of a compound statement gives spelled references. -/
structure CompoundsSpelled (fuel : Nat) : Prop where
  block : (block fuel).Gives AllSpelled
  statements : (statements fuel).Gives AllSpelled
  statement : (statement fuel).Gives AllSpelled
  conditional : (conditional fuel).Gives AllSpelled
  otherwise : (otherwise fuel).Gives AllSpelled
  loop : (loop fuel).Gives AllSpelled
  handlers : (handlers fuel).Gives AllSpelled
  handlerList : ∀ isGroup, (handlerList fuel isGroup).Gives AllSpelled
  cleanup : (cleanup fuel).Gives AllSpelled
  function : (function fuel).Gives AllSpelled
  decorated : (decorated fuel).Gives AllSpelled
  selection : (selection fuel).Gives AllSpelled
  cases : (cases fuel).Gives AllSpelled

namespace CompoundsSpelled

theorem zero : CompoundsSpelled 0 where
  block := gives_unexpected
  statements := gives_unexpected
  statement := gives_unexpected
  conditional := gives_unexpected
  otherwise := gives_unexpected
  loop := gives_unexpected
  handlers := gives_unexpected
  handlerList _ := gives_unexpected
  cleanup := gives_unexpected
  function := gives_unexpected
  decorated := gives_unexpected
  selection := gives_unexpected
  cases := gives_unexpected

variable (h : CompoundsSpelled fuel)

include h

theorem block_succ : (Indented.block (fuel + 1)).Gives AllSpelled := by
  unfold Indented.block
  refine gives_bind fun _ => gives_ite ?_ gives_simpleStatements
  refine gives_bind fun _ => gives_ite ?_
    (gives_bind fun _ => gives_bind fun _ => gives_simpleStatements)
  exact h.statements.bind fun refs hrefs => gives_bind fun _ => gives_pure hrefs

theorem statements_succ : (Indented.statements (fuel + 1)).Gives AllSpelled := by
  unfold Indented.statements
  refine h.statement.bind fun refs hrefs => gives_bind fun next => ?_
  split
  · exact gives_pure hrefs
  · exact gives_pure hrefs
  · exact gives_append hrefs h.statements

theorem conditional_succ : (Indented.conditional (fuel + 1)).Gives AllSpelled := by
  unfold Indented.conditional
  refine gives_bind fun _ => gives_bind fun _ => h.block.bind fun refs hrefs => gives_bind fun _ => ?_
  exact gives_ite (gives_append hrefs h.conditional) (gives_append hrefs h.otherwise)

theorem otherwise_succ : (Indented.otherwise (fuel + 1)).Gives AllSpelled := by
  unfold Indented.otherwise
  refine gives_bind fun _ => gives_ite ?_ (gives_pure allSpelled_nil)
  exact gives_bind fun _ => h.block

theorem loop_succ : (Indented.loop (fuel + 1)).Gives AllSpelled := by
  unfold Indented.loop
  refine gives_bind fun _ => gives_bind fun _ => gives_bind fun _ => gives_bind fun _ => ?_
  exact h.block.bind fun refs hrefs => gives_append hrefs h.otherwise

theorem statement_succ : (Indented.statement (fuel + 1)).Gives AllSpelled := by
  unfold Indented.statement
  refine gives_bind fun next => ?_
  split
  · exact gives_bind fun _ => h.conditional
  · refine gives_bind fun _ => gives_bind fun _ => gives_bind fun _ => ?_
    exact h.block.bind fun refs hrefs => gives_append hrefs h.otherwise
  · exact gives_bind fun _ => h.loop
  · exact gives_bind fun _ => gives_bind fun _ => h.block
  · refine gives_bind fun _ => gives_bind fun _ => ?_
    exact h.block.bind fun refs hrefs => gives_append hrefs h.handlers
  · exact gives_bind fun _ => h.function
  · refine gives_bind fun _ => gives_bind fun _ => gives_bind fun _ => ?_
    have hbody : (do expectOp ":"; Indented.block fuel : Parse (List Ref)).Gives AllSpelled :=
      gives_bind fun _ => h.block
    exact gives_ite (gives_bind fun _ => hbody) hbody
  · refine gives_bind fun _ => gives_bind fun next => ?_
    split
    · exact gives_bind fun _ => h.function
    · exact gives_bind fun _ => gives_bind fun _ => h.block
    · exact gives_bind fun _ => h.loop
    · exact gives_unexpected
  · exact h.decorated
  · exact h.selection.orElse gives_simpleStatements
  · exact gives_simpleStatements

theorem handlers_succ : (Indented.handlers (fuel + 1)).Gives AllSpelled := by
  unfold Indented.handlers
  refine gives_bind fun next => ?_
  split
  · exact h.cleanup
  · refine gives_bind fun _ => (h.handlerList _).bind fun refs hrefs => ?_
    refine h.otherwise.bind fun others hothers => ?_
    exact gives_append (hrefs.append hothers) h.cleanup
  · exact gives_bind fun _ => gives_failWith

theorem handlerList_succ (isGroup : Bool) :
    (Indented.handlerList (fuel + 1) isGroup).Gives AllSpelled := by
  unfold Indented.handlerList
  refine gives_bind fun _ => gives_ite ?_ (gives_pure allSpelled_nil)
  exact gives_bind fun _ => h.block.bind fun refs hrefs => gives_append hrefs (h.handlerList isGroup)

theorem cleanup_succ : (Indented.cleanup (fuel + 1)).Gives AllSpelled := by
  unfold Indented.cleanup
  refine gives_bind fun _ => gives_ite ?_ (gives_pure allSpelled_nil)
  exact gives_bind fun _ => h.block

theorem function_succ : (Indented.function (fuel + 1)).Gives AllSpelled := by
  unfold Indented.function
  refine gives_bind fun _ => gives_bind fun _ => gives_bind fun _ => gives_bind fun _ =>
    gives_bind fun _ => ?_
  have hbody : (do expectOp ":"; Indented.block fuel : Parse (List Ref)).Gives AllSpelled :=
    gives_bind fun _ => h.block
  exact gives_ite (gives_bind fun _ => hbody) hbody

theorem decorated_succ : (Indented.decorated (fuel + 1)).Gives AllSpelled := by
  unfold Indented.decorated
  refine gives_bind fun _ => gives_ite ?_ ?_
  · exact gives_bind fun _ => gives_bind fun _ => h.decorated
  · refine gives_bind fun next => gives_bind fun second => ?_
    split
    · exact h.statement
    · exact h.statement
    · exact h.statement
    · exact gives_bind fun _ => gives_unexpected
    · exact gives_unexpected

theorem selection_succ : (Indented.selection (fuel + 1)).Gives AllSpelled := by
  unfold Indented.selection
  refine gives_bind fun _ => gives_bind fun _ => gives_bind fun _ => gives_bind fun _ =>
    gives_bind fun _ => ?_
  have hbody : (do let refs ← Indented.cases fuel; expect .dedent; return refs :
      Parse (List Ref)).Gives AllSpelled :=
    h.cases.bind fun refs hrefs => gives_bind fun _ => gives_pure hrefs
  exact gives_ite hbody (gives_bind fun _ => gives_bind fun _ => hbody)

theorem cases_succ : (Indented.cases (fuel + 1)).Gives AllSpelled := by
  unfold Indented.cases
  refine gives_bind fun _ => gives_bind fun _ => gives_bind fun _ => ?_
  have hbody : (do
      expectOp ":"
      let refs ← Indented.block fuel
      if (← peek) = .name caseWord then return refs ++ (← Indented.cases fuel)
      return refs : Parse (List Ref)).Gives AllSpelled := by
    refine gives_bind fun _ => h.block.bind fun refs hrefs => gives_bind fun _ => ?_
    exact gives_ite (gives_append hrefs h.cases) (gives_pure hrefs)
  exact gives_ite (gives_bind fun _ => hbody) hbody

theorem succ : CompoundsSpelled (fuel + 1) where
  block := h.block_succ
  statements := h.statements_succ
  statement := h.statement_succ
  conditional := h.conditional_succ
  otherwise := h.otherwise_succ
  loop := h.loop_succ
  handlers := h.handlers_succ
  handlerList := h.handlerList_succ
  cleanup := h.cleanup_succ
  function := h.function_succ
  decorated := h.decorated_succ
  selection := h.selection_succ
  cases := h.cases_succ

end CompoundsSpelled

theorem compoundsSpelled : ∀ fuel, CompoundsSpelled fuel
  | 0 => .zero
  | fuel + 1 => (compoundsSpelled fuel).succ

/-! ## Sources -/

theorem gives_source : (source fuel).Gives AllSpelled := by
  unfold source
  refine gives_bind fun _ => gives_ite (gives_pure allSpelled_nil) ?_
  exact (compoundsSpelled fuel).statements.bind fun refs hrefs => gives_bind fun _ => gives_pure hrefs

/-- Every reference of a source names its module and what it asks for by identifiers. -/
theorem isSpelled_of_imports {text : String} {refs : List Ref} (h : imports text = .ok refs) :
    AllSpelled refs := by
  unfold imports at h
  simp only at h
  split at h
  · cases h
  · split at h
    · rename_i found rest hrun
      obtain rfl := Except.ok.inj h
      intro r hr
      exact gives_source _ _ _ hrun r (List.mem_mergeSort.1 hr)
    · cases h

/-- The imports of a text that is read to its end. -/
theorem imports_of_run {text : String} {cs : List Char} {refs : List Ref} {rest : List Token}
    (hlines : completeLines text.toList = cs) (hnul : cs.contains '\x00' = false)
    (hrun : (source (16 * (cs.length + 1))).run (lineTokens .start cs) = .ok (refs, rest)) :
    imports text = .ok (refs.mergeSort fun a b => (Ref.order a b).isLE) := by
  unfold imports
  simp only [hlines, hnul, hrun]
  rfl

/-- The imports of a text that is read to its end, and stand in their order. -/
theorem imports_of_source {cs : List Char} {refs : List Ref}
    (hlines : completeLines (String.ofList cs).toList = cs) (hnul : cs.contains '\x00' = false)
    (hsource : (source (16 * (cs.length + 1))).run (lineTokens .start cs) = .ok (refs, []))
    (hsorted : refs.Pairwise fun a b => (Ref.order a b).isLE) :
    imports (String.ofList cs) = .ok refs := by
  rw [imports_of_run hlines hnul hsource, List.mergeSort_of_pairwise hsorted]

end Import.Indented

/-! ## Files -/

namespace FileImports

open Import (IsSpelled)

variable {m : Machine} {path : String} {content : ByteArray} {rs : List Import.Ref} {r : Import.Ref}

theorem language_of_mem_importsFrom {line : Int} {inWord : Bool} {cs : List Char}
    (h : r ∈ Import.Web.importsFrom line inWord cs) : r.language = .javascript := by
  fun_induction Import.Web.importsFrom line inWord cs with
  | case1 => cases h
  | case2 _ _ _ _ _ ih => exact ih h
  | case3 _ _ _ _ _ _ _ _ _ _ ih => exact ih h
  | case4 _ _ _ _ _ _ _ _ _ _ ih =>
    rcases List.mem_cons.1 h with rfl | h
    · rfl
    · exact ih h

/-- The suffix of a file tells the language of its references, and Python modules are named by
identifiers. -/
theorem isSpelled_of_refs (h : (refs m path content).result = .ok rs) (hr : r ∈ rs) :
    Path.suffix path = Project.pySuffix ∧ IsSpelled r ∨
      Path.suffix path ≠ Project.pySuffix ∧ r.language = .javascript := by
  unfold refs at h
  split at h
  · rename_i text _
    unfold refsOf at h
    split at h
    · rename_i hpy
      split at h
      · cases h
      · cases h
      · rename_i found himports _
        obtain rfl := Except.ok.inj h
        exact .inl ⟨hpy, Import.Indented.isSpelled_of_imports himports r hr⟩
      · cases h
        cases hr
    · rename_i hweb
      cases h
      exact .inr ⟨hweb, language_of_mem_importsFrom hr⟩
  · cases h
    cases hr

end FileImports

end LayerGate
