import Mathlib.Tactic.Common
import LayerGate.Proofs.SortedDistinct
import LayerGate.Resolution.Basic

/-!
# Source roots and module names

Two files below different source roots can have one module name.  The module index is built from the
sorted files, and the file that comes first keeps the name: of the files with a name it is the least
one, whatever its root.  The order of the roots decides only as far as the order of the files agrees
with it.
-/

namespace LayerGate

namespace ModuleIndex

/-- The file has the name below root number `i`, and has no name below the roots before it. -/
structure NamedBelow (roots : List String) (file name : String) (i : Nat) : Prop where
  python : Path.extension file = ".py"
  named : ∃ root, roots[i]? = some root ∧ Path.moduleName file root = .ok name
  unnamed : ∀ j < i, ∀ root, roots[j]? = some root → ∀ other, Path.moduleName file root ≠ .ok other

/-- Of the files with the name, the least. -/
def LeastNamed (files roots : List String) (name file : String) : Prop :=
  file ∈ files ∧ (∃ i, NamedBelow roots file name i) ∧
    ∀ other ∈ files, ∀ j, NamedBelow roots other name j →
      file = other ∨ compare file other = .lt

/-- If files below different roots have the name, then the index gives a file of the first of those
roots. -/
def FollowsRoots (m : ModuleIndex) (files roots : List String) (name : String) : Prop :=
  ∀ f ∈ files, ∀ f' ∈ files, ∀ i j, NamedBelow roots f name i → NamedBelow roots f' name j →
    i ≠ j → ∃ file ∈ files, m.file? name = some file ∧
      ∃ k, NamedBelow roots file name k ∧
        ∀ other ∈ files, ∀ l, NamedBelow roots other name l → k ≤ l

/-- Whenever a file has the name below an earlier root than another, some file with the name, of that
root or one before it, is less than the other file. -/
def OrderAgrees (files roots : List String) (name : String) : Prop :=
  ∀ f ∈ files, ∀ f' ∈ files, ∀ i j, NamedBelow roots f name i → NamedBelow roots f' name j →
    i < j → ∃ g ∈ files, ∃ k ≤ i, NamedBelow roots g name k ∧ compare g f' = .lt

variable {files roots : List String} {file name : String}

/-! ## The name of a file -/

theorem toOption_eq_some_iff {root : String} :
    (Path.moduleName file root).toOption = some name ↔ Path.moduleName file root = .ok name := by
  cases Path.moduleName file root <;> simp [Except.toOption]

theorem NamedBelow.nameBelow? {i : Nat} (h : NamedBelow roots file name i) :
    ModuleIndex.nameBelow? roots file = some name := by
  obtain ⟨root, hroot, hname⟩ := h.named
  obtain ⟨hi, hget⟩ := List.getElem?_eq_some_iff.1 hroot
  rw [ModuleIndex.nameBelow?, List.findSome?_eq_some_iff]
  -- The roots before number `i` name nothing.
  refine ⟨roots.take i, root, roots.drop (i + 1), ?_, toOption_eq_some_iff.2 hname, ?_⟩
  · rw [← hget, List.getElem_cons_drop, List.take_append_drop]
  · intro before hbefore
    obtain ⟨j, hj, hat⟩ := List.mem_take_iff_getElem.1 hbefore
    rw [Option.eq_none_iff_forall_ne_some]
    intro other hother
    have hlt : j < i := by omega
    refine h.unnamed j hlt before ?_ other (toOption_eq_some_iff.1 hother)
    rw [← hat, List.getElem?_eq_getElem]

theorem exists_namedBelow (hpy : Path.extension file = ".py")
    (h : nameBelow? roots file = some name) : ∃ i, NamedBelow roots file name i := by
  rw [nameBelow?, List.findSome?_eq_some_iff] at h
  obtain ⟨before, root, after, hroots, hname, hbefore⟩ := h
  refine ⟨before.length, hpy, ⟨root, ?_, toOption_eq_some_iff.1 hname⟩, ?_⟩
  · rw [hroots, List.getElem?_append_right (Nat.le_refl _), Nat.sub_self, List.getElem?_cons_zero]
  · intro j hj earlier hearlier other hother
    rw [hroots, List.getElem?_append_left hj] at hearlier
    have hnone := hbefore earlier (List.mem_of_getElem? hearlier)
    rw [toOption_eq_some_iff.2 hother] at hnone
    cases hnone

theorem nameOf?_eq_some_iff : nameOf? roots file = some name ↔ ∃ i, NamedBelow roots file name i := by
  rw [nameOf?]
  constructor
  · intro h
    split at h
    · rename_i hpy
      exact exists_namedBelow hpy h
    · cases h
  · rintro ⟨i, h⟩
    rw [if_pos h.python]
    exact h.nameBelow?

/-- A file takes its name below one root only. -/
theorem NamedBelow.eq {other : String} {i j : Nat} (hi : NamedBelow roots file name i)
    (hj : NamedBelow roots file other j) : i = j := by
  obtain ⟨root, hroot, hname⟩ := hi.named
  obtain ⟨root', hroot', hname'⟩ := hj.named
  rcases Nat.lt_trichotomy i j with hlt | heq | hgt
  · exact absurd hname (hj.unnamed i hlt root hroot name)
  · exact heq
  · exact absurd hname' (hi.unnamed j hgt root' hroot' other)

/-! ## The file of a name -/

theorem ofFiles_cons (f : String) :
    (ofFiles (f :: files) roots).file? name =
      if nameOf? roots f = some name then some f else (ofFiles files roots).file? name := by
  rw [file?, file?, ofFiles, ofFiles, List.filterMap_cons]
  cases hf : nameOf? roots f with
  | none => rw [if_neg (by simp)]; rfl
  | some other =>
    by_cases he : name = other
    · subst he
      rw [if_pos rfl]
      exact List.lookup_cons_self
    · rw [if_neg (fun h => he (Option.some.inj h).symm)]
      show List.lookup name ((other, f) :: _) = _
      rw [List.lookup_cons, beq_false_of_ne he]

/-- In a sorted list the first file with the name is the least one. -/
theorem file?_ofFiles_eq_some_iff (h : StrictlySorted files) :
    (ofFiles files roots).file? name = some file ↔ LeastNamed files roots name file := by
  -- On the files: the head has the name, and all that follow are greater; or it may be left out.
  induction files with
  | nil => simp [ofFiles, file?, LeastNamed]
  | cons f files ih =>
    obtain ⟨hf, hfiles⟩ := List.pairwise_cons.1 h
    rw [ofFiles_cons]
    by_cases hname : nameOf? roots f = some name
    · obtain ⟨i, hi⟩ := nameOf?_eq_some_iff.1 hname
      rw [if_pos hname]
      constructor
      · intro he
        cases he
        refine ⟨List.mem_cons_self .., ⟨i, hi⟩, fun other hother _ _ => ?_⟩
        rcases List.mem_cons.1 hother with rfl | hmem
        · exact .inl rfl
        · exact .inr (hf other hmem)
      · rintro ⟨hmem, -, hleast⟩
        rcases List.mem_cons.1 hmem with rfl | hmem
        · rfl
        · rcases hleast f (List.mem_cons_self ..) i hi with rfl | hlt
          · rfl
          · -- The head is less than all that follow it.
            have hgt := hf file hmem
            rw [Std.OrientedOrd.eq_swap, hlt] at hgt
            cases hgt
    · rw [if_neg hname, ih hfiles]
      have hnot : ∀ i, ¬ NamedBelow roots f name i :=
        fun i hi => hname (nameOf?_eq_some_iff.2 ⟨i, hi⟩)
      constructor
      · rintro ⟨hmem, hnamed, hleast⟩
        refine ⟨List.mem_cons_of_mem _ hmem, hnamed, fun other hother j hj => ?_⟩
        rcases List.mem_cons.1 hother with rfl | hother
        · exact absurd hj (hnot j)
        · exact hleast other hother j hj
      · rintro ⟨hmem, ⟨i, hi⟩, hleast⟩
        refine ⟨?_, ⟨i, hi⟩, fun other hother => hleast other (List.mem_cons_of_mem _ hother)⟩
        rcases List.mem_cons.1 hmem with rfl | hmem
        · exact absurd hi (hnot i)
        · exact hmem

/-- A name that some file has is the name of a file in the index. -/
theorem exists_file?_of_mem (hfile : file ∈ files) (hname : nameOf? roots file = some name) :
    ∃ least, (ofFiles files roots).file? name = some least := by
  induction files with
  | nil => cases hfile
  | cons f files ih =>
    rw [ofFiles_cons]
    split
    · exact ⟨f, rfl⟩
    · rename_i hnot
      rcases List.mem_cons.1 hfile with rfl | hmem
      · exact absurd hname hnot
      · exact ih hmem

theorem leastNamed_congr {files' : List String} (h : ∀ f, f ∈ files ↔ f ∈ files') :
    LeastNamed files roots name file ↔ LeastNamed files' roots name file := by
  simp only [LeastNamed, h]

end ModuleIndex

open ModuleIndex

/-- The module index gives for each name the least file that has it.  So it follows the order of the
roots for a name exactly if the order of the files agrees with it. -/
theorem Project.modules_follow_roots_iff (files roots extensions : List String)
    (aliases : List (String × String)) (isFile : String → Except Disk.Fault Bool) (name : String) :
    (∀ file, (Project.ofFiles files roots extensions aliases isFile).modules.file? name = some file ↔
      LeastNamed files roots name file) ∧
    ((Project.ofFiles files roots extensions aliases isFile).modules.FollowsRoots files roots name ↔
      OrderAgrees files roots name) := by
  have hleast : ∀ file, (Project.ofFiles files roots extensions aliases isFile).modules.file? name =
      some file ↔ LeastNamed files roots name file := by
    intro file
    rw [Project.ofFiles, file?_ofFiles_eq_some_iff (strictlySorted_sortedDistinct files)]
    exact leastNamed_congr fun _ => mem_sortedDistinct
  refine ⟨hleast, ?_, ?_⟩
  · -- The file of the index is the witness: it is the least, and below the first root.
    intro hfollows f hf f' hf' i j hi hj hlt
    obtain ⟨g, hg, hfile, k, hk, hfirst⟩ := hfollows f hf f' hf' i j hi hj (Nat.ne_of_lt hlt)
    have hki : k ≤ i := hfirst f hf i hi
    refine ⟨g, hg, k, hki, hk, ?_⟩
    rcases ((hleast g).1 hfile).2.2 f' hf' j hj with rfl | hless
    · -- The file would have its name below two roots.
      have hkj := hk.eq hj
      omega
    · exact hless
  · intro hagrees f hf f' hf' i j hi hj hne
    obtain ⟨g, hg⟩ := exists_file?_of_mem (mem_sortedDistinct.2 hf) (nameOf?_eq_some_iff.2 ⟨i, hi⟩)
    obtain ⟨hmem, ⟨k, hk⟩, hless⟩ := (hleast g).1 hg
    refine ⟨g, hmem, hg, k, hk, fun other hother l hl => ?_⟩
    by_contra hlk
    -- A file below an earlier root would put some file before the least one.
    obtain ⟨h, hh, m, -, hm, hlt⟩ := hagrees other hother g hmem l k hl hk (by omega)
    rcases hless h hh m hm with rfl | hgt
    · rw [Std.ReflOrd.compare_self] at hlt
      cases hlt
    · rw [Std.OrientedOrd.eq_swap, hgt] at hlt
      cases hlt

theorem namedBelow_src : NamedBelow ["src", "."] "src/a.py" "a" 0 where
  python := by decide +kernel
  named := ⟨"src", rfl, toOption_eq_some_iff.1 (by decide +kernel)⟩
  unnamed := fun j hj => absurd hj (Nat.not_lt_zero j)

theorem namedBelow_project : NamedBelow ["src", "."] "a.py" "a" 1 where
  python := by decide +kernel
  named := ⟨".", rfl, toOption_eq_some_iff.1 (by decide +kernel)⟩
  unnamed := by
    intro j hj root hroot name hname
    obtain rfl : j = 0 := by omega
    cases hroot
    have houtside : (Path.moduleName "a.py" "src").toOption = none := by decide +kernel
    rw [toOption_eq_some_iff.2 hname] at houtside
    cases houtside

/-- With the roots `src` and then the project itself, `a` means `a.py` and not `src/a.py`, because
`a.py` is less. -/
theorem Project.modules_pass_over_first_root :
    ¬ ∀ (files roots extensions : List String) (aliases : List (String × String))
      (isFile : String → Except Disk.Fault Bool) (name : String),
      (Project.ofFiles files roots extensions aliases isFile).modules.FollowsRoots files roots
        name := by
  intro h
  have hsorted : StrictlySorted ["a.py", "src/a.py"] := by
    rw [StrictlySorted, List.pairwise_pair]
    decide +kernel
  obtain ⟨file, -, hfile, k, hk, hfirst⟩ :=
    h ["a.py", "src/a.py"] ["src", "."] [".py"] [] (fun _ => .ok false) "a"
      "src/a.py" (by simp) "a.py" (by simp) 0 1 namedBelow_src namedBelow_project (by decide)
  rw [Project.ofFiles, hsorted.sortedDistinct_eq, ofFiles_cons,
    if_pos (nameOf?_eq_some_iff.2 ⟨1, namedBelow_project⟩)] at hfile
  cases hfile
  have hk1 := hk.eq namedBelow_project
  have hk0 := hfirst "src/a.py" (by simp) 0 namedBelow_src
  omega

end LayerGate
