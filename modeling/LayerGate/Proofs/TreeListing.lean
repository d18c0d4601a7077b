import LayerGate.Proofs.StoredFile
import LayerGate.Proofs.UniqueKeys

/-!
# Listings of a tree

A folder lists each of its names once, in some order.  What stands where in the tree does not depend on
the order, and two listings of one tree hold the same at every position.
-/

namespace LayerGate.Entry

mutual

/-- No folder lists a name twice. -/
def hasDistinctNames : Entry → Bool
  | file _ => true
  | link _ => true
  | folder es => haveDistinctNames es

def haveDistinctNames : List (String × Entry) → Bool
  | [] => true
  | (name, e) :: es =>
    !(es.map (·.1)).contains name && e.hasDistinctNames && haveDistinctNames es

end

/-- All that an entry is, but for what a folder holds. -/
inductive Surface where
  | file (content : ByteArray)
  | link (target : String)
  | folder

def surface : Entry → Surface
  | file content => .file content
  | link target => .link target
  | folder _ => .folder

/-- Two listings of one tree. -/
def SameTree (a b : Entry) : Prop := ∀ q, (a.at? q).map surface = (b.at? q).map surface

variable {a b e : Entry} {es es' : List (String × Entry)} {name : String} {q : List String}
  {content : ByteArray}

theorem exists_of_isFolder (h : e.isFolder = true) : ∃ es, e = .folder es := by
  cases e with
  | folder es => exact ⟨es, rfl⟩
  | file _ => cases h
  | link _ => cases h

/-! ## Distinct names -/

theorem haveDistinctNames_of_cons {x : String × Entry} (h : haveDistinctNames (x :: es) = true) :
    haveDistinctNames es = true := by
  rw [haveDistinctNames, Bool.and_eq_true] at h
  exact h.2

theorem nodup_of_haveDistinctNames (h : haveDistinctNames es = true) : (es.map (·.1)).Nodup := by
  induction es with
  | nil => exact List.nodup_nil
  | cons x es ih =>
    rw [haveDistinctNames, Bool.and_eq_true, Bool.and_eq_true, Bool.not_eq_true',
      List.contains_eq_mem, decide_eq_false_iff_not] at h
    exact List.nodup_cons.2 ⟨h.1.1, ih h.2⟩

theorem hasDistinctNames_of_mem (h : haveDistinctNames es = true) (he : (name, e) ∈ es) :
    e.hasDistinctNames = true := by
  induction es with
  | nil => cases he
  | cons x es ih =>
    rw [haveDistinctNames, Bool.and_eq_true, Bool.and_eq_true] at h
    rcases List.mem_cons.1 he with rfl | he
    · exact h.1.2
    · exact ih h.2 he

/-- An entry is listed if and only if it is found under its name. -/
theorem lookup_iff_mem (h : haveDistinctNames es = true) :
    es.lookup name = some e ↔ (name, e) ∈ es :=
  lookup_eq_some_iff_mem (nodup_of_haveDistinctNames h)

/-! ## One tree -/

theorem SameTree.refl (a : Entry) : SameTree a a := fun _ => rfl

theorem SameTree.symm (h : SameTree a b) : SameTree b a := fun q => (h q).symm

theorem surface_eq_file : e.surface = .file content ↔ e = .file content := by
  cases e <;> simp [surface]

theorem surface_eq_folder : e.surface = .folder ↔ ∃ es, e = .folder es := by
  cases e <;> simp [surface]

theorem SameTree.file (h : SameTree a b) :
    a.at? q = some (.file content) ↔ b.at? q = some (.file content) := by
  have hfile : ∀ e : Entry, e.at? q = some (.file content) ↔
      (e.at? q).map surface = some (.file content) := by
    intro e
    simp only [Option.map_eq_some_iff, surface_eq_file, exists_eq_right]
  rw [hfile a, hfile b, h q]

theorem SameTree.folder (h : SameTree a b) :
    (∃ es, a.at? q = some (.folder es)) ↔ ∃ es, b.at? q = some (.folder es) := by
  have hfolder : ∀ e : Entry, (∃ es, e.at? q = some (.folder es)) ↔
      (e.at? q).map surface = some .folder := by
    intro e
    simp only [Option.map_eq_some_iff, surface_eq_folder]
    constructor
    · rintro ⟨es, h⟩
      exact ⟨_, h, es, rfl⟩
    · rintro ⟨_, h, es, rfl⟩
      exact ⟨es, h⟩
  rw [hfolder a, hfolder b, h q]

theorem SameTree.isSome (h : SameTree a b) : (a.at? q).isSome = (b.at? q).isSome := by
  have hq := congrArg Option.isSome (h q)
  rwa [Option.isSome_map, Option.isSome_map] at hq

/-- In whatever order a folder lists its entries, it is the same folder. -/
theorem sameTree_of_perm (hperm : es.Perm es') (h : haveDistinctNames es = true) :
    SameTree (.folder es) (.folder es') := by
  intro q
  cases q with
  | nil => rfl
  | cons n q =>
    rw [at?_cons_of_folder, at?_cons_of_folder, lookup_perm hperm (nodup_of_haveDistinctNames h)]

end LayerGate.Entry
