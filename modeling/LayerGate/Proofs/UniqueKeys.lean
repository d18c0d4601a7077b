import Mathlib.Data.List.Nodup

/-!
# Lists with unique keys

Where no key stands twice, looking a key up finds the entry that is there, in whatever order the
entries stand.
-/

namespace LayerGate

variable {κ β : Type} [BEq κ] [LawfulBEq κ] {xs ys : List (κ × β)} {key : κ} {b : β}

theorem lookup_eq_some_iff_mem (hkeys : (xs.map (·.1)).Nodup) :
    xs.lookup key = some b ↔ (key, b) ∈ xs := by
  rw [List.lookup_eq_some_iff]
  constructor
  · rintro ⟨before, after, rfl, -⟩
    exact List.mem_append_right _ (List.mem_cons_self ..)
  · intro h
    obtain ⟨before, after, rfl⟩ := List.append_of_mem h
    refine ⟨before, after, rfl, fun x hx => ?_⟩
    rw [List.map_append, List.nodup_append] at hkeys
    have hne : x.1 ≠ key :=
      hkeys.2.2 x.1 (List.mem_map_of_mem hx) key (List.mem_map_of_mem (List.mem_cons_self ..))
    exact bne_iff_ne.2 hne.symm

theorem lookup_perm (hperm : xs.Perm ys) (hkeys : (xs.map (·.1)).Nodup) :
    xs.lookup key = ys.lookup key := by
  have hkeys' : (ys.map (·.1)).Nodup := (hperm.map _).nodup_iff.1 hkeys
  ext b
  rw [lookup_eq_some_iff_mem hkeys, lookup_eq_some_iff_mem hkeys', hperm.mem_iff]

end LayerGate
