import Mathlib.Data.List.Induction
import Mathlib.Data.List.Nodup
import LayerGate.Proofs.RecordMerge

/-!
# Which entry is kept

Of the entries with one key, merging keeps the first of those with the smallest specifier.  So no key
is kept twice, every entry is answered for by a kept one of its key, and two kept entries with one key
are one entry.
-/

namespace LayerGate.Report

variable {x y e : Entry} {done es : List Entry}

/-- The first of the entries with its key that none of them undercuts by its specifier. -/
def Kept (es : List Entry) (x : Entry) : Prop :=
  ∃ before after, es = before ++ x :: after ∧
    (∀ y ∈ before, y.1 = x.1 → specifierText x.2 < specifierText y.2) ∧
      ∀ y ∈ after, y.1 = x.1 → specifierText x.2 ≤ specifierText y.2

theorem Kept.mem (h : Kept es x) : x ∈ es := by
  obtain ⟨before, after, rfl, -, -⟩ := h
  exact List.mem_append_right _ (List.mem_cons_self ..)

/-- No entry with the key of a kept one has a smaller specifier. -/
theorem Kept.least (h : Kept es x) (hy : y ∈ es) (hkey : y.1 = x.1) :
    specifierText x.2 ≤ specifierText y.2 := by
  obtain ⟨before, after, rfl, hbefore, hafter⟩ := h
  rcases List.mem_append.1 hy with hy | hy
  · exact Std.le_of_lt (hbefore y hy hkey)
  · rcases List.mem_cons.1 hy with rfl | hy
    · exact String.le_refl _
    · exact hafter y hy hkey

/-! ## One step -/

/-- The keys stay apart: a step adds a key only if it is not there. -/
theorem nodup_keys_add (h : (done.map (·.1)).Nodup) : ((add e done).map (·.1)).Nodup := by
  induction done with
  | nil => exact List.nodup_singleton _
  | cons other rest ih =>
    rw [List.map_cons, List.nodup_cons] at h
    obtain ⟨hother, hrest⟩ := h
    rw [add]
    by_cases hkey : other.1 = e.1
    · rw [if_pos hkey, List.map_cons, List.nodup_cons]
      -- Whichever of the two is kept, its key is that of `other`.
      have hkept : (if specifierText e.2 < specifierText other.2 then e else other).1 = other.1 := by
        split
        · exact hkey.symm
        · rfl
      rw [hkept]
      exact ⟨hother, hrest⟩
    · rw [if_neg hkey, List.map_cons, List.nodup_cons]
      refine ⟨fun hmem => ?_, ih hrest⟩
      obtain ⟨x, hx, hxkey⟩ := List.mem_map.1 hmem
      rcases exists_key_add.1 ⟨x, hx, hxkey⟩ with he | ⟨y, hy, hykey⟩
      · exact hkey he.symm
      · apply hother
        rw [← hykey]
        exact List.mem_map_of_mem hy

/-- After a step there are the entries that the new one does not undercut, and the new one if it
undercuts all of its key. -/
theorem mem_add_iff (h : (done.map (·.1)).Nodup) :
    x ∈ add e done ↔
      (x ∈ done ∧ (e.1 = x.1 → specifierText x.2 ≤ specifierText e.2)) ∨
        (x = e ∧ ∀ y ∈ done, y.1 = e.1 → specifierText e.2 < specifierText y.2) := by
  induction done with
  | nil => simp [add]
  | cons other rest ih =>
    rw [List.map_cons, List.nodup_cons] at h
    obtain ⟨hother, hrest⟩ := h
    rw [add]
    by_cases hkey : other.1 = e.1
    · rw [if_pos hkey, List.mem_cons]
      -- No other entry has this key.
      have hapart : ∀ y ∈ rest, y.1 ≠ e.1 := by
        intro y hy he
        apply hother
        rw [hkey, ← he]
        exact List.mem_map_of_mem hy
      by_cases hlt : specifierText e.2 < specifierText other.2
      · rw [if_pos hlt]
        constructor
        · rintro (rfl | hx)
          · refine .inr ⟨rfl, fun y hy hye => ?_⟩
            rcases List.mem_cons.1 hy with rfl | hy
            · exact hlt
            · exact absurd hye (hapart y hy)
          · exact .inl ⟨List.mem_cons_of_mem _ hx, fun he => absurd he.symm (hapart x hx)⟩
        · rintro (⟨hx, hle⟩ | ⟨rfl, -⟩)
          · rcases List.mem_cons.1 hx with rfl | hx
            · exact absurd hlt (Std.not_lt.2 (hle hkey.symm))
            · exact .inr hx
          · exact .inl rfl
      · rw [if_neg hlt]
        constructor
        · rintro (rfl | hx)
          · exact .inl ⟨List.mem_cons_self .., fun _ => Std.not_lt.1 hlt⟩
          · exact .inl ⟨List.mem_cons_of_mem _ hx, fun he => absurd he.symm (hapart x hx)⟩
        · rintro (⟨hx, -⟩ | ⟨-, hall⟩)
          · exact List.mem_cons.1 hx
          · exact absurd (hall other (List.mem_cons_self ..) hkey) hlt
    · rw [if_neg hkey, List.mem_cons, ih hrest]
      constructor
      · rintro (rfl | ⟨hx, hle⟩ | ⟨rfl, hall⟩)
        · exact .inl ⟨List.mem_cons_self .., fun he => absurd he.symm hkey⟩
        · exact .inl ⟨List.mem_cons_of_mem _ hx, hle⟩
        · refine .inr ⟨rfl, fun y hy hye => ?_⟩
          rcases List.mem_cons.1 hy with rfl | hy
          · exact absurd hye hkey
          · exact hall y hy hye
      · rintro (⟨hx, hle⟩ | ⟨rfl, hall⟩)
        · rcases List.mem_cons.1 hx with rfl | hx
          · exact .inl rfl
          · exact .inr (.inl ⟨hx, hle⟩)
        · exact .inr (.inr ⟨rfl, fun y hy => hall y (List.mem_cons_of_mem _ hy)⟩)

/-- The same step on what is kept of a list. -/
theorem kept_concat_iff :
    Kept (es ++ [e]) x ↔
      (Kept es x ∧ (e.1 = x.1 → specifierText x.2 ≤ specifierText e.2)) ∨
        (x = e ∧ ∀ y ∈ es, y.1 = e.1 → specifierText e.2 < specifierText y.2) := by
  constructor
  · rintro ⟨before, after, hes, hbefore, hafter⟩
    -- The last entry is `x` itself or stands behind it.
    rcases List.eq_nil_or_concat after with rfl | ⟨after, last, rfl⟩
    · obtain ⟨rfl, he⟩ := List.append_inj' hes rfl
      obtain rfl : e = x := List.singleton_inj.1 he
      exact .inr ⟨rfl, hbefore⟩
    · rw [List.concat_eq_append] at hes hafter
      rw [← List.cons_append, ← List.append_assoc] at hes
      obtain ⟨rfl, he⟩ := List.append_inj' hes rfl
      obtain rfl : e = last := List.singleton_inj.1 he
      refine .inl ⟨⟨before, after, rfl, hbefore, ?_⟩, ?_⟩
      · exact fun y hy => hafter y (List.mem_append_left _ hy)
      · exact hafter e (List.mem_append_right _ (List.mem_singleton_self e))
  · rintro (⟨⟨before, after, rfl, hbefore, hafter⟩, hlast⟩ | ⟨rfl, hall⟩)
    · refine ⟨before, after ++ [e], by simp, hbefore, fun y hy => ?_⟩
      rcases List.mem_append.1 hy with hy | hy
      · exact hafter y hy
      · rw [List.mem_singleton.1 hy]
        exact hlast
    · exact ⟨es, [], rfl, hall, fun y hy => absurd hy List.not_mem_nil⟩

/-! ## All entries -/

/-- What the entries are merged to, one for each key. -/
def merged (es : List Entry) : List Entry := es.foldl (fun done e => add e done) []

theorem merge_eq_map (es : List Entry) : merge es = (merged es).map (·.2) := rfl

theorem merged_concat (es : List Entry) (e : Entry) : merged (es ++ [e]) = add e (merged es) := by
  rw [merged, List.foldl_append]
  rfl

theorem nodup_keys_merged (es : List Entry) : ((merged es).map (·.1)).Nodup := by
  induction es using List.reverseRecOn with
  | nil => exact List.nodup_nil
  | append_singleton es e ih =>
    rw [merged_concat]
    exact nodup_keys_add ih

theorem exists_key_merged (hy : y ∈ es) : ∃ x ∈ merged es, x.1 = y.1 :=
  exists_key_foldl_add.2 (.inr ⟨y, hy, rfl⟩)

theorem mem_merged_iff : x ∈ merged es ↔ Kept es x := by
  -- By the last entry: merging and keeping make the same step.
  induction es using List.reverseRecOn generalizing x with
  | nil =>
    constructor
    · intro h
      cases h
    · intro h
      exact absurd h.mem List.not_mem_nil
  | append_singleton es e ih =>
    rw [merged_concat, mem_add_iff (nodup_keys_merged es), kept_concat_iff, ih]
    -- To undercut all entries of a key it is enough to undercut the kept one.
    have hleast : (∀ y ∈ merged es, y.1 = e.1 → specifierText e.2 < specifierText y.2) ↔
        ∀ y ∈ es, y.1 = e.1 → specifierText e.2 < specifierText y.2 := by
      constructor
      · intro h y hy hkey
        obtain ⟨z, hz, hzy⟩ := exists_key_merged hy
        have hlt := h z hz (hzy.trans hkey)
        have hle := (ih.1 hz).least hy hzy.symm
        exact Std.lt_of_lt_of_le hlt hle
      · intro h y hy
        exact h y (ih.1 hy).mem
    rw [hleast]

/-- To leave the entries with some keys out leaves the others as they are. -/
theorem filter_add (q : Key → Bool) :
    (add e done).filter (fun x => q x.1) =
      if q e.1 then add e (done.filter fun x => q x.1) else done.filter fun x => q x.1 := by
  induction done with
  | nil => by_cases he : q e.1 <;> simp [add, he]
  | cons other rest ih =>
    rw [add]
    by_cases hkey : other.1 = e.1
    · -- Whichever of the two is kept, its key is that of both.
      rw [if_pos hkey]
      have hkept : (if specifierText e.2 < specifierText other.2 then e else other).1 = e.1 := by
        split
        · rfl
        · exact hkey
      by_cases he : q e.1 = true
      · rw [if_pos he, List.filter_cons_of_pos (by rwa [hkept]),
          List.filter_cons_of_pos (by rwa [hkey]), add, if_pos hkey]
      · rw [if_neg he, List.filter_cons_of_neg (by rwa [hkept]),
          List.filter_cons_of_neg (by rwa [hkey])]
    · rw [if_neg hkey]
      by_cases hother : q other.1 = true
      · have hpos : ∀ xs : List Entry, (other :: xs).filter (fun x => q x.1) =
            other :: xs.filter fun x => q x.1 := fun _ => List.filter_cons_of_pos hother
        rw [hpos, hpos, ih]
        by_cases he : q e.1 = true
        · rw [if_pos he, if_pos he, add, if_neg hkey]
        · rw [if_neg he, if_neg he]
      · have hneg : ∀ xs : List Entry, (other :: xs).filter (fun x => q x.1) =
            xs.filter fun x => q x.1 := fun _ => List.filter_cons_of_neg hother
        rw [hneg, hneg, ih]

theorem filter_merged (q : Key → Bool) (es : List Entry) :
    (merged es).filter (fun x => q x.1) = merged (es.filter fun x => q x.1) := by
  induction es using List.reverseRecOn with
  | nil => rfl
  | append_singleton es e ih =>
    rw [merged_concat, filter_add, ih, List.filter_append, List.filter_singleton]
    cases q e.1 with
    | true => exact (merged_concat _ e).symm
    | false => exact congrArg merged (List.append_nil _).symm

/-- The same of the records, where what is left out can be told from a record as well as from its
key. -/
theorem filter_merge {p : Record → Bool} {q : Key → Bool} (h : ∀ e ∈ es, p e.2 = q e.1) :
    (merge es).filter p = merge (es.filter fun e => q e.1) := by
  have hmerged : (merged es).filter (p ∘ Prod.snd) = (merged es).filter fun e => q e.1 :=
    List.filter_congr fun e he => h e ((mem_of_mem_foldl_add he).resolve_left List.not_mem_nil)
  rw [merge_eq_map, List.filter_map, hmerged, filter_merged]
  rfl

/-- Every entry is answered for by a kept one of its key. -/
theorem exists_kept (hy : y ∈ es) : ∃ x, Kept es x ∧ x.1 = y.1 := by
  obtain ⟨x, hx, hkey⟩ := exists_key_merged hy
  exact ⟨x, mem_merged_iff.1 hx, hkey⟩

theorem Kept.eq_of_key (hx : Kept es x) (hy : Kept es y) (hkey : x.1 = y.1) : x = y :=
  List.inj_on_of_nodup_map (nodup_keys_merged es) (mem_merged_iff.2 hx) (mem_merged_iff.2 hy) hkey

end LayerGate.Report
