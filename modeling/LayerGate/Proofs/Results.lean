import LayerGate.Journal
import Mathlib.Data.List.Forall2

/-!
# Results

What is known of the steps of a computation that comes to a result, and of one that fails.
-/

namespace LayerGate

variable {α β ε ε' : Type}

theorem not_exists_error (a : α) : ¬ ∃ e, (Except.ok a : Except ε α) = .error e := by
  rintro ⟨e, h⟩
  cases h

theorem exists_ok_iff {x : Except ε α} : (∃ a, x = .ok a) ↔ ¬ ∃ e, x = .error e := by
  cases x with
  | ok a => exact iff_of_true ⟨a, rfl⟩ (not_exists_error a)
  | error e => exact iff_of_false nofun fun h => h ⟨e, rfl⟩

theorem bind_eq_ok_iff {x : Except ε α} {f : α → Except ε β} {b : β} :
    (x >>= f) = .ok b ↔ ∃ a, x = .ok a ∧ f a = .ok b := by
  cases x with
  | ok a =>
    constructor
    · intro h
      exact ⟨a, rfl, h⟩
    · rintro ⟨a', ha', h⟩
      obtain rfl := Except.ok.inj ha'
      exact h
  | error e => exact iff_of_false nofun fun ⟨a, ha, _⟩ => nomatch ha

theorem map_eq_ok_iff {x : Except ε α} {f : α → β} {b : β} :
    x.map f = .ok b ↔ ∃ a, x = .ok a ∧ f a = b := by
  cases x <;> simp [Except.map]

theorem mapError_eq_ok_iff {cause : ε → ε'} {x : Except ε α} {a : α} :
    x.mapError cause = .ok a ↔ x = .ok a := by
  cases x with
  | ok _ => exact ⟨fun h => congrArg Except.ok (Except.ok.inj h), fun h => congrArg Except.ok (Except.ok.inj h)⟩
  | error _ => exact iff_of_false nofun nofun

/-! ## Lists of results -/

theorem mapM_eq_ok_iff {f : α → Except ε β} {as : List α} {bs : List β} :
    as.mapM f = .ok bs ↔ List.Forall₂ (fun a b => f a = .ok b) as bs := by
  induction as generalizing bs with
  | nil =>
    rw [List.forall₂_nil_left_iff]
    exact ⟨fun h => (Except.ok.inj h).symm, fun h => congrArg Except.ok h.symm⟩
  | cons a as ih =>
    rw [List.mapM_cons, bind_eq_ok_iff, List.forall₂_cons_left_iff]
    refine exists_congr fun b => ?_
    rw [bind_eq_ok_iff]
    constructor
    · rintro ⟨ha, rest, hrest, hbs⟩
      exact ⟨rest, ha, ih.1 hrest, (Except.ok.inj hbs).symm⟩
    · rintro ⟨rest, ha, hrest, hbs⟩
      exact ⟨ha, rest, ih.2 hrest, congrArg Except.ok hbs.symm⟩

/-- Each result is that of one of the elements, and each element has one. -/
theorem mem_of_mapM_eq_ok {f : α → Except ε β} {as : List α} {bs : List β} (h : as.mapM f = .ok bs)
    {b : β} : b ∈ bs ↔ ∃ a ∈ as, f a = .ok b := by
  rw [mapM_eq_ok_iff] at h
  induction h with
  | nil => simp
  | @cons a c as bs hac _ ih =>
    rw [List.mem_cons, ih]
    constructor
    · rintro (rfl | ⟨a', ha', hb⟩)
      · exact ⟨a, List.mem_cons_self .., hac⟩
      · exact ⟨a', List.mem_cons_of_mem _ ha', hb⟩
    · rintro ⟨a', ha', hb⟩
      rcases List.mem_cons.1 ha' with rfl | ha'
      · exact .inl (Except.ok.inj (hb.symm.trans hac))
      · exact .inr ⟨a', ha', hb⟩

/-- The results come together, or one of them is the fault. -/
theorem mapM_cases (f : α → Except ε β) (as : List α) :
    (∃ bs, as.mapM f = .ok bs) ∨ ∃ a ∈ as, ∃ e, f a = .error e ∧ as.mapM f = .error e := by
  induction as with
  | nil => exact .inl ⟨[], rfl⟩
  | cons a as ih =>
    rw [List.mapM_cons]
    cases ha : f a with
    | error e => exact .inr ⟨a, List.mem_cons_self .., e, ha, rfl⟩
    | ok b =>
      rcases ih with ⟨bs, hbs⟩ | ⟨a', ha', e, he, hall⟩
      · exact .inl ⟨b :: bs, by rw [hbs]; rfl⟩
      · exact .inr ⟨a', List.mem_cons_of_mem _ ha', e, he, by rw [hall]; rfl⟩

/-! ## Journals -/

namespace Journal

theorem result_bind (j : Journal ε α) (f : α → Journal ε β) :
    (j >>= f).result = (j.result >>= fun a => (f a).result) := by
  obtain ⟨notes, outcome⟩ := j
  cases outcome <;> rfl

theorem result_bind_eq_ok_iff {j : Journal ε α} {f : α → Journal ε β} {b : β} :
    (j >>= f).result = .ok b ↔ ∃ a, j.result = .ok a ∧ (f a).result = .ok b := by
  rw [result_bind, bind_eq_ok_iff]

theorem result_ofExcept_eq_ok_iff {cause : ε' → ε} {x : Except ε' α} {a : α} :
    (ofExcept cause x).result = .ok a ↔ x = .ok a := by
  cases x with
  | ok _ => exact ⟨fun h => congrArg Except.ok (Except.ok.inj h), fun h => congrArg Except.ok (Except.ok.inj h)⟩
  | error _ => exact iff_of_false nofun nofun

theorem result_mapError_eq_ok_iff {cause : ε' → ε} {j : Journal ε' α} {a : α} :
    (j.mapError cause).result = .ok a ↔ j.result = .ok a := mapError_eq_ok_iff

theorem result_note_eq_ok_iff {level : Level} {text : String} {u : Unit} :
    (note level text : Journal ε Unit).result = .ok u ↔ True := iff_true_intro rfl

theorem result_pure_eq_ok_iff {a b : α} : (pure a : Journal ε α).result = .ok b ↔ a = b :=
  ⟨fun h => Except.ok.inj h, fun h => congrArg Except.ok h⟩

end Journal

end LayerGate
