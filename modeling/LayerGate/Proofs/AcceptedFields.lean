import Mathlib.Data.List.Forall2
import LayerGate.Config.Schema
import LayerGate.Proofs.ReportReading

/-!
# What was read

A value that was accepted tells what it was read from: a text from a text, a list from a list of what
its elements were read from, and a field from what stood under its key, or from nothing where it has a
default.
-/

namespace LayerGate.Schema

variable {α β γ : Type} {v w : Value} {fields : Fields} {f : String × Value} {a default : α}
  {names : List String} {name key : String} {read : Value → Checked α}

/-! ## Parts of a value -/

namespace Checked

theorem both_eq_valid_iff {f : α → β → γ} {x : Checked α} {y : Checked β} {c : γ} :
    both f x y = .valid c ↔ ∃ a b, x = .valid a ∧ y = .valid b ∧ f a b = c := by
  cases x <;> cases y <;> simp [both]

theorem inside_eq_valid_iff {step : Step} {x : Checked α} {a : α} :
    x.inside step = .valid a ↔ x = .valid a := by
  cases x <;> simp [inside]

theorem map_eq_valid_iff {f : α → β} {x : Checked α} {b : β} :
    x.map f = .valid b ↔ ∃ a, x = .valid a ∧ f a = b := by
  cases x <;> simp [Checked.map]

end Checked

theorem record_eq_valid {r : Reader α} (h : record name r v = .valid a) : ∃ fields, v = .table fields ∧ r.run fields = .valid a := by
  cases v with
  | table fields => exact ⟨fields, rfl, (record_eq_valid_iff.1 h).2⟩
  | _ => cases h

theorem nullable_eq_valid {o : Option α} (h : nullable read v = .valid o) :
    o = none ∨ ∃ a, read v = .valid a ∧ o = some a := by
  unfold nullable at h
  split at h
  · cases h
    exact .inl rfl
  · obtain ⟨a, ha, rfl⟩ := Checked.map_eq_valid_iff.1 h
    exact .inr ⟨a, ha, rfl⟩

/-! ## Texts and lists -/

theorem text_eq_valid_iff {s : String} : text v = .valid s ↔ v = .text s := by
  cases v <;> simp [text, Checked.complain]

theorem elements_eq_valid_iff {cs : List (Checked α)} {as : List α} {i : Nat} :
    Checked.elements i cs = .valid as ↔ List.Forall₂ (fun c a => c = .valid a) cs as := by
  induction cs generalizing as i with
  | nil => simp [Checked.elements, List.forall₂_nil_left_iff, eq_comm]
  | cons c cs ih =>
    rw [Checked.elements, Checked.both_eq_valid_iff, List.forall₂_cons_left_iff]
    simp only [Checked.inside_eq_valid_iff, ih, eq_comm (a := as), exists_and_left]

theorem list_eq_valid_iff {as : List α} :
    list read v = .valid as ↔
      ∃ vs, v = .list vs ∧ List.Forall₂ (fun w a => read w = .valid a) vs as := by
  cases v with
  | list vs => simp [list, elements_eq_valid_iff, List.forall₂_map_left_iff]
  | _ => simp [list, Checked.complain]

theorem list_text_eq_valid_iff {ss : List String} :
    list text v = .valid ss ↔ v = .list (ss.map Value.text) := by
  have hmap : ∀ vs, List.Forall₂ (fun w s => w = Value.text s) vs ss ↔ vs = ss.map Value.text := by
    intro vs
    rw [← List.forall₂_eq_eq_eq, List.forall₂_map_right_iff]
  simp only [list_eq_valid_iff, text_eq_valid_iff, hmap, exists_eq_right]

/-- A list of tables, one for each element and each as `Spells` says. -/
def ListOf (Spells : Fields → α → Prop) (v : Value) (as : List α) : Prop :=
  ∃ tables : List Fields, v = .list (tables.map Value.table) ∧ List.Forall₂ Spells tables as

theorem listOf_nil_iff {Spells : Fields → α → Prop} {as : List α} :
    ListOf Spells (.list []) as ↔ as = [] := by
  constructor
  · rintro ⟨tables, htables, helements⟩
    obtain rfl : tables = [] := List.map_eq_nil_iff.1 (Value.list.inj htables).symm
    exact List.forall₂_nil_left_iff.1 helements
  · rintro rfl
    exact ⟨[], rfl, .nil⟩

/-- Where an element is read from the tables that spell it, a list is read from the lists of such
tables. -/
theorem list_eq_valid_iff_listOf {Spells : Fields → α → Prop}
    (h : ∀ w a, read w = .valid a ↔ ∃ table, w = .table table ∧ Spells table a) {as : List α} :
    list read v = .valid as ↔ ListOf Spells v as := by
  simp only [list_eq_valid_iff, h]
  constructor
  · rintro ⟨vs, rfl, helements⟩
    clear h
    induction helements with
    | nil => exact ⟨[], rfl, .nil⟩
    | cons hhead _ ih =>
      obtain ⟨table, rfl, hspells⟩ := hhead
      obtain ⟨tables, htables, hrest⟩ := ih
      cases htables
      exact ⟨table :: tables, rfl, .cons hspells hrest⟩
  · rintro ⟨tables, rfl, helements⟩
    refine ⟨_, rfl, List.forall₂_map_left_iff.2 (helements.imp fun table a hspells => ?_)⟩
    exact ⟨table, rfl, hspells⟩

/-! ## Fields -/

namespace Reader

theorem found?_singleton : found? [name] fields = (fields.get? name).map (name, ·) := by
  simp [found?]

theorem found?_eq_some (h : found? names fields = some (key, w)) :
    key ∈ names ∧ fields.get? key = some w := by
  obtain ⟨name, hname, hfound⟩ := List.exists_of_findSome?_eq_some h
  obtain ⟨w', hw', heq⟩ := Option.map_eq_some_iff.1 hfound
  cases heq
  exact ⟨hname, hw'⟩

/-- Where one of the names only is a key, that is the one found. -/
theorem found?_of_only (hkey : key ∈ names) (hw : fields.get? key = some w)
    (honly : ∀ name ∈ names, name ≠ key → fields.get? name = none) :
    found? names fields = some (key, w) := by
  have hsome : (found? names fields).isSome = true := by
    rw [found?, List.findSome?_isSome_iff]
    exact ⟨key, hkey, by rw [hw]; rfl⟩
  obtain ⟨⟨name, w'⟩, hfound⟩ := Option.isSome_iff_exists.1 hsome
  obtain ⟨hname, hw'⟩ := found?_eq_some hfound
  by_cases hne : name = key
  · rw [hne, hw, Option.some_inj] at hw'
    rw [hfound, hne, hw']
  · rw [honly name hname hne] at hw'
    cases hw'

theorem isSome_get? (hf : f ∈ fields) : (fields.get? f.1).isSome = true := by
  rw [Fields.get?, List.lookup_isSome_iff]
  exact ⟨f, hf, beq_self_eq_true _⟩

theorem get?_eq_none (h : ∀ f ∈ fields, f.1 ≠ name) : fields.get? name = none := by
  rw [Fields.get?, List.lookup_eq_none_iff]
  intro f hf
  exact bne_iff_ne.2 (h f hf).symm

/-- A field uses the key under which it was found. -/
theorem mem_used_field {absent : Checked α} :
    key ∈ (field names read absent).used fields ↔ ∃ w, found? names fields = some (key, w) := by
  simp [field]

/-- A field under one name uses that key if it is there. -/
theorem mem_used_field_singleton {absent : Checked α} (hf : f ∈ fields) :
    f.1 ∈ (field [name] read absent).used fields ↔ f.1 = name := by
  rw [mem_used_field, found?_singleton]
  constructor
  · rintro ⟨_, hfound⟩
    obtain ⟨_, -, heq⟩ := Option.map_eq_some_iff.1 hfound
    exact (congrArg Prod.fst heq).symm
  · rintro rfl
    obtain ⟨w, hw⟩ := Option.isSome_iff_exists.1 (isSome_get? hf)
    exact ⟨w, by rw [hw]; rfl⟩

theorem run_required_eq_valid_iff :
    (required names read).run fields = .valid a ↔
      ∃ key w, found? names fields = some (key, w) ∧ read w = .valid a := by
  unfold required field
  simp only
  split
  · rename_i h
    simp [h, Checked.inside_eq_valid_iff]
  · rename_i h
    simp [h, Checked.complain, Checked.inside]

theorem run_required_singleton_eq_valid_iff :
    (required [name] read).run fields = .valid a ↔
      ∃ w, fields.get? name = some w ∧ read w = .valid a := by
  simp [run_required_eq_valid_iff, found?_singleton]

theorem run_optional_eq_valid_iff :
    (optional [name] read default).run fields = .valid a ↔
      (∃ w, fields.get? name = some w ∧ read w = .valid a) ∨ fields.get? name = none ∧ a = default := by
  unfold optional field
  simp only [found?_singleton]
  cases fields.get? name with
  | none => simp [eq_comm]
  | some w => simp [Checked.inside_eq_valid_iff]

/-- A field has the value that was read, or its default. -/
theorem optional_eq_valid (h : (optional [name] read default).run fields = .valid a) :
    a = default ∨ ∃ w, read w = .valid a := by
  rcases run_optional_eq_valid_iff.1 h with ⟨w, -, hread⟩ | ⟨-, hdefault⟩
  · exact .inr ⟨w, hread⟩
  · exact .inl hdefault

/-- What the field gives, if it is there, or else the default. -/
theorem run_optional_eq_valid_iff_rel :
    (optional [name] read default).run fields = .valid a ↔
      ∃ o, Option.Rel (fun w b => read w = .valid b) (fields.get? name) o ∧ o.getD default = a := by
  rw [run_optional_eq_valid_iff]
  constructor
  · rintro (⟨w, hw, hread⟩ | ⟨hnone, rfl⟩)
    · exact ⟨some a, hw ▸ .some hread, rfl⟩
    · exact ⟨none, hnone ▸ .none, rfl⟩
  · rintro ⟨o, hrel, rfl⟩
    generalize fields.get? name = found at hrel
    cases hrel with
    | some hread => exact .inl ⟨_, rfl, hread⟩
    | none => exact .inr ⟨rfl, rfl⟩

end Reader

end LayerGate.Schema
