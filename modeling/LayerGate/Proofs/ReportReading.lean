import Mathlib
import LayerGate.Proofs.JsonRoundTrip
import LayerGate.Proofs.UniqueKeys
import LayerGate.Report.Schema
import LayerGate.Report.Structured

/-!
# Reading a report back

A record is read by looking its keys up, so it makes no difference in which order its fields stand.
The schema of reports therefore takes what was printed for a report, and gives the report back.
-/

namespace LayerGate

namespace Schema

/-! ## Accepted fields -/

@[simp] theorem Checked.both_valid {α β γ : Type} (f : α → β → γ) (a : α) (b : β) :
    Checked.both f (.valid a) (.valid b) = .valid (f a b) := rfl

@[simp] theorem Checked.inside_valid {α : Type} (step : Step) (a : α) :
    (Checked.valid a).inside step = .valid a := rfl

theorem elements_map {α β : Type} {read : β → Checked α} {write : α → β} {xs : List α}
    (h : ∀ x ∈ xs, read (write x) = .valid x) (i : Nat) :
    Checked.elements i ((xs.map write).map read) = .valid xs := by
  induction xs generalizing i with
  | nil => rfl
  | cons x xs ih =>
    have hx := h x (List.mem_cons_self ..)
    have hxs := ih (fun y hy => h y (List.mem_cons_of_mem _ hy)) (i + 1)
    rw [List.map_cons, List.map_cons, Checked.elements, hx, hxs]
    rfl

/-! ## Records in another order -/

namespace Reader

variable {α β : Type}

@[simp] theorem run_map (f : α → β) (r : Reader α) (fs : Fields) :
    (f <$> r).run fs = Checked.both (· ·) (.valid f) (r.run fs) := rfl

@[simp] theorem used_map (f : α → β) (r : Reader α) (fs : Fields) :
    (f <$> r).used fs = r.used fs := rfl

@[simp] theorem run_seq (f : Reader (α → β)) (r : Reader α) (fs : Fields) :
    (f <*> r).run fs = Checked.both (· ·) (f.run fs) (r.run fs) := rfl

@[simp] theorem used_seq (f : Reader (α → β)) (r : Reader α) (fs : Fields) :
    (f <*> r).used fs = f.used fs ++ r.used fs := rfl

/-- What the reader gives depends on what the keys are found to hold. -/
def Steady (r : Reader α) : Prop :=
  ∀ fs gs : Fields, (∀ key, fs.get? key = gs.get? key) → r.run fs = r.run gs ∧ r.used fs = r.used gs

theorem found?_congr {fs gs : Fields} (h : ∀ key, fs.get? key = gs.get? key) (names : List String) :
    found? names fs = found? names gs := by
  simp only [found?, h]

theorem Steady.field (names : List String) (read : Value → Checked α) (absent : Checked α) :
    (field names read absent).Steady := by
  intro fs gs h
  simp only [Reader.field, found?_congr h, and_self]

theorem Steady.required (names : List String) (read : Value → Checked α) :
    (required names read).Steady := Steady.field names read _

theorem Steady.optional (names : List String) (read : Value → Checked α) (default : α) :
    (optional names read default).Steady := Steady.field names read _

theorem Steady.seq {f : Reader (α → β)} {r : Reader α} (hf : f.Steady) (hr : r.Steady) :
    (f <*> r).Steady := by
  intro fs gs h
  obtain ⟨hfrun, hfused⟩ := hf fs gs h
  obtain ⟨hrun, hused⟩ := hr fs gs h
  rw [run_seq, run_seq, used_seq, used_seq, hfrun, hrun, hfused, hused]
  exact ⟨rfl, rfl⟩

theorem Steady.pure (a : α) : (pure a : Reader α).Steady := fun _ _ _ => ⟨rfl, rfl⟩

end Reader

theorem record_eq_valid_iff {α : Type} {name : String} {r : Reader α} {fs : Fields} {a : α} :
    record name r (.table fs) = .valid a ↔ (∀ f ∈ fs, f.1 ∈ r.used fs) ∧ r.run fs = .valid a := by
  have hunknown : unknownKeys (r.used fs) fs = [] ↔ ∀ f ∈ fs, f.1 ∈ r.used fs := by
    simp [unknownKeys]
  rw [← hunknown, record]
  split
  · rename_i h
    simp [h]
  · rename_i h
    constructor
    · intro hvalid
      cases hrun : r.run fs with
      | valid b =>
        rw [hrun] at hvalid
        cases hvalid
      | invalid cs =>
        rw [hrun] at hvalid
        cases hvalid
    · rintro ⟨hnil, -⟩
      exact absurd hnil h

/-- A record is accepted in whatever order its fields stand. -/
theorem record_perm {α : Type} {name : String} {r : Reader α} {fs gs : Fields} {a : α}
    (hr : r.Steady) (hperm : fs.Perm gs) (hkeys : (fs.map (·.1)).Nodup)
    (h : record name r (.table fs) = .valid a) : record name r (.table gs) = .valid a := by
  obtain ⟨hrun, hused⟩ := hr fs gs fun _ => lookup_perm hperm hkeys
  rw [record_eq_valid_iff] at h ⊢
  obtain ⟨hknown, hvalid⟩ := h
  refine ⟨fun f hf => ?_, hrun ▸ hvalid⟩
  rw [← hused]
  exact hknown f (hperm.mem_iff.2 hf)

/-- A table is accepted in its printed order if its fields, each in its printed order, are. -/
theorem record_canonical {α : Type} {name : String} {r : Reader α} {fs : Fields} {a : α}
    (hr : r.Steady) (hkeys : (fs.map (·.1)).Nodup)
    (h : record name r (.table (fs.map fun f => (f.1, f.2.canonical))) = .valid a) :
    record name r (Value.table fs).canonical = .valid a := by
  rw [Value.canonical_table]
  apply record_perm hr ((List.mergeSort_perm ..).symm.map _) _ h
  rw [List.map_map]
  exact hkeys

end Schema

namespace Report

open Schema Reader

/-! ## Fields of a report -/

theorem nullable_optionalText (o : Option String) :
    nullable Schema.text (optionalText o) = .valid o := by
  cases o <;> rfl

theorem oneOf_severity (s : Severity) : oneOf Severity.words (.text s.word) = .valid s := by
  cases s <;> rfl

theorem oneOf_verdict (v : Verdict) : oneOf Verdict.words (.text v.word) = .valid v := by
  cases v <;> rfl

theorem code_reason (r : Reason) : Schema.code Reason.words (.text r.code) = .valid r := by
  cases r <;> rfl

theorem canonical_optionalText (o : Option String) : (optionalText o).canonical = optionalText o := by
  cases o <;> rfl

theorem printable_optionalText (o : Option String) : (optionalText o).Printable := by
  cases o with
  | none => exact .null
  | some s => exact .text s

/-! ## Records and summaries -/

/-- What was printed for a record is accepted as the record. -/
theorem recordSchema_value (r : Record) : recordSchema r.value.canonical = .valid r := by
  have htext : ∀ s ∈ r.cycle, Schema.text (.text s) = .valid s := fun _ _ => rfl
  have hcycle : list Schema.text (.list (r.cycle.map Value.text)) = .valid r.cycle :=
    elements_map htext 0
  have hcanonical : (r.cycle.map Value.text).map Value.canonical = r.cycle.map Value.text := by
    rw [List.map_map]
    rfl
  apply record_canonical
  · repeat' first
      | exact Steady.required _ _
      | exact Steady.optional _ _ _
      | exact Steady.pure _
      | apply Steady.seq
  · simp
  · simp [Schema.record, unknownKeys, required, Reader.optional, field, found?, Fields.get?,
      List.lookup, Schema.text, Value.canonical, Value.canonicalItems_eq_map, hcanonical,
      canonical_optionalText, nullable_optionalText, oneOf_severity, code_reason, hcycle]

/-- What was printed for a summary is accepted as the summary. -/
theorem summarySchema_value (s : Summary) : summarySchema s.value.canonical = .valid s := by
  apply record_canonical
  · repeat' first
      | exact Steady.required _ _
      | exact Steady.pure _
      | apply Steady.seq
  · simp
  · simp [Schema.record, unknownKeys, required, field, found?, Fields.get?, List.lookup, integer,
      Value.canonical, oneOf_verdict]

/-- What was printed for a report is accepted as the report. -/
theorem schema_value (r : Report) : schema r.value.canonical = .valid r := by
  have hrecords : list recordSchema (.list (r.records.map (Value.canonical ∘ Record.value))) =
      .valid r.records :=
    elements_map (fun record _ => recordSchema_value record) 0
  apply record_canonical
  · repeat' first
      | exact Steady.required _ _
      | exact Steady.optional _ _ _
      | exact Steady.pure _
      | apply Steady.seq
  · simp
  · have hversion : (Value.int r.schemaVersion).canonical = .int r.schemaVersion := rfl
    rw [List.map_cons, List.map_cons, List.map_cons, List.map_nil, hversion, Value.canonical_list]
    simp [Schema.record, unknownKeys, required, Reader.optional, field, found?, Fields.get?,
      List.lookup, integer, hrecords, summarySchema_value]

/-! ## The whole text -/

theorem printable_value (r : Report) : r.value.Printable := by
  have hrecord : ∀ record : Record, record.value.Printable := by
    intro record
    refine .table (by simp) fun f hf => ?_
    simp only [List.mem_cons, List.not_mem_nil, or_false] at hf
    rcases hf with rfl | rfl | rfl | rfl | rfl | rfl | rfl | rfl | rfl
    case inr.inr.inr.inr.inr.inr.inr.inr =>
      refine .list fun v hv => ?_
      obtain ⟨s, -, rfl⟩ := List.mem_map.1 hv
      exact .text s
    all_goals first
      | exact .text _
      | exact printable_optionalText _
  have hsummary : r.summary.value.Printable := by
    refine .table (by simp) fun f hf => ?_
    simp only [List.mem_cons, List.not_mem_nil, or_false] at hf
    rcases hf with rfl | rfl | rfl | rfl | rfl | rfl | rfl
    all_goals first
      | exact .text _
      | exact .int _
  refine .table (by simp) fun f hf => ?_
  simp only [List.mem_cons, List.not_mem_nil, or_false] at hf
  rcases hf with rfl | rfl | rfl
  · exact .int _
  · refine .list fun v hv => ?_
    obtain ⟨record, -, rfl⟩ := List.mem_map.1 hv
    exact hrecord record
  · exact hsummary

/-- The text of a report reads back as the report. -/
theorem read_document_value (r : Report) :
    ∃ v, Value.Json.read (Value.Json.document r.value) = some v ∧ schema v = .valid r :=
  ⟨r.value.canonical, Value.Json.read_document (printable_value r), schema_value r⟩

/-- No two reports have one text. -/
theorem structured?_inj {r r' : Report} {text : String} (h : structured? r = some text)
    (h' : structured? r' = some text) : r = r' := by
  have hdocument : ∀ {q : Report}, structured? q = some text →
      Value.Json.document q.value = text := by
    intro q hq
    rw [structured?] at hq
    split at hq
    · exact Option.some_inj.1 hq
    · cases hq
  obtain ⟨v, hv, hr⟩ := read_document_value r
  obtain ⟨v', hv', hr'⟩ := read_document_value r'
  rw [hdocument h] at hv
  rw [hdocument h', hv, Option.some_inj] at hv'
  rw [← hv', hr] at hr'
  cases hr'
  rfl

end Report

end LayerGate
