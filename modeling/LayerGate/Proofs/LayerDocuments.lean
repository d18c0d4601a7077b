import LayerGate.Proofs.AcceptedConfig

/-!
# Documents of layers and rules

What a table must hold for layers and rules to be read from it, and what they are then: where it gives
layers but no rules there are none, and where it gives neither both are the built-in ones.  A table
that spells layers and rules out is accepted just if these are.
-/

namespace LayerGate

namespace Config

open Schema Reader

variable {fields : Fields} {v : Value} {layer : Layer} {rule : Rule}

/-! ## Layers and rules -/

/-- The table holds the name and the patterns of the layer and nothing else. -/
structure SpellsLayer (fields : Fields) (layer : Layer) : Prop where
  known : ∀ f ∈ fields, f.1 = "name" ∨ f.1 = "globs"
  name : fields.get? "name" = some (.text layer.name)
  globs : fields.get? "globs" = some (.list (layer.globs.map Value.text))

/-- The table holds the source and the targets of the rule and nothing else.  The source stands under
either of two keys, and where there are no targets their key may be absent. -/
structure SpellsRule (fields : Fields) (rule : Rule) : Prop where
  source : ∃ key, (key = "from" ∨ key = "from_layer") ∧
    fields.get? key = some (.text rule.source) ∧ ∀ f ∈ fields, f.1 = key ∨ f.1 = "to"
  targets : fields.get? "to" = some (.list (rule.targets.map Value.text)) ∨
    fields.get? "to" = none ∧ rule.targets = []

theorem layerSchema_eq_valid_iff :
    layerSchema v = .valid layer ↔ ∃ fields, v = .table fields ∧ SpellsLayer fields layer := by
  have hused : ∀ fields : Fields, ∀ f ∈ fields,
      f.1 ∈ (Layer.mk <$> required ["name"] text <*> required ["globs"] (list text)).used fields ↔
        f.1 = "name" ∨ f.1 = "globs" := by
    intro fields f hf
    rw [used_seq, used_map, List.mem_append, required, required, mem_used_field_singleton hf,
      mem_used_field_singleton hf]
  constructor
  · intro h
    obtain ⟨fields, rfl, hrun⟩ := record_eq_valid h
    obtain ⟨hknown, -⟩ := record_eq_valid_iff.1 h
    simp only [run_seq, run_map, Checked.both_eq_valid_iff, run_required_singleton_eq_valid_iff,
      text_eq_valid_iff, list_text_eq_valid_iff] at hrun
    obtain ⟨_, _, ⟨_, _, hmk, ⟨_, hname, rfl⟩, rfl⟩, ⟨_, hglobs, rfl⟩, rfl⟩ := hrun
    cases hmk
    exact ⟨fields, rfl, fun f hf => (hused fields f hf).1 (hknown f hf), hname, hglobs⟩
  · rintro ⟨fields, rfl, hspells⟩
    refine record_eq_valid_iff.2 ⟨fun f hf => (hused fields f hf).2 (hspells.known f hf), ?_⟩
    simp only [run_seq, run_map, Checked.both_eq_valid_iff, run_required_singleton_eq_valid_iff,
      text_eq_valid_iff, list_text_eq_valid_iff]
    exact ⟨_, _, ⟨_, _, rfl, ⟨_, hspells.name, rfl⟩, rfl⟩, ⟨_, hspells.globs, rfl⟩, rfl⟩

theorem ruleSchema_eq_valid_iff :
    ruleSchema v = .valid rule ↔ ∃ fields, v = .table fields ∧ SpellsRule fields rule := by
  constructor
  · intro h
    obtain ⟨fields, rfl, hrun⟩ := record_eq_valid h
    obtain ⟨hknown, -⟩ := record_eq_valid_iff.1 h
    simp only [run_seq, run_map, Checked.both_eq_valid_iff, run_required_eq_valid_iff,
      run_optional_eq_valid_iff, text_eq_valid_iff, list_text_eq_valid_iff] at hrun
    obtain ⟨_, _, ⟨_, _, hmk, ⟨key, _, hfound, rfl⟩, rfl⟩, htargets, rfl⟩ := hrun
    cases hmk
    obtain ⟨hkey, hsource⟩ := found?_eq_some hfound
    refine ⟨fields, rfl, ⟨key, by simpa using hkey, hsource, fun f hf => ?_⟩, by simpa using htargets⟩
    have hused := hknown f hf
    rw [used_seq, used_map, List.mem_append, required, Reader.optional, mem_used_field_singleton hf,
      mem_used_field, hfound] at hused
    rcases hused with ⟨_, heq⟩ | hto
    · exact .inl (congrArg Prod.fst (Option.some_inj.1 heq)).symm
    · exact .inr hto
  · rintro ⟨fields, rfl, ⟨key, hkey, hsource, hknown⟩, htargets⟩
    have hfound : found? ["from", "from_layer"] fields = some (key, .text rule.source) := by
      refine found?_of_only (by simpa using hkey) hsource fun name hname hne => ?_
      refine get?_eq_none fun f hf heq => ?_
      rcases hknown f hf with h | h
      · exact hne (heq.symm.trans h)
      · rw [← heq, h] at hname
        revert hname
        decide
    refine record_eq_valid_iff.2 ⟨fun f hf => ?_, ?_⟩
    · rw [used_seq, used_map, List.mem_append, required, Reader.optional, mem_used_field_singleton hf,
        mem_used_field, hfound]
      exact (hknown f hf).imp_left fun h => ⟨_, by rw [h]⟩
    · simp only [run_seq, run_map, Checked.both_eq_valid_iff, run_required_eq_valid_iff,
        run_optional_eq_valid_iff, text_eq_valid_iff, list_text_eq_valid_iff]
      exact ⟨_, _, ⟨_, _, rfl, ⟨_, _, hfound, rfl⟩, rfl⟩, by simpa using htargets, rfl⟩

/-! ## Whole documents -/

/-- What a document says about layers; any part of it may be left out. -/
structure Given where
  layers : Option (List Layer)
  rules : Option (List Rule)
  unclassified : Option Unclassified

/-- Built-in rules go with the built-in layers only. -/
def Given.meaning (given : Given) : Layers where
  layers := given.layers.getD Layers.builtinLayers
  rules := given.rules.getD (if given.layers.isSome then [] else Layers.builtinRules)
  unclassified := given.unclassified.getD .deny

/-- The table gives just this. -/
structure Spells (fields : Fields) (given : Given) : Prop where
  known : ∀ f ∈ fields, f.1 = "layer" ∨ f.1 = "rules" ∨ f.1 = "unclassified"
  layers : Option.Rel (ListOf SpellsLayer) (fields.get? "layer") given.layers
  rules : Option.Rel (ListOf SpellsRule) (fields.get? "rules") given.rules
  unclassified : fields.get? "unclassified" = given.unclassified.map fun u => .text u.word

variable {given : Given} {l : Layers}

theorem oneOf_unclassified_eq_valid_iff {u : Unclassified} :
    oneOf Unclassified.words v = .valid u ↔ v = .text u.word := by
  cases v with
  | text s =>
    have hkeys : (Unclassified.words.map (·.1)).Nodup := by decide
    have hword : (s, u) ∈ Unclassified.words ↔ s = u.word := by
      cases u <;> simp [Unclassified.words, Unclassified.word]
    rw [Value.text.injEq, ← hword, ← lookup_eq_some_iff_mem hkeys, oneOf, Words.find?]
    split
    · rename_i h
      rw [h, Checked.valid.injEq, Option.some_inj]
    · rename_i h
      simp [h, Checked.complain]
  | _ => simp [oneOf, Words.find?, Checked.complain]

/-- How a table stands to the one that the configuration is read from: it may have been put in that
there are no rules. -/
structure Amends (amended fields : Fields) : Prop where
  layer : amended.get? "layer" = fields.get? "layer"
  rules : amended.get? "rules" =
    (fields.get? "rules").or (if (fields.get? "layer").isSome then some (.list []) else none)
  unclassified : amended.get? "unclassified" = fields.get? "unclassified"
  sub : fields ⊆ amended
  new : ∀ f ∈ amended, f.1 = "rules" ∨ f ∈ fields

theorem withoutBuiltinRules_table (fields : Fields) :
    ∃ amended, withoutBuiltinRules (.table fields) = .table amended ∧ Amends amended fields := by
  by_cases hnone : (fields.get? "layer").isSome ∧ (fields.get? "rules").isNone
  · have hamended : withoutBuiltinRules (.table fields) =
        .table (fields ++ [("rules", .list [])]) := if_pos hnone
    obtain ⟨hlayer, hrules⟩ := hnone
    have happend : ∀ key, (fields ++ [("rules", .list [])] : Fields).get? key =
        (fields.get? key).or (Fields.get? [("rules", .list [])] key) :=
      fun key => List.lookup_append
    refine ⟨_, hamended, (happend _).trans Option.or_none, ?_, (happend _).trans Option.or_none,
      List.subset_append_left .., fun f hf => ?_⟩
    · rw [happend, if_pos hlayer]
      rfl
    · rcases List.mem_append.1 hf with hf | hf
      · exact .inr hf
      · obtain rfl := List.mem_singleton.1 hf
        exact .inl rfl
  · refine ⟨fields, if_neg hnone, rfl, ?_, rfl, fun _ => id, fun f hf => .inr hf⟩
    cases hrules : fields.get? "rules" with
    | some w => rfl
    | none =>
      have hlayer : ¬ (fields.get? "layer").isSome = true := fun h => hnone ⟨h, by rw [hrules]; rfl⟩
      rw [if_neg hlayer]
      rfl

/-- Which rules a document gives once it has been put in that there are none. -/
theorem rules_amended {given? layer? : Option Value} {rules : List Rule} :
    (∃ o, Option.Rel (ListOf SpellsRule)
        (given?.or (if layer?.isSome then some (.list []) else none)) o ∧
          o.getD Layers.builtinRules = rules) ↔
      ∃ o, Option.Rel (ListOf SpellsRule) given? o ∧
        o.getD (if layer?.isSome then [] else Layers.builtinRules) = rules := by
  cases given? with
  | some w =>
    constructor
    · rintro ⟨_, ⟨hlist⟩, rfl⟩
      exact ⟨_, .some hlist, rfl⟩
    · rintro ⟨_, ⟨hlist⟩, rfl⟩
      exact ⟨_, .some hlist, rfl⟩
  | none =>
    cases layer? with
    | some _ =>
      constructor
      · rintro ⟨_, ⟨hlist⟩, rfl⟩
        exact ⟨none, .none, (listOf_nil_iff.1 hlist).symm⟩
      · rintro ⟨_, ⟨⟩, rfl⟩
        exact ⟨some [], .some (listOf_nil_iff.2 rfl), rfl⟩
    | none => rfl

theorem rel_text_iff {given? : Option Value} {o : Option Unclassified} :
    Option.Rel (fun w u => w = .text u.word) given? o ↔ given? = o.map fun u => .text u.word := by
  constructor
  · rintro (rfl | _)
    · rfl
    · rfl
  · rintro rfl
    cases o with
    | none => exact .none
    | some u => exact .some rfl

theorem isSome_of_rel {α β : Type} {R : α → β → Prop} {x : Option α} {y : Option β}
    (h : Option.Rel R x y) : x.isSome = y.isSome := by
  cases h <;> rfl

/-- What the schema reads before it asks whether the layers are accepted. -/
def layersReader : Reader Layers :=
  Layers.mk <$> Reader.optional ["layer"] (list layerSchema) Layers.builtinLayers
    <*> Reader.optional ["rules"] (list ruleSchema) Layers.builtinRules
    <*> Reader.optional ["unclassified"] (oneOf Unclassified.words) .deny

theorem record_layersReader_eq_valid_iff :
    record "LayersConfig" layersReader (withoutBuiltinRules (.table fields)) = .valid l ↔
      ∃ given, Spells fields given ∧ given.meaning = l := by
  obtain ⟨amended, hamended, h⟩ := withoutBuiltinRules_table fields
  have hused : ∀ f ∈ amended, f.1 ∈ layersReader.used amended ↔
      f.1 = "layer" ∨ f.1 = "rules" ∨ f.1 = "unclassified" := by
    intro f hf
    simp only [layersReader, used_seq, used_map, List.mem_append, Reader.optional,
      mem_used_field_singleton hf, or_assoc]
  have hlayers : (fun w ls => list layerSchema w = .valid ls) = ListOf SpellsLayer := by
    funext w ls
    exact propext (list_eq_valid_iff_listOf fun _ _ => layerSchema_eq_valid_iff)
  have hrules : (fun w rs => list ruleSchema w = .valid rs) = ListOf SpellsRule := by
    funext w rs
    exact propext (list_eq_valid_iff_listOf fun _ _ => ruleSchema_eq_valid_iff)
  rw [hamended, record_eq_valid_iff, forall₂_congr hused]
  simp only [layersReader, run_seq, run_map, Checked.both_eq_valid_iff, run_optional_eq_valid_iff_rel,
    h.layer, h.rules, h.unclassified, hlayers, hrules, rules_amended, oneOf_unclassified_eq_valid_iff,
    rel_text_iff]
  constructor
  · rintro ⟨hknown, _, _, ⟨_, _, ⟨_, _, hmk, ⟨layers, hlayers, rfl⟩, rfl⟩, ⟨rules, hrules, rfl⟩, rfl⟩,
      ⟨unclassified, hunclassified, rfl⟩, rfl⟩
    cases hmk
    refine ⟨⟨layers, rules, unclassified⟩,
      ⟨fun f hf => hknown f (h.sub hf), hlayers, hrules, hunclassified⟩, ?_⟩
    rw [isSome_of_rel hlayers]
    rfl
  · rintro ⟨given, hspells, rfl⟩
    refine ⟨fun f hf => ?_, _, _, ⟨_, _, ⟨_, _, rfl, ⟨_, hspells.layers, rfl⟩, rfl⟩,
      ⟨_, hspells.rules, rfl⟩, rfl⟩, ⟨_, hspells.unclassified, rfl⟩, ?_⟩
    · rcases h.new f hf with hrule | hmem
      · exact .inr (.inl hrule)
      · exact hspells.known f hmem
    · rw [isSome_of_rel hspells.layers]
      rfl

theorem layersSchema_eq_valid_iff {document : Value} :
    layersSchema document = .valid l ↔
      record "LayersConfig" layersReader (withoutBuiltinRules document) = .valid l ∧ l.Accepted := by
  rw [← Layers.fault?_eq_none_iff, ← Option.map_eq_none_iff]
  exact Checked.obeying_eq_valid_iff

/-- A document that gives layers and rules is accepted just if these are, and stands for them. -/
theorem layersSchema_eq_valid_iff_of_spells (h : Spells fields given) :
    layersSchema (.table fields) = .valid l ↔ given.meaning = l ∧ l.Accepted := by
  have hrecord := record_layersReader_eq_valid_iff.2 ⟨given, h, rfl⟩
  rw [layersSchema_eq_valid_iff, hrecord, Checked.valid.injEq]

/-- No other document is accepted. -/
theorem spells_of_layersSchema {document : Value} (h : layersSchema document = .valid l) :
    ∃ fields given, document = .table fields ∧ Spells fields given ∧ given.meaning = l := by
  have hrecord := (layersSchema_eq_valid_iff.1 h).1
  cases document with
  | table fields =>
    obtain ⟨given, hspells, hmeaning⟩ := record_layersReader_eq_valid_iff.1 hrecord
    exact ⟨fields, given, rfl, hspells, hmeaning⟩
  | _ => cases hrecord

/-! ## Documents for everything -/

/-- A table that spells the layer out. -/
def layerFields (layer : Layer) : Fields :=
  [("name", .text layer.name), ("globs", .list (layer.globs.map Value.text))]

/-- A table that spells the rule out. -/
def ruleFields (rule : Rule) : Fields :=
  [("from", .text rule.source), ("to", .list (rule.targets.map Value.text))]

/-- A table that gives this. -/
def Given.written (given : Given) : Fields :=
  (given.layers.map fun ls => ("layer", .list ((ls.map layerFields).map Value.table))).toList ++
    (given.rules.map fun rs => ("rules", .list ((rs.map ruleFields).map Value.table))).toList ++
      (given.unclassified.map fun u => ("unclassified", .text u.word)).toList

theorem spells_layerFields (layer : Layer) : SpellsLayer (layerFields layer) layer where
  known := by simp [layerFields]
  name := rfl
  globs := rfl

theorem spells_ruleFields (rule : Rule) : SpellsRule (ruleFields rule) rule where
  source := ⟨"from", .inl rfl, rfl, by simp [ruleFields]⟩
  targets := .inl rfl

theorem listOf_map {α : Type} {Spells : Fields → α → Prop} {write : α → Fields}
    (h : ∀ a, Spells (write a) a) (as : List α) :
    ListOf Spells (.list ((as.map write).map Value.table)) as :=
  ⟨as.map write, rfl, List.forall₂_map_left_iff.2 (List.forall₂_same.2 fun a _ => h a)⟩

/-- Whatever layers, rules and answer to unclassified files, with or without each of them, some
document gives them. -/
theorem spells_written (given : Given) : Spells given.written given := by
  obtain ⟨layers, rules, unclassified⟩ := given
  have hlayers := listOf_map spells_layerFields
  have hrules := listOf_map spells_ruleFields
  refine ⟨?_, ?_, ?_, ?_⟩
  · simp only [Given.written, List.mem_append, Option.mem_toList, Option.map_eq_some_iff]
    rintro f ((⟨_, -, rfl⟩ | ⟨_, -, rfl⟩) | ⟨_, -, rfl⟩)
    · exact .inl rfl
    · exact .inr (.inl rfl)
    · exact .inr (.inr rfl)
  · cases layers with
    | none => cases rules <;> cases unclassified <;> exact .none
    | some ls => exact .some (hlayers ls)
  · cases rules with
    | none => cases layers <;> cases unclassified <;> exact .none
    | some rs => cases layers <;> exact .some (hrules rs)
  · cases layers <;> cases rules <;> cases unclassified <;> rfl

end Config

end LayerGate
