import Mathlib.Data.List.Nodup
import LayerGate.Config.Schema

/-!
# Accepted layers and rules

What the checks on layers and rules leave: names that differ from one another and from the reserved
one, one rule a layer at most, and rules that speak of known layers only.  Under these the matrix
says what the list of rules says.
-/

namespace LayerGate

namespace Layers

variable {l : Layers} {a b path : String}

/-- No layer has the reserved name, no name or source of a rule stands twice, and every name in a
rule is a layer or the tag of unclassified files. -/
structure Accepted (l : Layers) : Prop where
  notReserved : unclassifiedTag ∉ l.names
  namesDistinct : l.names.Nodup
  sourcesDistinct : (l.rules.map Rule.source).Nodup
  known : ∀ rule ∈ l.rules, ∀ name ∈ rule.source :: rule.targets,
    name = unclassifiedTag ∨ name ∈ l.names

theorem ruleFault?_eq_none_iff {known sources : List String} {rules : List Rule} :
    ruleFault? known sources rules = none ↔
      (rules.map Rule.source).Nodup ∧ (∀ rule ∈ rules, rule.source ∉ sources) ∧
        ∀ rule ∈ rules, ∀ name ∈ rule.source :: rule.targets, name ∈ known := by
  -- On the rules, whatever sources were seen before; each step adds one.
  induction rules generalizing sources with
  | nil => simp [ruleFault?]
  | cons rule rest ih =>
    rw [ruleFault?]
    by_cases hs : rule.source ∈ sources
    · rw [if_pos hs]
      simp [hs]
    · rw [if_neg hs]
      cases hf : (rule.source :: rule.targets).find? (· ∉ known) with
      | some name =>
        have hbad : name ∉ known := by simpa using List.find?_some hf
        have hmem := List.mem_of_find?_eq_some hf
        constructor
        · intro h
          cases h
        · rintro ⟨-, -, hknown⟩
          exact absurd (hknown rule (List.mem_cons_self ..) name hmem) hbad
      | none =>
        have hgood : ∀ name ∈ rule.source :: rule.targets, name ∈ known := by
          simpa using List.find?_eq_none.1 hf
        rw [ih, List.map_cons, List.nodup_cons]
        -- No later rule has the source of the head just if the source of the head does not recur.
        constructor
        · rintro ⟨hnodup, hfresh, hknown⟩
          refine ⟨⟨?_, hnodup⟩, ?_, ?_⟩
          · intro hmem
            obtain ⟨other, hother, he⟩ := List.mem_map.1 hmem
            exact hfresh other hother (he ▸ List.mem_cons_self ..)
          · intro other hother
            rcases List.mem_cons.1 hother with rfl | hother
            · exact hs
            · exact fun h => hfresh other hother (List.mem_cons_of_mem _ h)
          · intro other hother
            rcases List.mem_cons.1 hother with rfl | hother
            · exact hgood
            · exact hknown other hother
        · rintro ⟨⟨hnotin, hnodup⟩, hfresh, hknown⟩
          refine ⟨hnodup, ?_, fun other hother => hknown other (List.mem_cons_of_mem _ hother)⟩
          intro other hother h
          rcases List.mem_cons.1 h with he | h
          · exact hnotin (he ▸ List.mem_map_of_mem hother)
          · exact hfresh other (List.mem_cons_of_mem _ hother) h

theorem fault?_eq_none_iff : l.fault? = none ↔ l.Accepted := by
  rw [fault?, Option.or_eq_none_iff, nameFault?_eq_none_iff, ruleFault?_eq_none_iff]
  constructor
  · rintro ⟨⟨hreserved, hnames, -⟩, hsources, -, hknown⟩
    exact ⟨hreserved, hnames, hsources, fun rule hrule name hname =>
      List.mem_cons.1 (hknown rule hrule name hname)⟩
  · intro h
    refine ⟨⟨h.notReserved, h.namesDistinct, by simp⟩, h.sourcesDistinct, by simp, ?_⟩
    exact fun rule hrule name hname => List.mem_cons.2 (h.known rule hrule name hname)

/-- Every document that the schema takes describes accepted layers. -/
theorem accepted_of_schema {document : Value} (h : Config.layersSchema document = .valid l) :
    l.Accepted := by
  rw [Config.layersSchema, Schema.Checked.obeying_eq_valid_iff] at h
  exact fault?_eq_none_iff.1 (Option.map_eq_none_iff.1 h.2)

/-! ## The matrix -/

/-- With one rule a layer, the last rule of a layer is its only one. -/
theorem permits_iff (h : l.Accepted) :
    l.permits a b = true ↔ ∃ rule ∈ l.rules, rule.source = a ∧ b ∈ rule.targets := by
  rw [permits, allowed, List.contains_iff_mem]
  cases hf : l.rules.reverse.find? (·.source = a) with
  | none =>
    have hnone : ∀ rule ∈ l.rules, rule.source ≠ a := by simpa using hf
    simp only [List.not_mem_nil, false_iff]
    rintro ⟨rule, hrule, hsource, -⟩
    exact hnone rule hrule hsource
  | some rule =>
    have hrule : rule ∈ l.rules := List.mem_reverse.1 (List.mem_of_find?_eq_some hf)
    have hsource : rule.source = a := by simpa using List.find?_some hf
    constructor
    · intro hb
      exact ⟨rule, hrule, hsource, hb⟩
    · rintro ⟨other, hother, hsame, hb⟩
      have he : other = rule :=
        List.inj_on_of_nodup_map h.sourcesDistinct hother hrule (hsame.trans hsource.symm)
      exact he ▸ hb

/-! ## Classification -/

/-- Some layer claims the path. -/
def Covers (l : Layers) (path : String) : Prop :=
  ∃ layer ∈ l.layers, ∃ glob ∈ layer.globs, (Pattern.Wildcard.ofString glob).accepts path = true

theorem classify_mem_names_or (l : Layers) (path : String) :
    l.classify path ∈ l.names ∨ l.classify path = unclassifiedTag := by
  rw [classify]
  cases hf : l.layers.find? fun layer => Pattern.anyMatches layer.globs path with
  | none => exact .inr rfl
  | some layer => exact .inl (List.mem_map_of_mem (List.mem_of_find?_eq_some hf))

/-- The reserved name is the tag of just those paths that no layer claims. -/
theorem classify_eq_unclassifiedTag_iff (h : l.Accepted) :
    l.classify path = unclassifiedTag ↔ ¬ l.Covers path := by
  rw [classify]
  cases hf : l.layers.find? fun layer => Pattern.anyMatches layer.globs path with
  | none =>
    have hnone : ∀ layer ∈ l.layers, ¬ Pattern.anyMatches layer.globs path = true := by
      simpa using hf
    simp only [true_iff]
    rintro ⟨layer, hlayer, glob, hglob, hmatch⟩
    exact hnone layer hlayer (List.any_eq_true.2 ⟨glob, hglob, hmatch⟩)
  | some layer =>
    have hlayer := List.mem_of_find?_eq_some hf
    have hmatch := List.find?_some hf
    constructor
    · -- The tag is the name of a layer, which the reserved name is not.
      intro hname
      exact absurd (hname ▸ List.mem_map_of_mem hlayer) h.notReserved
    · intro hcovers
      exact absurd ⟨layer, hlayer, List.any_eq_true.1 hmatch⟩ hcovers

end Layers

end LayerGate
