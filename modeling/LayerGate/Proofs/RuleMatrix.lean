import Mathlib.Data.Finmap
import LayerGate.Proofs.LayerDocuments

/-!
# The matrix of accepted rules

What an accepted configuration allows.  Its matrix has an entry for every layer and one for the files
in no layer, as if each rule had overwritten what was there for its source, and neither the order of
the rules nor the order and the repetition of their targets shows in it.
-/

namespace LayerGate

namespace Layers

variable {l : Layers} {a b key name : String} {rules rules' : List Rule} {allowed : List String}

/-! ## Overwriting -/

/-- Every layer and the tag of unclassified files with nothing to depend on, overwritten rule by
rule. -/
def overwritten (l : Layers) : Finmap fun _ : String => List String :=
  l.rules.foldl (fun table rule => table.insert rule.source rule.targets)
    ((l.names ++ [unclassifiedTag]).foldl (fun table name => table.insert name []) ∅)

theorem lookup_foldl_insert_rules (rules : List Rule) (table : Finmap fun _ : String => List String) :
    (rules.foldl (fun table rule => table.insert rule.source rule.targets) table).lookup key =
      ((rules.reverse.find? (·.source = key)).map Rule.targets).or (table.lookup key) := by
  -- A later rule with the key stands in front of this one in the reversed list.
  induction rules generalizing table with
  | nil => rfl
  | cons rule rest ih =>
    rw [List.foldl_cons, ih, List.reverse_cons, List.find?_append, Option.map_or, Option.or_assoc]
    congr 1
    by_cases h : rule.source = key
    · rw [← h, Finmap.lookup_insert]
      simp
    · rw [Finmap.lookup_insert_of_ne table (Ne.symm h)]
      simp [h]

theorem lookup_foldl_insert_names (names : List String)
    (table : Finmap fun _ : String => List String) :
    (names.foldl (fun table name => table.insert name []) table).lookup key =
      if key ∈ names then some [] else table.lookup key := by
  induction names generalizing table with
  | nil => rfl
  | cons name rest ih =>
    rw [List.foldl_cons, ih]
    by_cases hrest : key ∈ rest
    · rw [if_pos hrest, if_pos (List.mem_cons_of_mem _ hrest)]
    · rw [if_neg hrest]
      by_cases h : key = name
      · rw [h, Finmap.lookup_insert, if_pos (List.mem_cons_self ..)]
      · rw [Finmap.lookup_insert_of_ne table h, if_neg (List.not_mem_cons_of_ne_of_not_mem h hrest)]

/-- What overwriting leaves for a key is what the rules allow it, whether they are accepted or not. -/
theorem lookup_overwritten (l : Layers) (key : String) :
    l.overwritten.lookup key =
      if (∃ rule ∈ l.rules, rule.source = key) ∨ key ∈ l.names ∨ key = unclassifiedTag then
        some (l.allowed key)
      else none := by
  rw [overwritten, lookup_foldl_insert_rules, lookup_foldl_insert_names, Finmap.lookup_empty,
    Layers.allowed]
  cases hf : l.rules.reverse.find? (·.source = key) with
  | some rule =>
    have hrule : rule ∈ l.rules := List.mem_reverse.1 (List.mem_of_find?_eq_some hf)
    have hsource : rule.source = key := by simpa using List.find?_some hf
    have hkey : (∃ rule ∈ l.rules, rule.source = key) ∨ key ∈ l.names ∨ key = unclassifiedTag :=
      .inl ⟨rule, hrule, hsource⟩
    rw [if_pos hkey]
    rfl
  | none =>
    have hnone : ¬ ∃ rule ∈ l.rules, rule.source = key := by simpa using hf
    simp [hnone]

/-- The matrix has an entry for every layer and for the tag, each with what it is allowed. -/
theorem mem_matrix_iff {entry : String × List String} :
    entry ∈ l.matrix ↔ (entry.1 = unclassifiedTag ∨ entry.1 ∈ l.names) ∧
      sortedDistinct (l.allowed entry.1) = entry.2 := by
  rw [matrix, List.mem_map]
  constructor
  · rintro ⟨name, hname, rfl⟩
    exact ⟨List.mem_cons.1 (mem_sortedDistinct.1 hname), rfl⟩
  · rintro ⟨hname, hallowed⟩
    exact ⟨entry.1, mem_sortedDistinct.2 (List.mem_cons.2 hname), Prod.ext rfl hallowed⟩

theorem keys_matrix (l : Layers) :
    l.matrix.map (·.1) = sortedDistinct (unclassifiedTag :: l.names) := by
  rw [matrix, List.map_map]
  exact List.map_id _

/-! ## Accepted rules -/

section

variable (h : l.Accepted)
include h

theorem Accepted.mem_allowed_iff :
    b ∈ l.allowed a ↔ ∃ rule ∈ l.rules, rule.source = a ∧ b ∈ rule.targets := by
  rw [← permits_iff h, permits, List.contains_iff_mem]

/-- Every rule speaks of keys of the matrix only. -/
theorem Accepted.known_of_allowed (hb : b ∈ l.allowed a) : b = unclassifiedTag ∨ b ∈ l.names := by
  obtain ⟨rule, hrule, -, htarget⟩ := h.mem_allowed_iff.1 hb
  exact h.known rule hrule b (List.mem_cons_of_mem _ htarget)

end

/-- The same rules in another order, each with the same targets in any order and number. -/
def SameRules (rules' rules : List Rule) : Prop :=
  ∃ ordered : List Rule, rules'.Perm ordered ∧
    List.Forall₂ (fun r' r => r'.source = r.source ∧ ∀ name, name ∈ r'.targets ↔ name ∈ r.targets)
      ordered rules

namespace SameRules

variable (h : SameRules rules' rules)
include h

theorem sources : (rules'.map Rule.source).Perm (rules.map Rule.source) := by
  obtain ⟨ordered, hperm, hsame⟩ := h
  have hsources : ordered.map Rule.source = rules.map Rule.source := by
    clear hperm
    induction hsame with
    | nil => rfl
    | cons hhead _ ih => rw [List.map_cons, List.map_cons, hhead.1, ih]
  exact hsources ▸ hperm.map _

theorem targets_iff (a b : String) :
    (∃ rule ∈ rules', rule.source = a ∧ b ∈ rule.targets) ↔
      ∃ rule ∈ rules, rule.source = a ∧ b ∈ rule.targets := by
  obtain ⟨ordered, hperm, hsame⟩ := h
  simp only [hperm.mem_iff]
  clear hperm
  induction hsame with
  | nil => rfl
  | cons hhead _ ih => simp only [List.exists_mem_cons_iff, hhead.1, hhead.2, ih]

end SameRules

/-- Rules that say the same are accepted alike. -/
theorem Accepted.of_sameRules (h : l.Accepted) (hsame : SameRules rules' l.rules) :
    ({ l with rules := rules' } : Layers).Accepted where
  notReserved := h.notReserved
  namesDistinct := h.namesDistinct
  sourcesDistinct := hsame.sources.nodup_iff.2 h.sourcesDistinct
  known rule hrule name hname := by
    rcases List.mem_cons.1 hname with rfl | htarget
    · obtain ⟨other, hother, hsource⟩ :=
        List.mem_map.1 (hsame.sources.mem_iff.1 (List.mem_map_of_mem hrule))
      exact h.known other hother rule.source (hsource ▸ List.mem_cons_self ..)
    · obtain ⟨other, hother, -, hmem⟩ :=
        (hsame.targets_iff rule.source name).1 ⟨rule, hrule, rfl, htarget⟩
      exact h.known other hother name (List.mem_cons_of_mem _ hmem)

theorem mem_allowed_of_sameRules (h : l.Accepted) (hsame : SameRules rules' l.rules) :
    b ∈ ({ l with rules := rules' } : Layers).allowed a ↔ b ∈ l.allowed a := by
  rw [(h.of_sameRules hsame).mem_allowed_iff, h.mem_allowed_iff]
  exact hsame.targets_iff a b

theorem permits_of_sameRules (h : l.Accepted) (hsame : SameRules rules' l.rules) :
    ({ l with rules := rules' } : Layers).permits = l.permits := by
  funext a b
  rw [Bool.eq_iff_iff, permits, permits, List.contains_iff_mem, List.contains_iff_mem]
  exact mem_allowed_of_sameRules h hsame

theorem matrix_of_sameRules (h : l.Accepted) (hsame : SameRules rules' l.rules) :
    ({ l with rules := rules' } : Layers).matrix = l.matrix := by
  apply List.map_congr_left
  intro name _
  exact Prod.ext rfl (sortedDistinct_congr fun _ => mem_allowed_of_sameRules h hsame)

/-- What the matrix of accepted layers and rules says. -/
structure MatrixExact (l : Layers) : Prop where
  /-- Its keys are the layers and the tag of unclassified files, -/
  keys : ∀ key, key ∈ l.matrix.map (·.1) ↔ key ∈ l.names ∨ key = unclassifiedTag
  /-- each of them once, -/
  keysDistinct : (l.matrix.map (·.1)).Nodup
  /-- and each has what is left for it when one rule after another overwrites what is there. -/
  entries : ∀ key allowed, (key, allowed) ∈ l.matrix ↔
    ∃ targets, l.overwritten.lookup key = some targets ∧ sortedDistinct targets = allowed
  /-- Only keys are allowed. -/
  allowedKnown : ∀ entry ∈ l.matrix, entry.2 ⊆ l.matrix.map (·.1)
  /-- One layer may depend on another just if a rule says so, -/
  permits : ∀ a b, l.permits a b = true ↔ ∃ rule ∈ l.rules, rule.source = a ∧ b ∈ rule.targets
  /-- which is what the matrix says, too. -/
  permitsEntry : ∀ a b, l.permits a b = true ↔ ∃ allowed, (a, allowed) ∈ l.matrix ∧ b ∈ allowed
  /-- How the rules are put makes no difference. -/
  reordered : ∀ rules', SameRules rules' l.rules →
    ({ l with rules := rules' } : Layers).Accepted ∧
      ({ l with rules := rules' } : Layers).matrix = l.matrix ∧
        ({ l with rules := rules' } : Layers).permits = l.permits

theorem Accepted.matrixExact (h : l.Accepted) : l.MatrixExact where
  keys key := by
    rw [keys_matrix, mem_sortedDistinct, List.mem_cons, or_comm]
  keysDistinct := by
    rw [keys_matrix]
    exact (strictlySorted_sortedDistinct _).nodup
  entries key allowed := by
    have hkey : ((∃ rule ∈ l.rules, rule.source = key) ∨ key ∈ l.names ∨ key = unclassifiedTag) ↔
        key = unclassifiedTag ∨ key ∈ l.names := by
      constructor
      · rintro (⟨rule, hrule, rfl⟩ | hname)
        · exact h.known rule hrule _ (List.mem_cons_self ..)
        · exact hname.symm
      · exact fun hname => .inr hname.symm
    rw [mem_matrix_iff, lookup_overwritten]
    simp only [hkey]
    split
    · rename_i hname
      simp [hname]
    · rename_i hname
      simp [hname]
  allowedKnown := by
    intro entry hentry b hb
    obtain ⟨-, hallowed⟩ := mem_matrix_iff.1 hentry
    rw [← hallowed, mem_sortedDistinct] at hb
    rw [keys_matrix, mem_sortedDistinct]
    exact List.mem_cons.2 (h.known_of_allowed hb)
  permits a b := permits_iff h
  permitsEntry a b := by
    rw [Layers.permits, List.contains_iff_mem]
    constructor
    · intro hb
      obtain ⟨rule, hrule, hsource, -⟩ := h.mem_allowed_iff.1 hb
      have hkey := h.known rule hrule a (hsource ▸ List.mem_cons_self ..)
      exact ⟨_, mem_matrix_iff.2 ⟨hkey, rfl⟩, mem_sortedDistinct.2 hb⟩
    · rintro ⟨allowed, hentry, hb⟩
      have hallowed : sortedDistinct (l.allowed a) = allowed := (mem_matrix_iff.1 hentry).2
      rwa [← hallowed, mem_sortedDistinct] at hb
  reordered rules' hsame :=
    ⟨h.of_sameRules hsame, matrix_of_sameRules h hsame, permits_of_sameRules h hsame⟩

end Layers

namespace Config

/-- Whatever layers and rules are given, with or without each, some document gives them, and each one
that does is accepted just if they are and then stands for them.  No other document is accepted, and
whatever is accepted has an exact matrix. -/
theorem layersSchema_exact :
    (∀ given : Given, (∃ fields, Spells fields given) ∧
      ∀ fields l, Spells fields given →
        (layersSchema (.table fields) = .valid l ↔ given.meaning = l ∧ l.Accepted)) ∧
    ∀ document l, layersSchema document = .valid l →
      (∃ fields given, document = .table fields ∧ Spells fields given ∧ given.meaning = l) ∧
        l.Accepted ∧ l.MatrixExact := by
  refine ⟨fun given => ⟨⟨_, spells_written given⟩, fun _ _ => layersSchema_eq_valid_iff_of_spells⟩,
    fun document l h => ?_⟩
  have haccepted := Layers.accepted_of_schema h
  exact ⟨spells_of_layersSchema h, haccepted, haccepted.matrixExact⟩

/-- Two layers, each with a rule, and nothing on unclassified files. -/
def coreAndEdge : Given :=
  ⟨some [⟨"core", ["a.py"]⟩, ⟨"edge", ["b.py"]⟩],
    some [⟨"edge", ["core", "edge"]⟩, ⟨"core", ["core"]⟩], none⟩

/-- The same rules, the other way round and with a target repeated. -/
def edgeAndCore : List Rule := [⟨"core", ["core", "core"]⟩, ⟨"edge", ["edge", "core", "edge"]⟩]

theorem layersSchema_exact_coreAndEdge :
    coreAndEdge.meaning.Accepted ∧ Spells coreAndEdge.written coreAndEdge ∧
      layersSchema (.table coreAndEdge.written) = .valid coreAndEdge.meaning ∧
        coreAndEdge.meaning.MatrixExact ∧ Layers.SameRules edgeAndCore coreAndEdge.meaning.rules ∧
          ({ coreAndEdge.meaning with rules := edgeAndCore } : Layers).matrix =
            coreAndEdge.meaning.matrix := by
  have haccepted : coreAndEdge.meaning.Accepted := Layers.fault?_eq_none_iff.1 (by decide)
  have hspells := spells_written coreAndEdge
  have hsame : Layers.SameRules edgeAndCore coreAndEdge.meaning.rules := by
    refine ⟨_, List.Perm.swap .., .cons ⟨rfl, fun name => ?_⟩ (.cons ⟨rfl, fun name => ?_⟩ .nil)⟩
    · grind
    · grind
  obtain ⟨hgiven, hdocuments⟩ := layersSchema_exact
  have hvalid := ((hgiven coreAndEdge).2 _ _ hspells).2 ⟨rfl, haccepted⟩
  obtain ⟨-, -, hexact⟩ := hdocuments _ _ hvalid
  exact ⟨haccepted, hspells, hvalid, hexact, hsame, (hexact.reordered _ hsame).2.1⟩

end Config

end LayerGate
