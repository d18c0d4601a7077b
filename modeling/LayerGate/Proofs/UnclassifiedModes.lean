import Mathlib.Data.List.Nodup
import LayerGate.Proofs.Judgement

/-!
# The three answers to unclassified files

Whether files that no layer claims are denied, allowed or ignored changes nothing about the imports
between classified files.  To ignore them leaves just the broken boundaries among those; to deny them
adds one finding for each such file, and to allow them adds the imports from or to such a file that the
rules do not permit.
-/

namespace LayerGate

/-- The same layers and rules with another answer to unclassified files. -/
def Layers.under (l : Layers) (mode : Unclassified) : Layers := { l with unclassified := mode }

namespace ModuleGraph

/-- Every node has a tag that is not empty. -/
def HasTags (g : ModuleGraph) : Prop := ∀ n ∈ g.nodes, ∃ tag, n.layer = some tag ∧ tag ≠ ""

/-- An edge leads from `source` to `target` under this specifier. -/
def Imports (g : ModuleGraph) (source target : Node) (specifier : String) : Prop :=
  ∃ e ∈ g.edges, g.nodes[e.source]? = some source ∧ g.nodes[e.target]? = some target ∧
    e.specifier = specifier

variable {g : ModuleGraph} {source target : Node} {specifier : String}

theorem Imports.source_mem (h : g.Imports source target specifier) : source ∈ g.nodes := by
  obtain ⟨e, -, hs, -, -⟩ := h
  exact Array.mem_of_getElem? hs

theorem Imports.target_mem (h : g.Imports source target specifier) : target ∈ g.nodes := by
  obtain ⟨e, -, -, ht, -⟩ := h
  exact Array.mem_of_getElem? ht

end ModuleGraph

namespace Policy

open ModuleGraph

variable {l : Layers} {g : ModuleGraph} {mode : Unclassified} {v : Violation}
  {found deny allow ignore : List Violation}

/-! ## One run -/

/-- One end of the import is in no layer. -/
def Touches (source target : Node) : Prop :=
  layerOf source = unclassifiedTag ∨ layerOf target = unclassifiedTag

instance (source target : Node) : Decidable (Touches source target) :=
  inferInstanceAs (Decidable (_ ∨ _))

/-- The rules do not let the layer of `source` depend on that of `target`. -/
def Forbids (l : Layers) (source target : Node) : Prop := layerOf target ∉ l.allowed (layerOf source)

instance (l : Layers) (source target : Node) : Decidable (Forbids l source target) :=
  inferInstanceAs (Decidable (_ ∉ _))

/-- An import is a finding if the rules forbid it, unless it touches an unclassified file and such files
are not allowed. -/
theorem judge_eq_some_iff {source target : Node} {specifier : String} :
    judge l mode source target specifier = some v ↔
      Forbids l source target ∧ (Touches source target → mode = .allow) ∧
        v = importFinding source target specifier := by
  have hpermits : l.permits (layerOf source) (layerOf target) = true ↔
      ¬ Forbids l source target := by
    rw [Forbids, not_not]
    exact List.contains_iff_mem
  have hjudge : judge l mode source target specifier =
      if Touches source target ∧ mode ≠ .allow then none
      else if Forbids l source target then some (importFinding source target specifier) else none := by
    simp only [judge, importFinding, hpermits, ite_not, Bool.or_eq_true, decide_eq_true_eq, Touches]
    congr
  rw [hjudge]
  have hnone : ¬ none = some v := by simp
  by_cases hleft : Touches source target ∧ mode ≠ .allow
  · rw [if_pos hleft]
    exact iff_of_false hnone fun h => hleft.2 (h.2.1 hleft.1)
  · have hmode : Touches source target → mode = .allow := fun h => not_not.1 fun hne => hleft ⟨h, hne⟩
    rw [if_neg hleft]
    by_cases hforbids : Forbids l source target
    · rw [if_pos hforbids, Option.some_inj, eq_comm]
      exact ⟨fun h => ⟨hforbids, hmode, h⟩, fun h => h.2.2⟩
    · rw [if_neg hforbids]
      exact iff_of_false hnone fun h => hforbids h.1

/-- The findings about files, where these are denied, and about the imports that the rules forbid. -/
theorem mem_iff_imports (h : violations? l g = some found) :
    v ∈ found ↔ (l.unclassified = .deny ∧ v ∈ unclassifiedFiles g) ∨
      ∃ source target specifier, g.Imports source target specifier ∧ Forbids l source target ∧
        (Touches source target → l.unclassified = .allow) ∧
          v = importFinding source target specifier := by
  rw [mem_iff_of_violations? h]
  refine or_congr Iff.rfl ⟨?_, ?_⟩
  · rintro ⟨e, he, source, target, hs, ht, hjudge⟩
    exact ⟨source, target, e.specifier, ⟨e, he, hs, ht, rfl⟩, judge_eq_some_iff.1 hjudge⟩
  · rintro ⟨source, target, specifier, ⟨e, he, hs, ht, rfl⟩, hjudge⟩
    exact ⟨e, he, source, target, hs, ht, judge_eq_some_iff.2 hjudge⟩

/-- The same where every file has a tag that is not empty, which then is its layer. -/
theorem mem_iff_of_under (htags : g.HasTags) (h : violations? (l.under mode) g = some found) :
    v ∈ found ↔
      (mode = .deny ∧ ∃ n ∈ g.nodes, layerOf n = unclassifiedTag ∧ v = unclassifiedFile n) ∨
        ∃ source target specifier, g.Imports source target specifier ∧ Forbids l source target ∧
          (Touches source target → mode = .allow) ∧ v = importFinding source target specifier := by
  rw [mem_iff_imports h, mem_unclassifiedFiles]
  refine or_congr (and_congr_right fun _ => exists_congr fun n => and_congr_right fun hn => ?_) Iff.rfl
  obtain ⟨tag, htag, hne⟩ := htags n hn
  have hlayer : layerOf n = tag := by
    rw [layerOf, htag]
    split
    · rename_i hempty
      exact absurd (Option.some.inj hempty) hne
    · rename_i hnone
      cases hnone
    · rename_i heq
      exact (Option.some.inj heq).symm
  rw [htag, hlayer, Option.some_inj, eq_comm (a := v)]

theorem reason_importFinding {source target : Node} {specifier : String} :
    (importFinding source target specifier).reason = .layerBoundary ↔ ¬ Touches source target := by
  by_cases h : Touches source target
  · simp only [importFinding, if_pos (show _ ∨ _ from h), h, reduceCtorEq, not_true]
  · simp only [importFinding, if_neg (show ¬ (_ ∨ _) from h), h, not_false_eq_true]

/-! ## Every import once -/

/-- Which import a finding is about. -/
def importOf (v : Violation) : String × Option String × Option String :=
  (v.sourcePath, v.targetPath, v.specifier)

/-- Where files have distinct paths, findings about one import are one. -/
theorem importOf_inj (hpaths : g.paths.Nodup) {source target source' target' : Node}
    {specifier specifier' : String} (h : g.Imports source target specifier)
    (h' : g.Imports source' target' specifier')
    (heq : importOf (importFinding source target specifier) =
      importOf (importFinding source' target' specifier')) :
    importFinding source target specifier = importFinding source' target' specifier' := by
  simp only [importOf, importFinding, Prod.mk.injEq, Option.some.injEq] at heq
  obtain ⟨hsource, htarget, rfl⟩ := heq
  rw [node_eq_of_path hpaths h.source_mem h'.source_mem hsource,
    node_eq_of_path hpaths h.target_mem h'.target_mem htarget]

/-- Where unclassified files are not denied, no two findings are about one import. -/
theorem nodup_importOf (htags : g.HasTags) (hpaths : g.paths.Nodup) (hmode : mode ≠ .deny)
    (h : violations? (l.under mode) g = some found) : (found.map importOf).Nodup := by
  refine (strictlySorted_of_violations? h).nodup.map_on fun v hv v' hv' heq => ?_
  have hfrom : ∀ {v}, v ∈ found → ∃ source target specifier, g.Imports source target specifier ∧
      v = importFinding source target specifier := by
    intro v hv
    rcases (mem_iff_of_under htags h).1 hv with ⟨hdeny, -⟩ | ⟨source, target, specifier, hi, -, -, he⟩
    · exact absurd hdeny hmode
    · exact ⟨source, target, specifier, hi, he⟩
  obtain ⟨source, target, specifier, hi, rfl⟩ := hfrom hv
  obtain ⟨source', target', specifier', hi', rfl⟩ := hfrom hv'
  exact importOf_inj hpaths hi hi' heq

/-! ## The runs compared -/

/-- The files in no layer. -/
def strays (g : ModuleGraph) : List Node := g.nodes.toList.filter fun n => layerOf n = unclassifiedTag

/-- How the findings go together when unclassified files are denied, allowed and ignored. -/
structure Agree (l : Layers) (g : ModuleGraph) (deny allow ignore : List Violation) : Prop where
  /-- To ignore them leaves the forbidden imports between classified files, -/
  boundaries : ∀ v, v ∈ ignore ↔ ∃ source target specifier, g.Imports source target specifier ∧
    layerOf source ≠ unclassifiedTag ∧ layerOf target ≠ unclassifiedTag ∧
      layerOf target ∉ l.allowed (layerOf source) ∧
        v = ⟨.layerBoundary, source.path, some target.path, some specifier, layerOf source,
          some (layerOf target)⟩
  /-- each of them once, -/
  boundariesOnce : (ignore.map importOf).Nodup
  /-- and the other two answers find the same broken boundaries. -/
  boundariesOfDeny : (deny.filter fun v => v.reason = .layerBoundary) = ignore
  boundariesOfAllow : (allow.filter fun v => v.reason = .layerBoundary) = ignore
  /-- To deny them adds one finding for each of them. -/
  denied : deny.Perm (ignore ++ (strays g).map unclassifiedFile)
  /-- To allow them adds the forbidden imports that touch one of them, -/
  allowed : ∀ v, v ∈ allow ↔ v ∈ ignore ∨ ∃ source target specifier,
    g.Imports source target specifier ∧
      (layerOf source = unclassifiedTag ∨ layerOf target = unclassifiedTag) ∧
        layerOf target ∉ l.allowed (layerOf source) ∧
          v = ⟨.unclassifiedModule, source.path, some target.path, some specifier, layerOf source,
            some (layerOf target)⟩
  /-- each of them once. -/
  allowedOnce : (allow.map importOf).Nodup

/-- What is found where such files are ignored is the part that every answer finds. -/
theorem mem_ignore_iff (htags : g.HasTags) (hignore : violations? (l.under .ignore) g = some ignore) :
    v ∈ ignore ↔ ∃ source target specifier, g.Imports source target specifier ∧
      Forbids l source target ∧ ¬ Touches source target ∧
        v = importFinding source target specifier := by
  rw [mem_iff_of_under htags hignore]
  simp only [reduceCtorEq, false_and, false_or, imp_false]

/-- The broken boundaries do not depend on the answer. -/
theorem boundaries_eq (htags : g.HasTags) (h : violations? (l.under mode) g = some found)
    (hignore : violations? (l.under .ignore) g = some ignore) :
    (found.filter fun v => v.reason = .layerBoundary) = ignore := by
  have hsorted : StrictlySorted (found.filter fun v => v.reason = .layerBoundary) :=
    (strictlySorted_of_violations? h).filter _
  apply hsorted.eq_of_mem_iff (strictlySorted_of_violations? hignore)
  intro v
  rw [List.mem_filter, decide_eq_true_eq, mem_iff_of_under htags h, mem_ignore_iff htags hignore]
  constructor
  · rintro ⟨⟨-, n, -, -, rfl⟩ | ⟨source, target, specifier, hi, hforbids, -, rfl⟩, hreason⟩
    · cases hreason
    · exact ⟨source, target, specifier, hi, hforbids, reason_importFinding.1 hreason, rfl⟩
  · rintro ⟨source, target, specifier, hi, hforbids, htouches, rfl⟩
    exact ⟨.inr ⟨source, target, specifier, hi, hforbids, fun h => absurd h htouches, rfl⟩,
      reason_importFinding.2 htouches⟩

theorem mem_strays {n : Node} : n ∈ strays g ↔ n ∈ g.nodes ∧ layerOf n = unclassifiedTag := by
  simp [strays]

theorem nodup_strays (hpaths : g.paths.Nodup) : ((strays g).map unclassifiedFile).Nodup := by
  have hnodes : (strays g).Nodup := (List.Nodup.of_map _ hpaths).filter _
  refine hnodes.map_on fun m hm n hn heq => ?_
  exact node_eq_of_path hpaths (mem_strays.1 hm).1 (mem_strays.1 hn).1
    (congrArg Violation.sourcePath heq)

/-- Denied files are found besides the broken boundaries, each once. -/
theorem deny_perm (htags : g.HasTags) (hpaths : g.paths.Nodup)
    (hdeny : violations? (l.under .deny) g = some deny)
    (hignore : violations? (l.under .ignore) g = some ignore) :
    deny.Perm (ignore ++ (strays g).map unclassifiedFile) := by
  -- A finding about a file has no target, one about an import has.
  have hapart : ignore.Disjoint ((strays g).map unclassifiedFile) := by
    intro v hv hfile
    obtain ⟨source, target, specifier, -, -, -, rfl⟩ := (mem_ignore_iff htags hignore).1 hv
    obtain ⟨n, -, heq⟩ := List.mem_map.1 hfile
    cases congrArg Violation.targetPath heq
  have hnodup : (ignore ++ (strays g).map unclassifiedFile).Nodup :=
    (strictlySorted_of_violations? hignore).nodup.append (nodup_strays hpaths) hapart
  rw [List.perm_ext_iff_of_nodup (strictlySorted_of_violations? hdeny).nodup hnodup]
  intro v
  rw [mem_iff_of_under htags hdeny, List.mem_append, mem_ignore_iff htags hignore, or_comm]
  apply or_congr
  · simp only [reduceCtorEq, imp_false]
  · simp only [true_and, List.mem_map, mem_strays, and_assoc, eq_comm (a := v)]

theorem agree (htags : g.HasTags) (hpaths : g.paths.Nodup)
    (hdeny : violations? (l.under .deny) g = some deny)
    (hallow : violations? (l.under .allow) g = some allow)
    (hignore : violations? (l.under .ignore) g = some ignore) : Agree l g deny allow ignore where
  boundaries := by
    intro v
    rw [mem_ignore_iff htags hignore]
    constructor
    · rintro ⟨source, target, specifier, hi, hforbids, htouches, rfl⟩
      obtain ⟨hs, ht⟩ := not_or.1 htouches
      exact ⟨source, target, specifier, hi, hs, ht, hforbids,
        by rw [importFinding, if_neg (not_or.2 ⟨hs, ht⟩)]⟩
    · rintro ⟨source, target, specifier, hi, hs, ht, hforbids, rfl⟩
      exact ⟨source, target, specifier, hi, hforbids, not_or.2 ⟨hs, ht⟩,
        by rw [importFinding, if_neg (not_or.2 ⟨hs, ht⟩)]⟩
  boundariesOnce := nodup_importOf htags hpaths (by decide) hignore
  boundariesOfDeny := boundaries_eq htags hdeny hignore
  boundariesOfAllow := boundaries_eq htags hallow hignore
  denied := deny_perm htags hpaths hdeny hignore
  allowed := by
    intro v
    rw [mem_iff_of_under htags hallow, mem_ignore_iff htags hignore]
    constructor
    · rintro (⟨hmode, -⟩ | ⟨source, target, specifier, hi, hforbids, -, rfl⟩)
      · cases hmode
      · by_cases htouches : Touches source target
        · exact .inr ⟨source, target, specifier, hi, htouches, hforbids,
            by rw [importFinding, if_pos (show _ ∨ _ from htouches)]⟩
        · exact .inl ⟨source, target, specifier, hi, hforbids, htouches, rfl⟩
    · rintro (⟨source, target, specifier, hi, hforbids, -, rfl⟩ |
        ⟨source, target, specifier, hi, htouches, hforbids, rfl⟩)
      · exact .inr ⟨source, target, specifier, hi, hforbids, fun _ => rfl, rfl⟩
      · exact .inr ⟨source, target, specifier, hi, hforbids, fun _ => rfl,
          by rw [importFinding, if_pos htouches]⟩
  allowedOnce := nodup_importOf htags hpaths (by decide) hallow

/-! ## All graphs -/

/-- For any layers and rules and any graph with tags and distinct paths, the three answers to
unclassified files agree as said, and none of them looks at the order, the lines or the repetition of
edges.  Where an edge ends at no node there is no answer. -/
theorem answers_agree (l : Layers) (htags : g.HasTags) (hpaths : g.paths.Nodup) :
    (g.InRange → ∃ deny allow ignore, violations? (l.under .deny) g = some deny ∧
      violations? (l.under .allow) g = some allow ∧ violations? (l.under .ignore) g = some ignore ∧
        Agree l g deny allow ignore) ∧
    (¬ g.InRange → ∀ mode, violations? (l.under mode) g = none) ∧
    ∀ other, other.SameImports g →
      ∀ mode, violations? (l.under mode) other = violations? (l.under mode) g := by
  refine ⟨fun hrange => ?_, fun hrange mode => violations?_eq_none hrange,
    fun other hother mode => violations?_sameImports hother⟩
  obtain ⟨deny, hdeny, -⟩ := violations?_of_inRange (l.under .deny) hrange
  obtain ⟨allow, hallow, -⟩ := violations?_of_inRange (l.under .allow) hrange
  obtain ⟨ignore, hignore, -⟩ := violations?_of_inRange (l.under .ignore) hrange
  exact ⟨deny, allow, ignore, hdeny, hallow, hignore, agree htags hpaths hdeny hallow hignore⟩

/-- A domain file that imports an application file twice, and an application file that imports the
domain file and a file in no layer. -/
def mixed : ModuleGraph where
  nodes := #[⟨"domain/a.py", [], [], [], some "Domain"⟩,
    ⟨"application/b.py", [], [], [], some "Application"⟩, ⟨"x.py", [], [], [], some unclassifiedTag⟩]
  edges := [⟨0, 1, "application.b", 1⟩, ⟨0, 1, "application.b", 7⟩, ⟨1, 0, "domain.a", 1⟩,
    ⟨1, 2, "x", 2⟩]

theorem answers_agree_mixed :
    mixed.HasTags ∧ mixed.paths.Nodup ∧ mixed.InRange ∧ ∃ deny allow ignore,
      violations? (Layers.builtin.under .deny) mixed = some deny ∧
      violations? (Layers.builtin.under .allow) mixed = some allow ∧
      violations? (Layers.builtin.under .ignore) mixed = some ignore ∧
      Agree .builtin mixed deny allow ignore ∧ ignore ≠ [] ∧ deny.length = ignore.length + 1 ∧
      ∃ v ∈ allow, v.reason = .unclassifiedModule := by
  have htags : mixed.HasTags := by
    simp [HasTags, mixed, unclassifiedTag]
  have hpaths : mixed.paths.Nodup := by decide
  have hrange : mixed.InRange := by
    simp [InRange, mixed]
  obtain ⟨hanswers, -, -⟩ := answers_agree .builtin htags hpaths
  obtain ⟨deny, allow, ignore, hdeny, hallow, hignore, h⟩ := hanswers hrange
  have hboundary := (h.boundaries _).2 ⟨mixed.nodes[0], mixed.nodes[1], "application.b",
    ⟨_, List.mem_cons_self .., rfl, rfl, rfl⟩, by decide, by decide, by decide, rfl⟩
  have hstray := (h.allowed _).2 (.inr ⟨mixed.nodes[1], mixed.nodes[2], "x",
    ⟨⟨1, 2, "x", 2⟩, by decide, rfl, rfl, rfl⟩, by decide, by decide, rfl⟩)
  refine ⟨htags, hpaths, hrange, deny, allow, ignore, hdeny, hallow, hignore, h,
    List.ne_nil_of_mem hboundary, ?_, _, hstray, rfl⟩
  rw [h.denied.length_eq, List.length_append, List.length_map]
  rfl

end Policy

end LayerGate
