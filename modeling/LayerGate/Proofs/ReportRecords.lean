import LayerGate.Proofs.JoinedText
import LayerGate.Proofs.Judgement
import LayerGate.Proofs.KeptEntries

/-!
# The records of a report

Broken imports, violations and cycles share one merge.  In a graph whose findings can be told apart
no key is that of two different findings.  So the records stand for the first broken import of each
specifier, for the least of the violations between two files, and for each cycle.
-/

namespace LayerGate

/-- What tells the findings of a graph apart: no path is that of two nodes, no path and no specifier
of a broken import holds a NUL, and broken imports of one node with one specifier have one
candidate. -/
structure ModuleGraph.Distinguished (g : ModuleGraph) : Prop where
  paths : g.paths.Nodup
  plainPaths : ∀ n ∈ g.nodes, '\x00' ∉ n.path.toList
  plainSpecifiers : ∀ n ∈ g.nodes, ∀ b ∈ n.broken, '\x00' ∉ b.specifier.toList
  candidates : ∀ n ∈ g.nodes, ∀ b ∈ n.broken, ∀ c ∈ n.broken,
    b.specifier = c.specifier → b.candidate = c.candidate

/-- No path on the cycle holds a NUL. -/
def ImportCycle.Plain (c : ImportCycle) : Prop := ∀ p ∈ c.paths, '\x00' ∉ p.toList

variable {graph : ModuleGraph} {layers : Layers} {gate : Gate} {found violations : List Violation}
  {cycles : List ImportCycle}

theorem ModuleGraph.Distinguished.node_eq (h : graph.Distinguished) {m n : Node}
    (hm : m ∈ graph.nodes) (hn : n ∈ graph.nodes) (hpath : m.path = n.path) : m = n :=
  ModuleGraph.node_eq_of_path h.paths hm hn hpath

/-! ## Violations at one place -/

namespace Policy

/-- A target is absent from all findings with one reason or from none, so its text tells it. -/
theorem target_eq_of_text (h : violations? layers graph = some found) {v w : Violation}
    (hv : v ∈ found) (hw : w ∈ found) (hreason : v.reason = w.reason)
    (htext : v.targetPath.getD "" = w.targetPath.getD "") : v.targetPath = w.targetPath := by
  -- Files are found where they are denied, and imports with their reason where they are allowed.
  have hmixed : ∀ {x y : Violation} {n source target specifier},
      x.reason = y.reason → layers.unclassified = .deny → x = unclassifiedFile n →
        (y.reason = .unclassifiedModule → layers.unclassified = .allow) →
          y = importFinding source target specifier → False := by
    intro x y n source target specifier hxy hdeny hx hallow hy
    have hyreason : y.reason = .unclassifiedModule := by
      rw [← hxy, hx]
      rfl
    rw [hallow hyreason] at hdeny
    cases hdeny
  rcases origin_of_mem h hv with ⟨hdeny, n, -, hv⟩ | ⟨hallow, s, -, t, -, specifier, hv⟩
  · rcases origin_of_mem h hw with ⟨-, m, -, hw⟩ | ⟨hallow, s, -, t, -, specifier, hw⟩
    · rw [hv, hw]
      rfl
    · exact (hmixed hreason hdeny hv hallow hw).elim
  · rcases origin_of_mem h hw with ⟨hdeny, m, -, hw⟩ | ⟨-, s', -, t', -, specifier', hw⟩
    · exact (hmixed hreason.symm hdeny hw hallow hv).elim
    · rw [hv, hw] at htext ⊢
      exact congrArg some htext

/-- Where paths differ, a finding is known from its two files and its specifier. -/
theorem eq_of_place (hpaths : graph.paths.Nodup) (h : violations? layers graph = some found)
    {v w : Violation} (hv : v ∈ found) (hw : w ∈ found) (hsource : v.sourcePath = w.sourcePath)
    (htarget : v.targetPath = w.targetPath)
    (hspecifier : v.specifier.getD "" = w.specifier.getD "") : v = w := by
  rcases origin_of_mem h hv with ⟨-, n, hn, rfl⟩ | ⟨-, s, hs, t, ht, specifier, rfl⟩
  · rcases origin_of_mem h hw with ⟨-, m, hm, rfl⟩ | ⟨-, s', -, t', -, specifier', rfl⟩
    · rw [ModuleGraph.node_eq_of_path hpaths hn hm hsource]
    · cases htarget
  · rcases origin_of_mem h hw with ⟨-, m, -, rfl⟩ | ⟨-, s', hs', t', ht', specifier', rfl⟩
    · cases htarget
    · obtain rfl := ModuleGraph.node_eq_of_path hpaths hs hs' hsource
      obtain rfl := ModuleGraph.node_eq_of_path hpaths ht ht' (Option.some_inj.1 htarget)
      obtain rfl : specifier = specifier' := hspecifier
      rfl

end Policy

namespace Report

/-! ## Keys -/

/-- The violations of a graph and cycles of files without a NUL in their paths: what a report is made
of. -/
structure Reportable (layers : Layers) (g : ModuleGraph) (violations : List Violation)
    (cycles : List ImportCycle) : Prop where
  graph : g.Distinguished
  violations : ∃ found, Policy.violations? layers g = some found ∧ ∀ v ∈ violations, v ∈ found
  cycles : ∀ c ∈ cycles, c.Plain

/-- A violation has a reason of its own: none is taken for a broken import or a cycle. -/
theorem Reportable.reason_ne (h : Reportable layers graph violations cycles) {v : Violation}
    (hv : v ∈ violations) : v.reason ≠ .brokenImport ∧ v.reason ≠ .cycle := by
  obtain ⟨found, hfound, hsub⟩ := h.violations
  rcases Policy.reason_of_mem (Policy.inRange_of_violations? hfound) hfound (hsub v hv) with hr | hr
  · rw [hr]
    decide
  · rw [hr]
    decide

/-- The part of a key that tells findings of one source apart, where the target does not. -/
def extraOf (r : Record) : String :=
  match r.reason with
  | .brokenImport => nameOrNone r.targetPath ++ "\x00" ++ specifierText r
  | .cycle => "\x00".intercalate r.cycle
  | _ => ""

/-- The key of a record. -/
def keyOf (r : Record) : Key := ⟨r.reason, r.sourcePath, lastPart (extraOf r) r.targetPath⟩

/-- Every entry has the key of its record. -/
theorem key_of_mem_entries (h : Reportable layers graph violations cycles) {e : Entry}
    (he : e ∈ entries gate graph.nodes.toList violations cycles) : e.1 = keyOf e.2 := by
  simp only [entries, List.mem_append, List.mem_flatMap, List.mem_map] at he
  rcases he with (⟨n, -, b, -, rfl⟩ | ⟨v, hv, rfl⟩) | ⟨c, -, rfl⟩
  · rfl
  · obtain ⟨hbroken, hcycle⟩ := h.reason_ne hv
    have hextra : extraOf (violationEntry gate v).2 = "" := by
      unfold extraOf
      split
      · rename_i hr
        exact absurd hr hbroken
      · rename_i hr
        exact absurd hr hcycle
      · rfl
    rw [keyOf, hextra]
    rfl
  · rfl

theorem lastPart_of_ne {extra : String} (h : extra ≠ "") (target : Option String) :
    lastPart extra target = some extra := if_neg h

/-- The key of a broken import tells its node and its specifier. -/
theorem brokenEntry_key_inj (hgraph : graph.Distinguished) {m n : Node} {b c : BrokenImport}
    (hm : m ∈ graph.nodes) (hn : n ∈ graph.nodes) (hb : b ∈ m.broken) (hc : c ∈ n.broken)
    (hkey : (brokenEntry gate m b).1 = (brokenEntry gate n c).1) :
    m = n ∧ b.specifier = c.specifier := by
  have hnul : ∀ (name : Option String) (s : String), nameOrNone name ++ "\x00" ++ s ≠ "" := by
    intro name s he
    have hlist := congrArg String.toList he
    simp at hlist
  have hpath : m.path = n.path := congrArg Key.source hkey
  have hlast := congrArg Key.last hkey
  simp only [brokenEntry] at hlast
  rw [lastPart_of_ne (hnul _ _), lastPart_of_ne (hnul _ _), Option.some_inj] at hlast
  -- The specifier is what stands behind the last NUL.
  have hchars := congrArg String.toList hlast
  simp only [String.toList_append, List.append_assoc] at hchars
  have htail : b.specifier.toList = c.specifier.toList :=
    Text.eq_of_append_cons_eq (hgraph.plainSpecifiers m hm b hb) (hgraph.plainSpecifiers n hn c hc)
      hchars
  exact ⟨hgraph.node_eq hm hn hpath, String.toList_inj.1 htail⟩

theorem lastPart_cycle (c : ImportCycle) :
    lastPart ("\x00".intercalate c.paths) (some c.second) =
      some ("\x00".intercalate c.paths) := by
  by_cases he : "\x00".intercalate c.paths = ""
  · -- Only the cycle of one file without a name has no text, and its target has none either.
    obtain ⟨first, rest⟩ := c
    cases rest with
    | nil =>
      have hfirst : first = "" := by simpa [ImportCycle.paths] using he
      rw [hfirst]
      rfl
    | cons second rest =>
      have hlist := congrArg String.toList he
      simp [ImportCycle.paths, String.intercalate_cons_cons] at hlist
  · exact lastPart_of_ne he _

/-- The key of a cycle tells its files. -/
theorem cycleEntry_key_inj {c d : ImportCycle} (hc : c.Plain) (hd : d.Plain)
    (hkey : (cycleEntry gate c).1 = (cycleEntry gate d).1) : c = d := by
  have hlast := congrArg Key.last hkey
  simp only [cycleEntry] at hlast
  rw [lastPart_cycle, lastPart_cycle, Option.some_inj] at hlast
  have hpaths : c.paths = d.paths :=
    Text.intercalate_inj (by rfl) (List.cons_ne_nil _ _) (List.cons_ne_nil _ _) hc hd hlast
  obtain ⟨hfirst, hrest⟩ := List.cons.inj hpaths
  cases c
  cases d
  simp_all

/-! ## What the records stand for -/

/-- No violation with its reason between its two files has a smaller specifier. -/
def Foremost (violations : List Violation) (v : Violation) : Prop :=
  v ∈ violations ∧ ∀ w ∈ violations, w.reason = v.reason → w.sourcePath = v.sourcePath →
    w.targetPath = v.targetPath → v.specifier.getD "" ≤ w.specifier.getD ""

/-- Which violations are foremost depends on which there are. -/
theorem foremost_congr {fed : List Violation} (h : ∀ v, v ∈ fed ↔ v ∈ violations) {v : Violation} :
    Foremost fed v ↔ Foremost violations v := by
  simp only [Foremost, h]

/-- A violation that does not stand behind the foremost one between the same files is that one. -/
theorem Foremost.eq_of_le (hpaths : graph.paths.Nodup)
    (hfound : Policy.violations? layers graph = some found) (hsub : ∀ v ∈ violations, v ∈ found)
    {v w : Violation} (hv : Foremost violations v) (hw : w ∈ violations)
    (hreason : w.reason = v.reason) (hsource : w.sourcePath = v.sourcePath)
    (htarget : w.targetPath = v.targetPath) (hle : w.specifier.getD "" ≤ v.specifier.getD "") :
    w = v :=
  Policy.eq_of_place hpaths hfound (hsub w hw) (hsub v hv.1) hsource htarget
    (String.le_antisymm hle (hv.2 w hw hreason hsource htarget))

/-- The record stands for a finding. -/
inductive Reported (gate : Gate) (nodes : List Node) (violations : List Violation)
    (cycles : List ImportCycle) : Record → Prop
  /-- The first broken import of the node with its specifier. -/
  | broken {n : Node} {b : BrokenImport} (hn : n ∈ nodes)
      (hb : n.broken.find? (·.specifier = b.specifier) = some b) :
      Reported gate nodes violations cycles (brokenEntry gate n b).2
  | violation {v : Violation} (hv : Foremost violations v) :
      Reported gate nodes violations cycles (violationEntry gate v).2
  | cycle {c : ImportCycle} (hc : c ∈ cycles) :
      Reported gate nodes violations cycles (cycleEntry gate c).2

/-- The first broken import of a specifier is kept. -/
theorem kept_brokenEntry (h : Reportable layers graph violations cycles) {n : Node}
    {b : BrokenImport} (hn : n ∈ graph.nodes)
    (hb : n.broken.find? (·.specifier = b.specifier) = some b) :
    Kept (entries gate graph.nodes.toList violations cycles) (brokenEntry gate n b) := by
  obtain ⟨-, broken, laterBroken, hbroken, hearlier⟩ := List.find?_eq_some_iff_append.1 hb
  obtain ⟨nodes, laterNodes, hnodes⟩ := List.append_of_mem (Array.mem_toList_iff.2 hn)
  have hbmem : b ∈ n.broken := List.mem_of_find?_eq_some hb
  -- Before it stand the entries of earlier nodes and of earlier broken imports of the node.
  refine ⟨nodes.flatMap (fun m => m.broken.map (brokenEntry gate m)) ++
      broken.map (brokenEntry gate n),
    laterBroken.map (brokenEntry gate n) ++
      laterNodes.flatMap (fun m => m.broken.map (brokenEntry gate m)) ++
        violations.map (violationEntry gate) ++ cycles.map (cycleEntry gate), ?_, ?_, ?_⟩
  · simp [entries, hnodes, hbroken]
  · intro y hy hkey
    exfalso
    rcases List.mem_append.1 hy with hy | hy
    · obtain ⟨m, hm, c, hc, rfl⟩ : ∃ m ∈ nodes, ∃ c ∈ m.broken, brokenEntry gate m c = y := by
        simpa using hy
      have hmem : m ∈ graph.nodes.toList := by
        rw [hnodes]
        exact List.mem_append_left _ hm
      obtain ⟨rfl, -⟩ :=
        brokenEntry_key_inj h.graph (Array.mem_toList_iff.1 hmem) hn hc hbmem hkey
      -- The node would stand among the nodes twice.
      have hnodup : graph.nodes.toList.Nodup := h.graph.paths.of_map Node.path
      rw [hnodes, List.nodup_append] at hnodup
      exact hnodup.2.2 m hm m (List.mem_cons_self ..) rfl
    · obtain ⟨c, hc, rfl⟩ := List.mem_map.1 hy
      have hcmem : c ∈ n.broken := by
        rw [hbroken]
        exact List.mem_append_left _ hc
      obtain ⟨-, hspecifier⟩ := brokenEntry_key_inj h.graph hn hn hcmem hbmem hkey
      have hnot := hearlier c hc
      simp [hspecifier] at hnot
  · intro y hy hkey
    have hreason : y.2.reason = .brokenImport := by
      have hmem : y ∈ entries gate graph.nodes.toList violations cycles := by
        simp only [entries, hnodes, hbroken, List.flatMap_append, List.flatMap_cons,
          List.map_append, List.map_cons, List.mem_append, List.mem_cons] at hy ⊢
        tauto
      rw [← entries_keys gate _ _ _ y hmem, hkey]
      rfl
    simp only [List.mem_append, List.mem_map, List.mem_flatMap] at hy
    rcases hy with ((⟨c, hc, rfl⟩ | ⟨m, hm, c, hc, rfl⟩) | ⟨v, hv, rfl⟩) | ⟨c, hc, rfl⟩
    · have hcmem : c ∈ n.broken := by
        rw [hbroken]
        exact List.mem_append_right _ (List.mem_cons_of_mem _ hc)
      obtain ⟨-, hspecifier⟩ := brokenEntry_key_inj h.graph hn hn hcmem hbmem hkey
      show b.specifier ≤ c.specifier
      exact hspecifier ▸ String.le_refl _
    · have hmem : m ∈ graph.nodes.toList := by
        rw [hnodes]
        exact List.mem_append_right _ (List.mem_cons_of_mem _ hm)
      obtain ⟨-, hspecifier⟩ :=
        brokenEntry_key_inj h.graph (Array.mem_toList_iff.1 hmem) hn hc hbmem hkey
      show b.specifier ≤ c.specifier
      exact hspecifier ▸ String.le_refl _
    · exact absurd hreason (h.reason_ne hv).1
    · cases hreason

theorem mem_entries_iff {e : Entry} :
    e ∈ entries gate graph.nodes.toList violations cycles ↔
      (∃ n ∈ graph.nodes, ∃ b ∈ n.broken, brokenEntry gate n b = e) ∨
        (∃ v ∈ violations, violationEntry gate v = e) ∨ ∃ c ∈ cycles, cycleEntry gate c = e := by
  simp [entries]

/-- A broken import is answered for by the first one with its specifier. -/
theorem exists_first_broken {n : Node} {b : BrokenImport} (hb : b ∈ n.broken) :
    ∃ c ∈ n.broken, c.specifier = b.specifier ∧
      n.broken.find? (·.specifier = c.specifier) = some c := by
  have hsome : (n.broken.find? (·.specifier = b.specifier)).isSome = true :=
    List.find?_isSome.2 ⟨b, hb, by simp⟩
  obtain ⟨c, hc⟩ := Option.isSome_iff_exists.1 hsome
  have hspecifier : c.specifier = b.specifier := by simpa using List.find?_some hc
  exact ⟨c, List.mem_of_find?_eq_some hc, hspecifier, by rw [hspecifier]; exact hc⟩

/-- What is kept of the entries stands for a finding. -/
theorem reported_of_kept (h : Reportable layers graph violations cycles) {e : Entry}
    (he : Kept (entries gate graph.nodes.toList violations cycles) e) :
    Reported gate graph.nodes.toList violations cycles e.2 := by
  rcases mem_entries_iff.1 he.mem with ⟨n, hn, b, hb, rfl⟩ | ⟨v, hv, rfl⟩ | ⟨c, hc, rfl⟩
  · -- The first broken import with this specifier has the same key, and it is the one that is kept.
    obtain ⟨c, hc, hspecifier, hfirst⟩ := exists_first_broken hb
    have hkey : (brokenEntry gate n c).1 = (brokenEntry gate n b).1 := by
      simp only [brokenEntry, hspecifier, h.graph.candidates n hn c hc b hb hspecifier]
    rw [← (kept_brokenEntry h hn hfirst).eq_of_key he hkey]
    exact .broken (Array.mem_toList_iff.2 hn) hfirst
  · refine .violation ⟨hv, fun w hw hreason hsource htarget => ?_⟩
    have hmem : violationEntry gate w ∈ entries gate graph.nodes.toList violations cycles :=
      mem_entries_iff.2 (.inr (.inl ⟨w, hw, rfl⟩))
    have hkey : (violationEntry gate w).1 = (violationEntry gate v).1 := by
      simp only [violationEntry, hreason, hsource, htarget]
    exact he.least hmem hkey
  · exact .cycle hc

/-- Whatever stands for a finding is kept. -/
theorem kept_of_reported (h : Reportable layers graph violations cycles) {r : Record}
    (hr : Reported gate graph.nodes.toList violations cycles r) :
    ∃ e, Kept (entries gate graph.nodes.toList violations cycles) e ∧ e.2 = r := by
  obtain ⟨found, hfound, hsub⟩ := h.violations
  cases hr with
  | broken hn hb => exact ⟨_, kept_brokenEntry h (Array.mem_toList_iff.1 hn) hb, rfl⟩
  | @violation v hv =>
    have hmem : violationEntry gate v ∈ entries gate graph.nodes.toList violations cycles :=
      mem_entries_iff.2 (.inr (.inl ⟨v, hv.1, rfl⟩))
    obtain ⟨e, he, hkey⟩ := exists_kept hmem
    refine ⟨e, he, ?_⟩
    have hreason : e.2.reason = v.reason := by
      rw [← entries_keys gate _ _ _ e he.mem, hkey]
      rfl
    -- What is kept in place of the violation is a violation between the same files.
    rcases mem_entries_iff.1 he.mem with ⟨n, -, b, -, rfl⟩ | ⟨w, hw, rfl⟩ | ⟨c, -, rfl⟩
    · exact absurd hreason.symm (h.reason_ne hv.1).1
    · have hsource : w.sourcePath = v.sourcePath := congrArg Key.source hkey
      have htarget : w.targetPath = v.targetPath := congrArg Key.last hkey
      have hle : w.specifier.getD "" ≤ v.specifier.getD "" := he.least hmem hkey.symm
      rw [hv.eq_of_le h.graph.paths hfound hsub hw hreason hsource htarget hle]
    · exact absurd hreason.symm (h.reason_ne hv.1).2
  | @cycle c hc =>
    have hmem : cycleEntry gate c ∈ entries gate graph.nodes.toList violations cycles :=
      mem_entries_iff.2 (.inr (.inr ⟨c, hc, rfl⟩))
    obtain ⟨e, he, hkey⟩ := exists_kept hmem
    refine ⟨e, he, ?_⟩
    have hreason : e.2.reason = .cycle := by
      rw [← entries_keys gate _ _ _ e he.mem, hkey]
      rfl
    rcases mem_entries_iff.1 he.mem with ⟨n, -, b, -, rfl⟩ | ⟨w, hw, rfl⟩ | ⟨d, hd, rfl⟩
    · cases hreason
    · exact absurd hreason (h.reason_ne hw).2
    · rw [cycleEntry_key_inj (h.cycles d hd) (h.cycles c hc) hkey]

/-- The merged records are just those that stand for a finding. -/
theorem mem_merge_entries_iff (h : Reportable layers graph violations cycles) {r : Record} :
    r ∈ merge (entries gate graph.nodes.toList violations cycles) ↔
      Reported gate graph.nodes.toList violations cycles r := by
  rw [merge_eq_map, List.mem_map]
  constructor
  · rintro ⟨e, he, rfl⟩
    exact reported_of_kept h (mem_merged_iff.1 he)
  · intro hr
    obtain ⟨e, he, rfl⟩ := kept_of_reported h hr
    exact ⟨e, mem_merged_iff.2 he, rfl⟩

/-- No record stands among the merged ones twice, for its key does not. -/
theorem nodup_merge_entries (h : Reportable layers graph violations cycles) :
    (merge (entries gate graph.nodes.toList violations cycles)).Nodup := by
  have hkeys := nodup_keys_merged (entries gate graph.nodes.toList violations cycles)
  have hmap : (merged (entries gate graph.nodes.toList violations cycles)).map (·.1) =
      (merge (entries gate graph.nodes.toList violations cycles)).map keyOf := by
    rw [merge_eq_map, List.map_map]
    apply List.map_congr_left
    intro e he
    exact key_of_mem_entries h (mem_merged_iff.1 he).mem
  rw [hmap] at hkeys
  exact hkeys.of_map keyOf

end Report

end LayerGate
