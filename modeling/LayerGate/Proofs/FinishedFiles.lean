import Mathlib.Data.List.Forall2
import Mathlib.Data.List.Nodup
import LayerGate.Proofs.GraphAccounting

/-!
# Files finished in any order

Files are finished one by one, each with its resolutions.  The graph of a project takes them in the
order of the list and keeps of each kind of edge the lowest line, so it depends neither on which file
was finished first nor on how often and in which order a file was resolved to the same.
-/

namespace LayerGate

namespace ModuleGraph

variable {files : List String} {imports imports' : String → FileImports} {file : String}
  {a b : String × FileImports} {results results' finished finished' : List (String × FileImports)}

/-! ## The order of the files -/

/-- What is found for a file, if all that was finished under its name is the same. -/
theorem lookup_eq_some {own : FileImports} (hmem : (file, own) ∈ finished)
    (honly : ∀ x ∈ finished, x.1 = file → x.2 = own) : finished.lookup file = some own := by
  induction finished with
  | nil => cases hmem
  | cons x rest ih =>
    obtain ⟨path, found⟩ := x
    by_cases hpath : file = path
    · subst hpath
      obtain rfl : found = own := honly _ (List.mem_cons_self ..) rfl
      exact List.lookup_cons_self
    · rw [List.lookup_cons, beq_eq_false_iff_ne.2 hpath]
      rcases List.mem_cons.1 hmem with heq | hmem
      · exact absurd (congrArg Prod.fst heq) hpath
      · exact ih hmem fun x hx => honly x (List.mem_cons_of_mem _ hx)

/-- The files are finished with these imports, each where it may be in the order. -/
def Finished (files : List String) (imports : String → FileImports)
    (finished : List (String × FileImports)) : Prop :=
  finished.Perm (files.map fun file => (file, imports file))

theorem Finished.lookup_eq (h : Finished files imports finished) (hfile : file ∈ files) :
    finished.lookup file = some (imports file) := by
  refine lookup_eq_some (h.mem_iff.2 (List.mem_map_of_mem hfile)) fun x hx hpath => ?_
  obtain ⟨file', -, rfl⟩ := List.mem_map.1 (h.mem_iff.1 hx)
  exact congrArg imports hpath

theorem Finished.inOrder_eq (h : Finished files imports finished) :
    inOrder files finished = files.map fun file => (file, imports file) := by
  rw [inOrder, ← List.filterMap_eq_map]
  refine List.filterMap_congr fun file hfile => ?_
  rw [h.lookup_eq hfile]
  rfl

/-- Results that stand in the order of their files stay as they are. -/
theorem inOrder_eq_self (hnodup : files.Nodup) (hpaths : results.map (·.1) = files) :
    inOrder files results = results := by
  have hfound : ∀ x ∈ results, (results.lookup x.1).map (x.1, ·) = some x := by
    intro x hx
    subst hpaths
    rw [lookup_eq_some hx fun y hy hpath => congrArg Prod.snd
      (List.inj_on_of_nodup_map hnodup hy hx hpath)]
    rfl
  rw [inOrder, ← hpaths, List.filterMap_map]
  exact (List.filterMap_congr hfound).trans (List.filterMap_some ..)

/-! ## The same answers -/

/-- The file is the same, and so is what its imports resolve to, in whatever order. -/
structure SameAnswers (a b : String × FileImports) : Prop where
  path : a.1 = b.1
  mem_iff : ∀ x, x ∈ a.2.resolutions ↔ x ∈ b.2.resolutions

theorem edgesFrom_congr {files : List String} {source : Nat}
    (h : List.Forall₂ SameAnswers results results') :
    edgesFrom files source results = edgesFrom files source results' := by
  induction h generalizing source with
  | nil => rfl
  | cons hab _ ih => rw [edgesFrom, edgesFrom, ih, hab.path, edgesOf_congr hab.mem_iff]

theorem edges_ofImports_congr (h : List.Forall₂ SameAnswers results results') :
    (ofImports results).edges = (ofImports results').edges := by
  have hpaths : results.map (·.1) = results'.map (·.1) := by
    induction h with
    | nil => rfl
    | cons hab _ ih => rw [List.map_cons, List.map_cons, hab.path, ih]
  show edgesFrom _ 0 results = edgesFrom _ 0 results'
  rw [hpaths, edgesFrom_congr h]

/-- The nodes agree in all that is made of resolutions. -/
structure SameResolved (n n' : Node) : Prop where
  path : n.path = n'.path
  ignored : n.ignored = n'.ignored
  broken : n.broken = n'.broken

theorem SameAnswers.nodeOf (h : SameAnswers a b) : SameResolved (nodeOf a.1 a.2) (nodeOf b.1 b.2) where
  path := h.path
  ignored := by
    apply sortedDistinct_congr
    simp only [List.mem_filterMap, h.mem_iff, implies_true]
  broken := by
    apply sortedDistinct_congr
    simp only [List.mem_filterMap, h.mem_iff, implies_true]

/-- The same specifiers, and the same resolutions in whatever order and number. -/
structure AlikeImports (a b : FileImports) : Prop where
  specifiers : a.specifiers = b.specifiers
  mem_iff : ∀ r, r ∈ a.resolutions ↔ r ∈ b.resolutions

theorem AlikeImports.nodeOf_eq (h : AlikeImports (imports file) (imports' file)) :
    nodeOf file (imports file) = nodeOf file (imports' file) := by
  have hsame : SameAnswers (file, imports file) (file, imports' file) := ⟨rfl, h.mem_iff⟩
  obtain ⟨-, hignored, hbroken⟩ := hsame.nodeOf
  simp only [nodeOf, Node.mk.injEq, true_and, and_true]
  exact ⟨h.specifiers, hignored, hbroken⟩

theorem ofImports_congr (h : ∀ file ∈ files, AlikeImports (imports file) (imports' file)) :
    ofImports (files.map fun file => (file, imports file)) =
      ofImports (files.map fun file => (file, imports' file)) := by
  have hanswers : List.Forall₂ SameAnswers (files.map fun file => (file, imports file))
      (files.map fun file => (file, imports' file)) := by
    rw [List.forall₂_map_left_iff, List.forall₂_map_right_iff, List.forall₂_same]
    exact fun file hfile => ⟨rfl, (h file hfile).mem_iff⟩
  have hedges := edges_ofImports_congr hanswers
  have hnodes : files.map (fun file => nodeOf file (imports file)) =
      files.map fun file => nodeOf file (imports' file) :=
    List.map_congr_left fun file hfile => (h file hfile).nodeOf_eq
  simp only [ofImports, ModuleGraph.mk.injEq, List.map_map, Function.comp_def] at hedges ⊢
  exact ⟨congrArg List.toArray hnodes, hedges⟩

/-! ## The same graph -/

/-- Broken imports of one specifier on one line have one candidate. -/
def OneCandidate (rs : List Resolution) : Prop :=
  ∀ r ∈ rs, ∀ r' ∈ rs, ∀ candidate candidate', r.outcome = .broken candidate →
    r'.outcome = .broken candidate' → r.specifier = r'.specifier → r.line = r'.line →
      candidate = candidate'

/-- Broken imports are sorted by specifier and line alone: it never comes to the candidates. -/
theorem pairwise_broken_nodeOf {own : FileImports} (h : OneCandidate own.resolutions) :
    (nodeOf file own).broken.Pairwise fun b b' =>
      (compare b.specifier b'.specifier).then (compare b.line b'.line) = .lt := by
  have hsorted : StrictlySorted (nodeOf file own).broken := strictlySorted_sortedDistinct _
  refine hsorted.imp_of_mem fun {b b'} hb hb' hlt => ?_
  change (compare b.specifier b'.specifier).then
    ((compare b.line b'.line).then (compare b.candidate b'.candidate)) = .lt at hlt
  rw [← Ordering.then_assoc] at hlt
  rcases Ordering.then_eq_lt.1 hlt with hlt | ⟨heq, hcandidate⟩
  · exact hlt
  · -- The same specifier on the same line would have two candidates.
    rw [Ordering.then_eq_eq, Std.LawfulEqOrd.compare_eq_iff_eq,
      Std.LawfulEqOrd.compare_eq_iff_eq] at heq
    obtain ⟨r, hr, hspecifier, hline, hbroken⟩ := mem_broken_nodeOf.1 hb
    obtain ⟨r', hr', hspecifier', hline', hbroken'⟩ := mem_broken_nodeOf.1 hb'
    rw [h r hr r' hr' _ _ hbroken hbroken' (hspecifier.trans (heq.1.trans hspecifier'.symm))
      (hline.trans (heq.2.trans hline'.symm)), Std.ReflOrd.compare_self] at hcandidate
    cases hcandidate

/-- If the imports of each file lead to files of the list only, and broken imports of one specifier on
one line have one candidate, every look-up on the way to the graph finds something, and nothing is
sorted by its candidate.  The graph is the same then, in its nodes, its edges and their lines, in
whatever order and number the resolutions of each file come, and in whatever order the files are
finished. -/
theorem ofFinished_ignores_order
    (hscanned : ∀ file ∈ files, ∀ r ∈ (imports file).resolutions, ∀ target,
      r.outcome = .internal target → target ∈ files)
    (hcandidate : ∀ file ∈ files, OneCandidate (imports file).resolutions)
    (hsame : ∀ file ∈ files, AlikeImports (imports file) (imports' file))
    (hfinished : Finished files imports finished) (hfinished' : Finished files imports' finished') :
    (∀ file ∈ files, finished'.lookup file = some (imports' file) ∧
      (∀ r ∈ (imports' file).resolutions, ∀ target, r.outcome = .internal target →
        ∃ i, files.idxOf? target = some i) ∧
      (nodeOf file (imports' file)).broken.Pairwise fun b b' =>
        (compare b.specifier b'.specifier).then (compare b.line b'.line) = .lt) ∧
      ofFinished files finished' = ofFinished files finished := by
  refine ⟨fun file hfile => ⟨hfinished'.lookup_eq hfile, fun r hr target htarget => ?_, ?_⟩, ?_⟩
  · have hmem := hscanned file hfile r (((hsame file hfile).mem_iff r).2 hr) target htarget
    rw [← Option.isSome_iff_exists, Option.isSome_iff_ne_none, Ne, List.idxOf?_eq_none_iff]
    exact not_not.2 hmem
  · rw [← (hsame file hfile).nodeOf_eq]
    exact pairwise_broken_nodeOf (hcandidate file hfile)
  · rw [ofFinished, ofFinished, hfinished.inOrder_eq, hfinished'.inOrder_eq, ofImports_congr hsame]

/-- Two imports of a file, on the third line and on the first, one that leads nowhere, and a package. -/
def twiceImports : String → FileImports
  | "a.py" => ⟨["b", ".c", "os"], [⟨"b", 3, .internal "b.py"⟩, ⟨"b", 1, .internal "b.py"⟩,
      ⟨".c", 2, .broken (some "c.py")⟩, ⟨"os", 4, .external none⟩]⟩
  | _ => ⟨[], []⟩

/-- The same resolutions the other way round, two of them repeated. -/
def againImports : String → FileImports
  | "a.py" => ⟨["b", ".c", "os"], [⟨"os", 4, .external none⟩, ⟨".c", 2, .broken (some "c.py")⟩,
      ⟨"b", 1, .internal "b.py"⟩, ⟨"b", 3, .internal "b.py"⟩, ⟨".c", 2, .broken (some "c.py")⟩,
      ⟨"b", 1, .internal "b.py"⟩]⟩
  | _ => ⟨[], []⟩

theorem ofFinished_ignores_order_twice :
    let files := ["a.py", "b.py"]
    let finished := files.map fun file => (file, twiceImports file)
    let finished' := files.reverse.map fun file => (file, againImports file)
    finished' ≠ finished ∧ ofFinished files finished' = ofFinished files finished := by
  intro files finished finished'
  have hfinished' : Finished files againImports finished' := (List.reverse_perm files).map _
  have hcases : ∀ {P : String → Prop}, P "a.py" → P "b.py" → ∀ file ∈ files, P file := by
    intro P ha hb file hfile
    rcases List.mem_pair.1 hfile with rfl | rfl
    · exact ha
    · exact hb
  have hscanned : ∀ file ∈ files, ∀ r ∈ (twiceImports file).resolutions, ∀ target,
      r.outcome = .internal target → target ∈ files := by
    refine hcases (fun r hr target htarget => ?_) (fun r hr => nomatch hr)
    simp only [twiceImports, List.mem_cons, List.not_mem_nil, or_false] at hr
    rcases hr with rfl | rfl | rfl | rfl <;> cases htarget <;> decide
  have hcandidate : ∀ file ∈ files, OneCandidate (twiceImports file).resolutions := by
    refine hcases (fun r hr r' hr' candidate candidate' hbroken hbroken' _ _ => ?_) (fun r hr => nomatch hr)
    have honly : ∀ r ∈ (twiceImports "a.py").resolutions, ∀ candidate,
        r.outcome = .broken candidate → candidate = some "c.py" := by
      intro r hr candidate hbroken
      simp only [twiceImports, List.mem_cons, List.not_mem_nil, or_false] at hr
      rcases hr with rfl | rfl | rfl | rfl <;> cases hbroken
      rfl
    exact (honly r hr candidate hbroken).trans (honly r' hr' candidate' hbroken').symm
  have hsame : ∀ file ∈ files, AlikeImports (twiceImports file) (againImports file) := by
    refine hcases ⟨rfl, fun r => ?_⟩ ⟨rfl, fun r => Iff.rfl⟩
    simp only [twiceImports, againImports, List.mem_cons, List.not_mem_nil, or_false]
    grind
  exact ⟨by decide, (ofFinished_ignores_order hscanned hcandidate hsame (List.Perm.refl _) hfinished').2⟩

end ModuleGraph

end LayerGate
