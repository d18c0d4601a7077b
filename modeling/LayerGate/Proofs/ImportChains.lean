import LayerGate.Proofs.CycleAgreement
import LayerGate.Proofs.LeastPaths

/-!
# Chains of imports

The chain that `path` prints is the least of the shortest chains between the two files, where chains are
compared file by file.  So it depends on nothing but which file imports which.
-/

namespace LayerGate

/-! ## Walks along a map -/

section

variable {α β : Type} [LinearOrder α] [LinearOrder β] {r : α → α → Prop} {s : β → β → Prop}
  {f : α → β} {p : α → Prop} {a b : α} {xs xs' : List α} {ys : List β}

/-- There is one least walk at most. -/
theorem IsLeastWalk.unique (h : IsLeastWalk r a b xs) (h' : IsLeastWalk r a b xs') : xs = xs' :=
  le_antisymm (not_lt.1 (h.least xs' h'.toIsShortestWalk)) (not_lt.1 (h'.least xs h.toIsShortestWalk))

/-- All steps of the one relation are among the elements with `p`; a function that keeps their order takes
these steps to those of the other relation that start at an image. -/
structure Carries (f : α → β) (p : α → Prop) (r : α → α → Prop) (s : β → β → Prop) : Prop where
  inside : ∀ a b, r a b → p a ∧ p b
  lt : ∀ a b, p a → p b → a < b → f a < f b
  step : ∀ a b, r a b → s (f a) (f b)
  lift : ∀ a y, p a → s (f a) y → ∃ b, r a b ∧ f b = y

namespace Carries

theorem inj (h : Carries f p r s) (ha : p a) (hb : p b) (heq : f a = f b) : a = b := by
  rcases lt_trichotomy a b with hlt | rfl | hlt
  · exact absurd heq (h.lt a b ha hb hlt).ne
  · rfl
  · exact absurd heq (h.lt b a hb ha hlt).ne'

theorem of_isChain (h : Carries f p r s) (hxs : (a :: xs).IsChain r) : ∀ x ∈ xs, p x := by
  induction xs generalizing a with
  | nil => exact nofun
  | cons x xs ih =>
    obtain ⟨hstep, hrest⟩ := List.isChain_cons_cons.1 hxs
    exact List.forall_mem_cons.2 ⟨(h.inside a x hstep).2, ih hrest⟩

theorem exists_isChain (h : Carries f p r s) (ha : p a) (hys : (f a :: ys).IsChain s) :
    ∃ xs, (a :: xs).IsChain r ∧ xs.map f = ys := by
  induction ys generalizing a with
  | nil => exact ⟨[], List.isChain_singleton _, rfl⟩
  | cons y ys ih =>
    obtain ⟨hstep, hrest⟩ := List.isChain_cons_cons.1 hys
    -- Each step is lifted from where the one before it came to.
    obtain ⟨b, hab, rfl⟩ := h.lift a y ha hstep
    obtain ⟨xs, hxs, rfl⟩ := ih (h.inside a b hab).2 hrest
    exact ⟨b :: xs, List.isChain_cons_cons.2 ⟨hab, hxs⟩, rfl⟩

/-- The walks between images are the images of the walks. -/
theorem isWalk_iff (h : Carries f p r s) (ha : p a) (hb : p b) :
    IsWalk s (f a) (f b) ys ↔ ∃ xs, IsWalk r a b xs ∧ xs.map f = ys := by
  constructor
  · rintro ⟨hsteps, hends⟩
    obtain ⟨xs, hxs, rfl⟩ := h.exists_isChain ha hsteps
    rw [List.getLast?_map, Option.map_eq_some_iff] at hends
    obtain ⟨c, hlast, hc⟩ := hends
    obtain rfl := h.inj (h.of_isChain hxs c (List.mem_of_getLast? hlast)) hb hc
    exact ⟨xs, ⟨hxs, hlast⟩, rfl⟩
  · rintro ⟨xs, ⟨hsteps, hends⟩, rfl⟩
    refine ⟨?_, by rw [List.getLast?_map, hends]; rfl⟩
    rw [← List.map_cons, List.isChain_map]
    exact hsteps.imp h.step

/-- Lists are compared as their images are. -/
theorem map_lt_map (h : Carries f p r s) (hxs : ∀ x ∈ xs, p x) (hxs' : ∀ x ∈ xs', p x)
    (hlt : xs < xs') : xs.map f < xs'.map f := by
  induction xs generalizing xs' with
  | nil =>
    cases xs' with
    | nil => exact absurd hlt (lt_irrefl _)
    | cons b xs' => exact List.nil_lt_cons _ _
  | cons a xs ih =>
    cases xs' with
    | nil => exact absurd hlt (List.not_lt_nil _)
    | cons b xs' =>
      obtain ⟨ha, hrest⟩ := List.forall_mem_cons.1 hxs
      obtain ⟨hb, hrest'⟩ := List.forall_mem_cons.1 hxs'
      rw [List.map_cons, List.map_cons, List.cons_lt_cons_iff]
      rcases List.cons_lt_cons_iff.1 hlt with hab | ⟨rfl, hafter⟩
      · exact .inl (h.lt a b ha hb hab)
      · exact .inr ⟨rfl, ih hrest hrest' hafter⟩

/-- The image of the least walk is the least walk between the images. -/
theorem isLeastWalk (h : Carries f p r s) (ha : p a) (hb : p b) (hxs : IsLeastWalk r a b xs) :
    IsLeastWalk s (f a) (f b) (xs.map f) where
  toIsWalk := (h.isWalk_iff ha hb).2 ⟨xs, hxs.toIsWalk, rfl⟩
  shortest ys hys := by
    obtain ⟨xs', hxs', rfl⟩ := (h.isWalk_iff ha hb).1 hys
    rw [List.length_map, List.length_map]
    exact hxs.shortest xs' hxs'
  least ys hys hbefore := by
    -- A shortest walk between the images is the image of a shortest walk.
    obtain ⟨xs', hxs', rfl⟩ := (h.isWalk_iff ha hb).1 hys.toIsWalk
    have hshortest : IsShortestWalk r a b xs' := ⟨hxs', fun other hother => by
      have hle := hys.shortest _ ((h.isWalk_iff ha hb).2 ⟨other, hother, rfl⟩)
      rwa [List.length_map, List.length_map] at hle⟩
    rcases lt_or_eq_of_le (not_lt.1 (hxs.least xs' hshortest)) with hlt | rfl
    · exact lt_asymm hbefore (h.map_lt_map (h.of_isChain hxs.steps) (h.of_isChain hxs'.steps) hlt)
    · exact lt_irrefl _ hbefore

end Carries

end

/-! ## Chains of files -/

namespace ModuleGraph

variable {g : ModuleGraph} {i j : Nat} {source target : String} {walk : List String}

/-- The positions that a file leads to are listed in increasing order. -/
theorem sorted_digraph (g : ModuleGraph) : g.digraph.Sorted := by
  intro v
  by_cases hv : v < g.nodes.size
  · rw [next_digraph hv]
    exact (strictlySorted_sortedDistinct _).imp fun hlt => (Nat.compare_eq_lt.1 hlt).le
  · rw [Digraph.next_of_le (by rw [order_digraph]; omega)]
    exact List.Pairwise.nil

/-- In a graph whose files stand in increasing order, positions stand for files. -/
theorem carries_pathAt (hrange : g.InRange) (hsorted : g.paths.Pairwise (· < ·)) :
    Carries g.pathAt (· < g.nodes.size) g.digraph.Step g.Links where
  inside v w hstep := by
    obtain ⟨e, he, rfl, rfl⟩ := (step_digraph_iff hrange).1 hstep
    exact hrange e he
  lt i j hi hj hij := by
    have hat : ∀ {k} (hk : k < g.paths.length), k < g.nodes.size → g.paths[k] = g.pathAt k :=
      fun hk hsize => Option.some.inj ((List.getElem?_eq_getElem hk).symm.trans (getElem?_paths hsize))
    have hlength : g.paths.length = g.nodes.size := by simp [paths]
    rw [← hlength] at hi hj
    have hlt := List.pairwise_iff_getElem.1 hsorted i j hi hj hij
    rwa [hat hi (hlength ▸ hi), hat hj (hlength ▸ hj)] at hlt
  step v w hstep := links_of_step hrange hstep
  lift v file hv := by
    -- Paths are distinct, so the edge starts at `v` itself.
    rintro ⟨e, he, hsource, htarget⟩
    rw [getElem?_path (hrange e he).1, Option.some_inj] at hsource
    rw [getElem?_path (hrange e he).2, Option.some_inj] at htarget
    obtain rfl := pathAt_inj (hsorted.imp fun hlt => hlt.ne) (hrange e he).1 hv hsource
    exact ⟨e.target, (step_digraph_iff hrange).2 ⟨e, he, rfl, rfl⟩, htarget⟩

theorem links_iff_paths : g.Links source target ↔
    ∃ e ∈ g.edges, g.paths[e.source]? = some source ∧ g.paths[e.target]? = some target := by
  simp only [Links, paths, List.getElem?_map, Array.getElem?_toList]

/-- A walk of imports is between files of the graph. -/
theorem mem_paths_of_isWalk (h : IsWalk g.Links source target walk) :
    source ∈ g.paths ∧ target ∈ g.paths := by
  have hfiles : ∀ {a b}, g.Links a b → a ∈ g.paths ∧ b ∈ g.paths := by
    intro a b hlinks
    obtain ⟨e, -, hsource, htarget⟩ := links_iff_paths.1 hlinks
    exact ⟨List.mem_of_getElem? hsource, List.mem_of_getElem? htarget⟩
  obtain ⟨hsteps, hends⟩ := h
  obtain ⟨front, rfl⟩ := List.getLast?_eq_some_iff.1 hends
  constructor
  · cases front with
    | nil => exact (hfiles (List.isChain_pair.1 hsteps)).1
    | cons file front => exact (hfiles (List.isChain_cons_cons.1 hsteps).1).1
  · rw [← List.cons_append, List.isChain_append] at hsteps
    obtain ⟨-, -, hjoin⟩ := hsteps
    exact (hfiles (hjoin _ (List.getLast?_eq_some_getLast (List.cons_ne_nil _ _)) target rfl)).2

/-- A path back to its start is printed with the start at its end again, so as the walk. -/
theorem printed_eq_walk {path walk : List Nat} (hne : walk ≠ [])
    (h : i :: walk = if i = j then path ++ [j] else path) :
    (if i = j then path ++ path.take 1 else path) = i :: walk := by
  rw [h]
  split
  · rename_i hsame
    rw [if_pos hsame] at h
    cases path with
    | nil => exact absurd (List.cons.inj h).2 hne
    | cons v path =>
      obtain ⟨rfl, -⟩ := List.cons.inj h
      rw [List.take_succ_cons, List.take_zero, hsame]
  · rfl

/-- The chain between two files is the least walk along imports, and there is none just if there is no
walk. -/
theorem chain?_cases (hrange : g.InRange) (hsorted : g.paths.Pairwise (· < ·))
    (hi : i < g.nodes.size) (hj : j < g.nodes.size) :
    (∃ walk, g.chain? i j = .ok (some (g.pathAt i :: walk)) ∧
      IsLeastWalk g.Links (g.pathAt i) (g.pathAt j) walk) ∨
    (g.chain? i j = .ok none ∧ ¬ ∃ walk, IsWalk g.Links (g.pathAt i) (g.pathAt j) walk) := by
  have hcarries := carries_pathAt hrange hsorted
  have hlt : i < g.digraph.order := by
    rw [order_digraph]
    exact hi
  rcases Digraph.shortestPath_cases (closed_digraph hrange) hlt j fun _ => true with
    ⟨v, r, -, hfound⟩ | ⟨hnone, hno⟩
  · left
    obtain ⟨path, hpath⟩ : ∃ path, g.digraph.shortestPath i j (fun _ => true) = .ok (some path) :=
      ⟨_, hfound⟩
    obtain ⟨walk, hleast, hwalk⟩ := Digraph.exists_least_walk (sorted_digraph g) hpath
    rw [Digraph.stepIn_all] at hleast
    refine ⟨walk.map g.pathAt, ?_, hcarries.isLeastWalk hi hj hleast⟩
    have hne : walk ≠ [] := fun hnil => nomatch hnil ▸ hleast.ends
    rw [chain?, hpath]
    simp only [bind, Except.bind, printed_eq_walk hne hwalk]
    rw [filterMap_path (List.forall_mem_cons.2 ⟨hi, hcarries.of_isChain hleast.steps⟩)]
    rfl
  · right
    refine ⟨by rw [chain?, hnone]; rfl, ?_⟩
    rintro ⟨files, hfiles⟩
    obtain ⟨walk, hwalk, -⟩ := (hcarries.isWalk_iff hi hj).1 hfiles
    rw [Digraph.stepIn_all] at hno
    exact hno hwalk.transGen

end ModuleGraph

/-! ## The graph that is searched -/

namespace ModuleGraph

/-- Both ends of every edge are files that were given. -/
theorem inRange_ofImports (results : List (String × FileImports)) : (ofImports results).InRange := by
  have hsize : (ofImports results).nodes.size = results.length := by simp [ofImports]
  intro e he
  obtain ⟨i, path, imports, hi, hmem⟩ := mem_edgesFrom_iff.1 he
  obtain ⟨r, -, hedge⟩ := edgeOf_mem hmem
  obtain ⟨file, target, -, -, htarget, rfl⟩ := edgeOf?_eq_some_iff.1 hedge
  obtain ⟨hlt, -⟩ := List.idxOf?_eq_some_iff.1 htarget
  rw [hsize]
  refine ⟨?_, by simpa using hlt⟩
  rw [Nat.zero_add]
  exact (List.getElem?_eq_some_iff.1 hi).1

end ModuleGraph

namespace CommandLine

variable {s s' : Surroundings} {d d' : Disk} {scope scope' : Scope} {graph graph' : ModuleGraph}
  {source target : String}

theorem Draws.inRange (h : Draws s d scope graph) : graph.InRange := by
  obtain ⟨root, c, -, -, hgraph⟩ := h
  obtain ⟨-, -, -, folder, files, results, -, -, -, rfl⟩ := Analysis.moduleGraph_eq_ok_iff.1 hgraph
  exact ModuleGraph.inRange_ofImports results

/-- The files stand in the order of their paths. -/
theorem Draws.sorted_paths (h : Draws s d scope graph) : graph.paths.Pairwise (· < ·) := by
  obtain ⟨root, c, -, -, hgraph⟩ := h
  obtain ⟨-, -, -, folder, files, results, -, hfiles, hresults, rfl⟩ :=
    Analysis.moduleGraph_eq_ok_iff.1 hgraph
  obtain ⟨rules, found, -, -, rfl⟩ := Scan.sourceFiles_eq_ok_iff.1 hfiles
  rw [ModuleGraph.paths_ofImports_results, Analysis.paths_results hresults]
  exact (strictlySorted_sortedDistinct _).imp compare_lt_iff_lt.1

/-! ## The answer of `path` -/

/-- The answer that tells a chain. -/
def Answer.ofChain (d : Disk) (chain : List String) : Answer :=
  ⟨.pass, lines [" -> ".intercalate chain], "", d⟩

/-- `path` prints the least walk along imports from one file to the other, and passes just if there is
one. -/
theorem path_answers (h : Draws s d scope graph) (source target : String) :
    ∃ answer, ((Request.path scope (some source) (some target)).run s d).result = .ok answer ∧
      ((∃ walk, IsLeastWalk graph.Links source target walk ∧ answer = .ofChain d (source :: walk)) ∨
        (answer.exit ≠ .pass ∧ ¬ ∃ walk, IsWalk graph.Links source target walk)) := by
  have hsettle : ∀ {answer}, (path s d scope (some source) (some target)).result = .ok answer →
      ((Request.path scope (some source) (some target)).run s d).result = .ok answer :=
    fun hresult => settle_cases_iff.2 (.inl hresult)
  by_cases hfiles : source ∈ graph.paths ∧ target ∈ graph.paths
  · obtain ⟨i, hi, hposition, rfl⟩ := ModuleGraph.exists_position?_eq hfiles.1
    obtain ⟨j, hj, hposition', rfl⟩ := ModuleGraph.exists_position?_eq hfiles.2
    have hresult := path_result h hposition hposition'
    rcases ModuleGraph.chain?_cases h.inRange h.sorted_paths hi hj with
      ⟨walk, hchain, hleast⟩ | ⟨hchain, hnone⟩
    · rw [hchain] at hresult
      exact ⟨_, hsettle hresult, .inl ⟨walk, hleast, rfl⟩⟩
    · rw [hchain] at hresult
      exact ⟨_, hsettle hresult, .inr ⟨nofun, hnone⟩⟩
  · -- A file without a position is no file of the graph.
    have hposition : ∀ {file}, file ∉ graph.paths → graph.position? file = none := by
      intro file hfile
      rw [Option.eq_none_iff_forall_ne_some]
      intro i hi
      obtain ⟨hlt, rfl⟩ := ModuleGraph.of_position?_eq_some hi
      exact hfile (List.mem_of_getElem? (ModuleGraph.getElem?_paths hlt))
    refine ⟨_, hsettle (path_unknown h ?_), .inr ⟨nofun, fun ⟨walk, hwalk⟩ => ?_⟩⟩
    · exact (not_and_or.1 hfiles).imp hposition hposition
    · exact hfiles (ModuleGraph.mem_paths_of_isWalk hwalk)

/-- Where all successors stand in increasing order, as they do in every module graph, a path that is found
is the least of the shortest ones.  So let `path` search two graphs in which the same files import each
other, on whatever disks: if it prints a chain from one, it prints the same chain from the other. -/
theorem path_depends_on_imports :
    (∀ (g : Digraph) (allowed : Nat → Bool) (start goal : Nat) (path : List Nat), g.Sorted →
      g.shortestPath start goal allowed = .ok (some path) →
        g.IsShortestPath allowed start goal path ∧
          ∀ other, g.IsShortestPath allowed start goal other → path ≤ other) ∧
    (∀ graph : ModuleGraph, graph.digraph.Sorted) ∧
    ∀ s d scope graph s' d' scope' graph', Draws s d scope graph → Draws s' d' scope' graph' →
      (∀ a b, graph.Links a b ↔ graph'.Links a b) → ∀ source target, ∃ answer answer',
        ((Request.path scope (some source) (some target)).run s d).result = .ok answer ∧
        ((Request.path scope' (some source) (some target)).run s' d').result = .ok answer' ∧
        (answer.exit = .pass ↔ ∃ walk, IsWalk graph.Links source target walk) ∧
        (answer'.exit = .pass ↔ answer.exit = .pass) ∧
        (answer.exit = .pass → answer'.output = answer.output ∧
          ∃ walk, IsLeastWalk graph.Links source target walk ∧
            answer.output = lines [" -> ".intercalate (source :: walk)]) := by
  refine ⟨fun g allowed start goal path hsorted h => Digraph.least_of_shortestPath hsorted h,
    ModuleGraph.sorted_digraph, ?_⟩
  intro s d scope graph s' d' scope' graph' hdraws hdraws' hlinks source target
  have hsame : graph'.Links = graph.Links := by
    funext a b
    exact propext (hlinks a b).symm
  obtain ⟨answer, hanswer, hcases⟩ := path_answers hdraws source target
  obtain ⟨answer', hanswer', hcases'⟩ := path_answers hdraws' source target
  rw [hsame] at hcases'
  refine ⟨answer, answer', hanswer, hanswer', ?_⟩
  rcases hcases with ⟨walk, hleast, rfl⟩ | ⟨hexit, hnone⟩
  · rcases hcases' with ⟨walk', hleast', rfl⟩ | ⟨-, hnone'⟩
    · obtain rfl := hleast.unique hleast'
      exact ⟨iff_of_true rfl ⟨walk, hleast.toIsWalk⟩, Iff.rfl, fun _ => ⟨rfl, walk, hleast, rfl⟩⟩
    · exact absurd ⟨walk, hleast.toIsWalk⟩ hnone'
  · rcases hcases' with ⟨walk', hleast', -⟩ | ⟨hexit', -⟩
    · exact absurd ⟨walk', hleast'.toIsWalk⟩ hnone
    · exact ⟨iff_of_false hexit hnone, iff_of_false hexit' hexit, fun hpass => absurd hpass hexit⟩

/-! ## The same imports written otherwise -/

open Report (still projectScope)

/-- The couple with other specifiers, one of the imports twice and a file that imports nothing. -/
def coupleAside : List (String × Entry) :=
  [("a.js", .file "\nimport './b.js'\nimport './b'\n".toUTF8),
    ("aside.js", .file "".toUTF8), ("b.js", .file "import './a.js'\n".toUTF8)]

def coupleAsideImports : List (String × FileImports) :=
  [("a.js", ⟨["./b.js", "./b"], [⟨"./b.js", 2, .internal "b.js"⟩, ⟨"./b", 3, .internal "b.js"⟩]⟩),
    ("aside.js", ⟨[], []⟩), ("b.js", ⟨["./a.js"], [⟨"./a.js", 1, .internal "a.js"⟩]⟩)]

theorem draws_couple :
    Draws still (alone couple) projectScope (.ofImports coupleImports) :=
  ⟨_, _, resolve_alone couple, configuration_couple, Analysis.moduleGraph_eq_ok_iff.2
    ⟨rfl, rfl, rfl, _, _, _, rootFolder_alone couple, sourceFiles_couple, importsOf_couple, rfl⟩⟩

theorem draws_coupleAside :
    Draws still (alone coupleAside) projectScope (.ofImports coupleAsideImports) := by
  have hconfig : configuration still (alone coupleAside) "/project" projectScope = .ok .builtin := by
    cbv
  have hfiles : Scan.sourceFiles (Analysis.selection .builtin) (.folder coupleAside) =
      .ok ["a.js", "aside.js", "b.js"] := by
    have hfound : Scan.collectIn (Analysis.selection .builtin) (Scan.ignored []) [] coupleAside =
        .ok [["a.js"], ["aside.js"], ["b.js"]] := rfl
    have hsorted : StrictlySorted ["a.js", "aside.js", "b.js"] := by
      unfold StrictlySorted
      decide +kernel
    exact bind_eq_ok_iff.2 ⟨[], rfl, bind_eq_ok_iff.2 ⟨_, hfound,
      congrArg Except.ok hsorted.sortedDistinct_eq⟩⟩
  have himports : (Analysis.importsOf .ample (Analysis.projectOf (alone coupleAside) "/project" .builtin
      ["a.js", "aside.js", "b.js"]) (.folder coupleAside) ["a.js", "aside.js", "b.js"]).result =
        .ok coupleAsideImports := by
    cbv
  exact ⟨_, _, resolve_alone coupleAside, hconfig, Analysis.moduleGraph_eq_ok_iff.2
    ⟨rfl, rfl, rfl, _, _, _, rootFolder_alone coupleAside, hfiles, himports, rfl⟩⟩

theorem links_couple_iff (a b : String) :
    (ModuleGraph.ofImports coupleImports).Links a b ↔
      a = "a.js" ∧ b = "b.js" ∨ a = "b.js" ∧ b = "a.js" := by
  have hedges : (ModuleGraph.ofImports coupleImports).edges =
      [⟨0, 1, "./b", 1⟩, ⟨1, 0, "./a", 1⟩] := by cbv
  rw [ModuleGraph.links_iff_paths, hedges, ModuleGraph.paths_ofImports_results]
  simp [coupleImports, eq_comm]

theorem links_coupleAside_iff (a b : String) :
    (ModuleGraph.ofImports coupleAsideImports).Links a b ↔
      a = "a.js" ∧ b = "b.js" ∨ a = "b.js" ∧ b = "a.js" := by
  have hedges : (ModuleGraph.ofImports coupleAsideImports).edges =
      [⟨0, 2, "./b", 3⟩, ⟨0, 2, "./b.js", 2⟩, ⟨2, 0, "./a.js", 1⟩] := by cbv
  rw [ModuleGraph.links_iff_paths, hedges, ModuleGraph.paths_ofImports_results]
  simp [coupleAsideImports, eq_comm]

/-- Two shortest ways from 0 to 3, and one back. -/
def forked : Digraph := .ofLists [[1, 2], [3], [3], [0]]

theorem path_depends_on_imports_couple :
    (forked.Sorted ∧ forked.IsShortestPath (fun _ => true) 0 3 [0, 1, 3] ∧
      ∀ other, forked.IsShortestPath (fun _ => true) 0 3 other → [0, 1, 3] ≤ other) ∧
    Draws still (alone couple) projectScope (.ofImports coupleImports) ∧
    Draws still (alone coupleAside) projectScope (.ofImports coupleAsideImports) ∧
    ∃ answer answer',
      ((Request.path projectScope (some "a.js") (some "a.js")).run still (alone couple)).result =
          .ok answer ∧
      ((Request.path projectScope (some "a.js") (some "a.js")).run still (alone coupleAside)).result =
          .ok answer' ∧
      answer.exit = .pass ∧ answer'.exit = .pass ∧ answer'.output = answer.output := by
  obtain ⟨hleast, -, hdepends⟩ := path_depends_on_imports
  have hsorted : forked.Sorted := by
    intro v
    by_cases hv : v < 4
    · interval_cases v <;> decide
    · rw [Digraph.next_of_le (g := forked) (Nat.le_of_not_lt hv)]
      exact List.Pairwise.nil
  have hpath : forked.shortestPath 0 3 (fun _ => true) = .ok (some [0, 1, 3]) := by decide +kernel
  refine ⟨⟨hsorted, hleast forked _ 0 3 _ hsorted hpath⟩, draws_couple, draws_coupleAside, ?_⟩
  obtain ⟨answer, answer', hanswer, hanswer', hpass, hsame, houtput⟩ :=
    hdepends _ _ _ _ _ _ _ _ draws_couple draws_coupleAside
      (fun a b => (links_couple_iff a b).trans (links_coupleAside_iff a b).symm) "a.js" "a.js"
  have hwalk : IsWalk (ModuleGraph.ofImports coupleImports).Links "a.js" "a.js" ["b.js", "a.js"] :=
    ⟨by simp [links_couple_iff], rfl⟩
  have hexit := hpass.2 ⟨_, hwalk⟩
  exact ⟨answer, answer', hanswer, hanswer', hexit, hsame.2 hexit, (houtput hexit).1⟩

end CommandLine

end LayerGate
