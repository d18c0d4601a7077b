import LayerGate.Graph.Chain
import LayerGate.Proofs.ReportDeterminism
import LayerGate.Proofs.Rings

/-!
# Tours along imports

A chain of imports from a file to itself is found for just those files that lie on a reported cycle.  It
is a ring of the graph of positions, and so is each reported cycle; so the chain is no longer than a
reported cycle through the file.
-/

namespace LayerGate.ModuleGraph

variable {g : ModuleGraph} {i j : Nat} {vs : List Nat} {file : String} {cycles : List ImportCycle}

/-! ## Files by their positions -/

/-- The file at a position, where there is one. -/
def pathAt (g : ModuleGraph) (i : Nat) : String := (g.nodes[i]?.map Node.path).getD ""

theorem getElem?_path (h : i < g.nodes.size) : g.nodes[i]?.map Node.path = some (g.pathAt i) := by
  rw [pathAt, Array.getElem?_eq_getElem h]
  rfl

theorem filterMap_path (h : ∀ i ∈ vs, i < g.nodes.size) :
    (vs.filterMap fun i => g.nodes[i]?.map Node.path) = vs.map g.pathAt := by
  induction vs with
  | nil => rfl
  | cons i vs ih =>
    rw [List.filterMap_cons, getElem?_path (h i (List.mem_cons_self ..)), List.map_cons,
      ih fun j hj => h j (List.mem_cons_of_mem _ hj)]

theorem getElem?_paths (h : i < g.nodes.size) : g.paths[i]? = some (g.pathAt i) := by
  rw [paths, List.getElem?_map, Array.getElem?_toList, getElem?_path h]

/-- With distinct paths a file has one position. -/
theorem pathAt_inj (hpaths : g.paths.Nodup) (hi : i < g.nodes.size) (hj : j < g.nodes.size)
    (h : g.pathAt i = g.pathAt j) : i = j := by
  have hsame : g.paths[i]? = g.paths[j]? := by rw [getElem?_paths hi, getElem?_paths hj, h]
  refine (List.getElem?_inj ?_ hpaths).1 hsame
  rw [paths, List.length_map, Array.length_toList]
  exact hi

/-- The position of a file is that of a node with its path. -/
theorem of_position?_eq_some (h : g.position? file = some i) :
    i < g.nodes.size ∧ g.pathAt i = file := by
  rw [position?] at h
  have hlt : i < g.nodes.size := by simpa using List.mem_of_find?_eq_some h
  have hfile := List.find?_some h
  rw [decide_eq_true_eq, getElem?_path hlt, Option.some_inj] at hfile
  exact ⟨hlt, hfile⟩

/-- A file of the graph is found at a position of its own. -/
theorem exists_position?_eq (h : file ∈ g.paths) :
    ∃ i < g.nodes.size, g.position? file = some i ∧ g.pathAt i = file := by
  obtain ⟨n, hn, hpath⟩ := List.mem_map.1 h
  obtain ⟨k, hk, rfl⟩ := Array.mem_iff_getElem.1 (Array.mem_toList_iff.1 hn)
  have hsome : (g.position? file).isSome = true := by
    rw [position?, List.find?_isSome]
    refine ⟨k, by simpa using hk, ?_⟩
    rw [Array.getElem?_eq_getElem hk, Option.map_some, hpath, decide_eq_true_eq]
  obtain ⟨i, hi⟩ := Option.isSome_iff_exists.1 hsome
  obtain ⟨hlt, hfile⟩ := of_position?_eq_some hi
  exact ⟨i, hlt, hi, hfile⟩

/-! ## Steps from file to file -/

/-- The first file imports the second. -/
def Links (g : ModuleGraph) (a b : String) : Prop :=
  ∃ e ∈ g.edges, g.nodes[e.source]?.map Node.path = some a ∧
    g.nodes[e.target]?.map Node.path = some b

/-- A chain of imports that leads from a file to others and back. -/
structure IsTour (g : ModuleGraph) (file : String) (chain : List String) : Prop where
  starts : chain.head? = some file
  ends : chain.getLast? = some file
  links : chain.IsChain g.Links
  others : ∃ other ∈ chain, other ≠ file

theorem links_of_step (hrange : g.InRange) (h : g.digraph.Step i j) :
    g.Links (g.pathAt i) (g.pathAt j) := by
  obtain ⟨e, he, rfl, rfl⟩ := (step_digraph_iff hrange).1 h
  exact ⟨e, he, getElem?_path (hrange e he).1, getElem?_path (hrange e he).2⟩

theorem lt_size_of_isRing (h : g.digraph.IsRing vs) (hi : i ∈ vs) : i < g.nodes.size := by
  rw [← order_digraph]
  exact (h.onCycle hi).lt_order

/-- A ring of positions gives a tour of files, for no file imports itself. -/
theorem isTour_of_isRing (hrange : g.InRange) (hloops : ∀ e ∈ g.edges, e.source ≠ e.target)
    (hpaths : g.paths.Nodup) (h : g.digraph.IsRing (i :: vs)) :
    g.IsTour (g.pathAt i) ((i :: (vs ++ [i])).map g.pathAt) where
  starts := rfl
  ends := by
    rw [← List.cons_append, List.map_append]
    exact List.getLast?_concat
  links := by
    rw [List.isChain_map]
    exact (Digraph.isRing_cons.1 h).imp fun _ _ hstep => links_of_step hrange hstep
  others := by
    cases vs with
    | nil =>
      -- The ring would be a loop.
      have hstep : g.digraph.Step i i := List.isChain_pair.1 (Digraph.isRing_cons.1 h)
      obtain ⟨e, he, hsource, htarget⟩ := (step_digraph_iff hrange).1 hstep
      exact absurd (hsource.trans htarget.symm) (hloops e he)
    | cons j vs =>
      have hstep : g.digraph.Step i j := (List.isChain_cons_cons.1 (Digraph.isRing_cons.1 h)).1
      obtain ⟨e, he, hsource, htarget⟩ := (step_digraph_iff hrange).1 hstep
      refine ⟨g.pathAt j, List.mem_cons_of_mem _ (List.mem_cons_self ..), fun heq => ?_⟩
      have hsame := pathAt_inj hpaths (hrange e he).2 (hrange e he).1
        ((congrArg g.pathAt htarget).trans (heq.trans (congrArg g.pathAt hsource.symm)))
      exact hloops e he hsame.symm

/-! ## Reported cycles -/

theorem paths_of_ofPaths? {paths : List String} {c : ImportCycle}
    (h : ImportCycle.ofPaths? paths = some c) : c.paths = paths := by
  cases paths with
  | nil => cases h
  | cons first rest =>
    obtain rfl := Option.some.inj h
    rfl

/-- The cycles are the rings that are found, file by file. -/
theorem mem_importCycles_iff (hrange : g.InRange) (h : g.importCycles = .ok cycles) :
    ∃ rings, g.digraph.findCycles = .ok rings ∧ ∀ c, c ∈ cycles ↔
      ∃ ring ∈ rings, ring.map g.pathAt = c.paths := by
  rw [importCycles] at h
  split at h
  · cases h
  · obtain ⟨rings, hrings, hcycles⟩ := bind_eq_ok_iff.1 h
    obtain rfl := Except.ok.inj hcycles
    refine ⟨rings, hrings, fun c => ?_⟩
    have hpaths : ∀ ring ∈ rings,
        (ring.filterMap fun i => g.nodes[i]?.map Node.path) = ring.map g.pathAt := by
      intro ring hring
      have hisRing := Digraph.isRing_of_findCycles (closed_digraph hrange) hrings ring hring
      exact filterMap_path fun i hi => lt_size_of_isRing hisRing hi
    rw [List.mem_filterMap]
    refine exists_congr fun ring => and_congr_right fun hring => ?_
    rw [hpaths ring hring]
    constructor
    · intro hc
      exact (paths_of_ofPaths? hc).symm
    · intro hc
      rw [hc]
      exact ImportCycle.ofPaths?_paths c

/-- A file on a reported cycle is on a ring of the same length, and a file on a ring is on some reported
cycle. -/
theorem cycles_through_iff (hrange : g.InRange) (hpaths : g.paths.Nodup)
    (h : g.importCycles = .ok cycles) (hi : i < g.nodes.size) :
    (∀ c ∈ cycles, g.pathAt i ∈ c.paths →
      ∃ ring, g.digraph.IsRing ring ∧ i ∈ ring ∧ ring.length = c.paths.length) ∧
    (g.digraph.OnCycle i → ∃ c ∈ cycles, g.pathAt i ∈ c.paths) := by
  obtain ⟨rings, hrings, hmem⟩ := mem_importCycles_iff hrange h
  have hclosed := closed_digraph hrange
  constructor
  · intro c hc hfile
    obtain ⟨ring, hring, hsame⟩ := (hmem c).1 hc
    have hisRing := Digraph.isRing_of_findCycles hclosed hrings ring hring
    rw [← hsame] at hfile
    obtain ⟨j, hj, heq⟩ := List.mem_map.1 hfile
    obtain rfl := pathAt_inj hpaths (lt_size_of_isRing hisRing hj) hi heq
    exact ⟨ring, hisRing, hj, by rw [← hsame, List.length_map]⟩
  · intro hcycle
    obtain ⟨ring, hring, hin⟩ := Digraph.exists_found_of_onCycle hclosed hrings hcycle
    cases ring with
    | nil => cases hin
    | cons j ring =>
      refine ⟨⟨g.pathAt j, ring.map g.pathAt⟩, (hmem _).2 ⟨_, hring, rfl⟩, ?_⟩
      exact List.mem_map_of_mem (f := g.pathAt) hin

/-! ## Chains from a file to itself -/

/-- Either the search gives a tour that is no longer than any reported cycle through the file, of which
there is one, or it gives none and no reported cycle goes through the file. -/
theorem chain?_self_cases (hrange : g.InRange) (hloops : ∀ e ∈ g.edges, e.source ≠ e.target)
    (hpaths : g.paths.Nodup) (h : g.importCycles = .ok cycles) (hi : i < g.nodes.size) :
    (∃ chain, g.chain? i i = .ok (some chain) ∧ g.IsTour (g.pathAt i) chain ∧
      (∃ c ∈ cycles, g.pathAt i ∈ c.paths) ∧
        ∀ c ∈ cycles, g.pathAt i ∈ c.paths → chain.length ≤ c.paths.length + 1) ∨
    (g.chain? i i = .ok none ∧ ∀ c ∈ cycles, g.pathAt i ∉ c.paths) := by
  obtain ⟨hring, hfound⟩ := cycles_through_iff hrange hpaths h hi
  have hlt : i < g.digraph.order := by
    rw [order_digraph]
    exact hi
  rcases Digraph.shortestPath_self_cases (closed_digraph hrange) hlt with
    ⟨hcycle, rest, hpath, hshortest⟩ | ⟨hnone, hpath⟩
  · left
    have hchain : g.chain? i i = .ok (some ((i :: (rest ++ [i])).map g.pathAt)) := by
      rw [chain?, hpath]
      simp only [bind, Except.bind, if_true, List.take_succ_cons, List.take_zero, List.cons_append]
      rw [filterMap_path]
      · rfl
      · intro j hj
        apply lt_size_of_isRing hshortest.isRing
        simpa [or_comm] using hj
    refine ⟨_, hchain, isTour_of_isRing hrange hloops hpaths hshortest.isRing, hfound hcycle, ?_⟩
    intro c hc hfile
    obtain ⟨ring, hother, hin, hlength⟩ := hring c hc hfile
    have hle := hshortest.shortest ring hother hin
    simp only [List.length_map, List.length_cons, List.length_append, List.length_nil] at hle ⊢
    omega
  · right
    refine ⟨by rw [chain?, hpath]; rfl, fun c hc hfile => ?_⟩
    obtain ⟨ring, hisRing, hin, -⟩ := hring c hc hfile
    exact hnone (hisRing.onCycle hin)

end LayerGate.ModuleGraph
