import LayerGate.Proofs.CommandEffects
import LayerGate.Proofs.GateSoundness
import LayerGate.Proofs.GraphAccounting
import LayerGate.Proofs.ImportTours
import LayerGate.Proofs.SourceFaults

/-!
# `path` and `check` agree on cycles

`path` finds a chain from a file to itself just if `check` reports a cycle through the file.  The two go
different ways about it: one searches the whole graph, the other takes it apart into components first
and merges what it finds into records.
-/

namespace LayerGate

/-! ## The graph of a run -/

namespace ModuleGraph

variable {g : ModuleGraph} {layers : Layers} {results : List (String × FileImports)} {e : Edge}

theorem paths_ofImports_results : (ofImports results).paths = results.map (·.1) := by
  simp [paths, ofImports, nodeOf]

/-- No file imports itself. -/
theorem noLoops_ofImports (hnodup : (results.map (·.1)).Nodup) (h : e ∈ (ofImports results).edges) :
    e.source ≠ e.target := by
  obtain ⟨i, path, imports, hi, he⟩ := mem_edgesFrom_iff.1 h
  obtain ⟨r, -, hedge⟩ := edgeOf_mem he
  obtain ⟨file, target, -, hne, htarget, rfl⟩ := edgeOf?_eq_some_iff.1 hedge
  intro hsame
  obtain rfl : i = target := (Nat.zero_add i).symm.trans hsame
  -- One position is that of one file.
  have hfile := (idxOf?_eq_some_iff_getElem? hnodup).1 htarget
  rw [List.getElem?_map, hi, Option.map_some, Option.some_inj] at hfile
  exact hne hfile.symm

theorem path_classified (i : Nat) :
    (g.classified layers).nodes[i]?.map Node.path = g.nodes[i]?.map Node.path := by
  rw [classified_getElem?, Option.map_map]
  rfl

/-- Layers make no difference to where a file stands and to the chains between files. -/
theorem position?_classified (file : String) :
    (g.classified layers).position? file = g.position? file := by
  simp only [position?, path_classified, size_classified]

theorem chain?_classified (source target : Nat) :
    (g.classified layers).chain? source target = g.chain? source target := by
  have hdigraph : (g.classified layers).digraph = g.digraph := by
    rw [digraph, digraph, size_classified]
    rfl
  simp only [chain?, hdigraph, path_classified]

end ModuleGraph

namespace Analysis

variable {clock : Clock} {m : Machine} {d : Disk} {root : String} {c : Config} {result : Result}
  {graph : ModuleGraph} {violations : List Violation} {cycles : List ImportCycle}

theorem Finds.nodup_paths (h : Finds m d root c graph violations cycles) : graph.paths.Nodup := by
  obtain ⟨folder, files, results, -, hfiles, hresults, rfl⟩ := h.imports
  obtain ⟨rules, found, -, -, rfl⟩ := Scan.sourceFiles_eq_ok_iff.1 hfiles
  rw [ModuleGraph.paths_classified, ModuleGraph.paths_ofImports_results, paths_results hresults]
  exact (strictlySorted_sortedDistinct _).nodup

theorem Finds.noLoops (h : Finds m d root c graph violations cycles) :
    ∀ e ∈ graph.edges, e.source ≠ e.target := by
  have hnodup := h.nodup_paths
  obtain ⟨folder, files, results, -, -, -, rfl⟩ := h.imports
  rw [ModuleGraph.paths_classified, ModuleGraph.paths_ofImports_results] at hnodup
  exact fun e he => ModuleGraph.noLoops_ofImports hnodup he

/-- On a disk with proper names no file of the graph has a NUL in its path. -/
theorem Finds.no_nul (hformed : d.isWellFormed = true) (h : Finds m d root c graph violations cycles) :
    ∀ n ∈ graph.nodes, '\x00' ∉ n.path.toList := by
  obtain ⟨folder, files, results, hfolder, hfiles, hresults, rfl⟩ := h.imports
  obtain ⟨-, there, -, hat⟩ := Disk.find?_eq_some_iff.1 (rootFolder_eq_ok_iff.1 hfolder).1
  have hproper : folder.isWellFormed = true := (Entry.wellFormed_of_at? hformed hat).2
  intro n hn
  have hpath : n.path ∈ (((ModuleGraph.ofImports results).classified c.layers)).paths :=
    List.mem_map_of_mem hn.val
  rw [ModuleGraph.paths_classified, ModuleGraph.paths_ofImports_results,
    paths_results hresults] at hpath
  exact Scan.no_nul_of_mem_sourceFiles hproper hfiles _ hpath

/-- A run that comes to a result has come by the module graph, still without layers. -/
theorem moduleGraph_of_run (h : (run clock m d root c).result = .ok result) :
    ∃ graph, (moduleGraph clock m d root c).result = .ok graph ∧
      result.graph = graph.classified c.layers := by
  obtain ⟨htime, hfinds, -⟩ := run_eq_ok_iff.1 h
  obtain ⟨folder, files, results, hfolder, hfiles, hresults, hgraph⟩ := hfinds.imports
  exact ⟨_, moduleGraph_eq_ok_iff.2 ⟨htime.unspent .discover, htime.canWait, htime.unspent .parse, folder,
    files, results, hfolder, hfiles, hresults, rfl⟩, hgraph⟩

/-- The records of a run tell the cycles that it found. -/
theorem cycle_of_mem_report_iff (hformed : d.isWellFormed = true)
    (h : (run clock m d root c).result = .ok result) {paths : List String} :
    (∃ r ∈ result.report.records, r.reason = .cycle ∧ r.cycle = paths) ↔
      ∃ cycle ∈ result.cycles, cycle.paths = paths := by
  obtain ⟨-, hfinds, hreport⟩ := run_eq_ok_iff.1 h
  rw [hreport]
  apply Report.cycle_of_mem_records_iff
  · intro v hv
    have hrange := Policy.inRange_of_violations? hfinds.violations
    rcases Policy.reason_of_mem hrange hfinds.violations hv with heq | heq
    · rw [heq]
      decide
    · rw [heq]
      decide
  · intro cycle hcycle p hp
    obtain ⟨n, hn, rfl⟩ := ModuleGraph.path_mem_of_importCycles hfinds.cycles hcycle p hp
    exact hfinds.no_nul hformed n hn

end Analysis

namespace CommandLine

variable {s : Surroundings} {d : Disk} {scope : Scope} {blocking : Option (List Reason)}
  {result : Analysis.Result} {file : String}

/-- What `path` answers about one file twice, where `check` has come to a result. -/
theorem path_self_result (hbuilds : Builds s d scope blocking result)
    (hfile : file ∈ result.graph.paths) :
    ∃ i < result.graph.nodes.size, result.graph.pathAt i = file ∧
      (path s d scope (some file) (some file)).result =
        ((result.graph.chain? i i).mapError Fault.graph).map fun
          | some chain => ⟨.pass, lines [" -> ".intercalate chain], "", d⟩
          | none => ⟨.findings, lines ["no import path from " ++ file ++ " to " ++ file], "", d⟩ := by
  obtain ⟨root, c, hroot, hconfig, hrun⟩ := hbuilds
  obtain ⟨i, hi, hposition, hat⟩ := ModuleGraph.exists_position?_eq hfile
  -- The graph does not depend on the gate.
  obtain ⟨graph, hgraph, hclassified⟩ := Analysis.moduleGraph_of_run hrun
  refine ⟨i, hi, hat, ?_⟩
  rw [hclassified, ModuleGraph.position?_classified] at hposition
  rw [hclassified, ModuleGraph.chain?_classified]
  exact path_result ⟨root, c, hroot, hconfig, hgraph⟩ hposition hposition

/-- Let `check` come to a result and ask `path` for a chain from one of its files to the same file.  It
finds one just if some record of the report tells a cycle through the file; and what it prints then
leads along imports from the file to others and back, in no more steps than any cycle of the report
through the file has. -/
theorem path_finds_reported_cycles (hformed : d.isWellFormed = true)
    (hbuilds : Builds s d scope blocking result) (hfile : file ∈ result.graph.paths) :
    ∃ answer, ((Request.path scope (some file) (some file)).run s d).result = .ok answer ∧
      (answer.exit = .pass ∨ answer.exit = .findings) ∧
      (answer.exit = .pass ↔ ∃ r ∈ result.report.records, r.reason = .cycle ∧ file ∈ r.cycle) ∧
      (answer.exit = .pass → ∃ chain, answer.output = lines [" -> ".intercalate chain] ∧
        result.graph.IsTour file chain ∧ ∀ r ∈ result.report.records, r.reason = .cycle →
          file ∈ r.cycle → chain.length - 1 ≤ r.cycle.length) := by
  obtain ⟨i, hi, rfl, hanswer⟩ := path_self_result hbuilds hfile
  obtain ⟨root, c, -, -, hrun⟩ := hbuilds
  obtain ⟨-, hfinds, -⟩ := Analysis.run_eq_ok_iff.1 hrun
  have hrange := Policy.inRange_of_violations? hfinds.violations
  -- What is said of cycles can be said of records.
  have hrecords : ∀ {p : List String → Prop},
      (∃ r ∈ result.report.records, r.reason = .cycle ∧ p r.cycle) ↔
        ∃ cycle ∈ result.cycles, p cycle.paths := by
    intro p
    constructor
    · rintro ⟨r, hr, hreason, hp⟩
      obtain ⟨cycle, hcycle, heq⟩ :=
        (Analysis.cycle_of_mem_report_iff hformed hrun).1 ⟨r, hr, hreason, rfl⟩
      exact ⟨cycle, hcycle, heq ▸ hp⟩
    · rintro ⟨cycle, hcycle, hp⟩
      obtain ⟨r, hr, hreason, heq⟩ :=
        (Analysis.cycle_of_mem_report_iff hformed hrun).2 ⟨cycle, hcycle, rfl⟩
      exact ⟨r, hr, hreason, heq ▸ hp⟩
  rcases ModuleGraph.chain?_self_cases hrange hfinds.noLoops hfinds.nodup_paths hfinds.cycles hi with
    ⟨chain, hchain, htour, hon, hshortest⟩ | ⟨hchain, hoff⟩
  · rw [hchain] at hanswer
    refine ⟨_, (settle_eq_ok_iff (.inl rfl)).2 hanswer, .inl rfl, iff_of_true rfl (hrecords.2 hon), ?_⟩
    refine fun _ => ⟨chain, rfl, htour, fun r hr hreason hmem => ?_⟩
    obtain ⟨cycle, hcycle, heq⟩ :=
      (Analysis.cycle_of_mem_report_iff hformed hrun).1 ⟨r, hr, hreason, rfl⟩
    have hle := hshortest cycle hcycle (heq ▸ hmem)
    rw [heq] at hle
    omega
  · rw [hchain] at hanswer
    refine ⟨_, (settle_eq_ok_iff (.inr rfl)).2 hanswer, .inr rfl, iff_of_false nofun fun h => ?_, nofun⟩
    obtain ⟨cycle, hcycle, hmem⟩ := hrecords.1 h
    exact hoff cycle hcycle hmem

/-! ## Two files that import each other -/

open Report (still projectScope)

def couple : List (String × Entry) :=
  [("a.js", .file "import './b'\n".toUTF8), ("b.js", .file "import './a'\n".toUTF8)]

def coupleImports : List (String × FileImports) :=
  [("a.js", ⟨["./b"], [⟨"./b", 1, .internal "b.js"⟩]⟩),
    ("b.js", ⟨["./a"], [⟨"./a", 1, .internal "a.js"⟩]⟩)]

def coupleGraph : ModuleGraph := (ModuleGraph.ofImports coupleImports).classified .builtin

theorem edges_coupleGraph : coupleGraph.edges = [⟨0, 1, "./b", 1⟩, ⟨1, 0, "./a", 1⟩] := by
  cbv

theorem size_coupleGraph : coupleGraph.nodes.size = 2 := by
  cbv

theorem inRange_coupleGraph : coupleGraph.InRange := by
  unfold ModuleGraph.InRange
  rw [edges_coupleGraph, size_coupleGraph]
  decide

theorem configuration_couple :
    configuration still (alone couple) "/project" projectScope = .ok .builtin := by
  cbv

theorem sourceFiles_couple :
    Scan.sourceFiles (Analysis.selection .builtin) (.folder couple) = .ok ["a.js", "b.js"] := by
  have hfound : Scan.collectIn (Analysis.selection .builtin) (Scan.ignored []) [] couple =
      .ok [["a.js"], ["b.js"]] := rfl
  have hsorted : StrictlySorted ["a.js", "b.js"] := by
    unfold StrictlySorted
    decide +kernel
  exact bind_eq_ok_iff.2 ⟨[], rfl, bind_eq_ok_iff.2 ⟨_, hfound,
    congrArg Except.ok hsorted.sortedDistinct_eq⟩⟩

theorem importsOf_couple :
    (Analysis.importsOf .ample (Analysis.projectOf (alone couple) "/project" .builtin ["a.js", "b.js"])
      (.folder couple) ["a.js", "b.js"]).result = .ok coupleImports := by
  cbv

/-- The run over the two files comes to their graph. -/
theorem builds_couple :
    ∃ result, Builds still (alone couple) projectScope none result ∧ result.graph = coupleGraph := by
  obtain ⟨violations, hviolations, -⟩ := Policy.violations?_of_inRange .builtin inRange_coupleGraph
  obtain ⟨cycles, hcycles⟩ := ModuleGraph.exists_importCycles inRange_coupleGraph
  have hfinds : Analysis.Finds .ample (alone couple) "/project" .builtin coupleGraph violations cycles :=
    ⟨⟨_, _, _, rootFolder_alone couple, sourceFiles_couple, importsOf_couple, rfl⟩, hviolations,
      hcycles⟩
  refine ⟨⟨coupleGraph, violations, cycles, .ofFindings coupleGraph violations cycles .builtin⟩,
    ?_, rfl⟩
  exact ⟨_, _, resolve_alone couple, configuration_couple,
    Analysis.run_eq_ok_iff.2 ⟨Analysis.inTime_of_unlimited rfl, hfinds, rfl⟩⟩

theorem path_finds_reported_cycles_couple :
    (alone couple).isWellFormed = true ∧ ∃ result answer,
      Builds still (alone couple) projectScope none result ∧ "a.js" ∈ result.graph.paths ∧
        ((Request.path projectScope (some "a.js") (some "a.js")).run still (alone couple)).result =
            .ok answer ∧
          answer.exit = .pass ∧ ∃ r ∈ result.report.records, r.reason = .cycle ∧ "a.js" ∈ r.cycle := by
  have hformed : (alone couple).isWellFormed = true := by cbv
  obtain ⟨result, hbuilds, hgraph⟩ := builds_couple
  have hfile : "a.js" ∈ result.graph.paths := by
    have hpaths : coupleGraph.paths = ["a.js", "b.js"] := by cbv
    rw [hgraph, hpaths]
    exact List.mem_cons_self ..
  obtain ⟨answer, hanswer, -, hpass, -⟩ := path_finds_reported_cycles hformed hbuilds hfile
  -- The two files lie on a cycle, so the report has a record that says so.
  have hrecord : ∃ r ∈ result.report.records, r.reason = .cycle ∧ "a.js" ∈ r.cycle := by
    obtain ⟨root, c, -, -, hrun⟩ := hbuilds
    obtain ⟨-, hfinds, -⟩ := Analysis.run_eq_ok_iff.1 hrun
    have hstep : ∀ {e}, e ∈ coupleGraph.edges → coupleGraph.digraph.Step e.source e.target :=
      fun he => (ModuleGraph.step_digraph_iff inRange_coupleGraph).2 ⟨_, he, rfl, rfl⟩
    rw [edges_coupleGraph] at hstep
    have hthere := hstep (List.mem_cons_self ..)
    have hback := hstep (List.mem_cons_of_mem _ (List.mem_cons_self ..))
    have hcycle : coupleGraph.digraph.OnCycle 0 := .tail (.single hthere) hback
    rw [← hgraph] at hcycle
    have hsize : 0 < result.graph.nodes.size := by
      rw [hgraph, size_coupleGraph]
      decide
    obtain ⟨cycle, hmem, hon⟩ := (ModuleGraph.cycles_through_iff
      (Policy.inRange_of_violations? hfinds.violations) hfinds.nodup_paths hfinds.cycles hsize).2 hcycle
    obtain ⟨r, hr, hreason, heq⟩ :=
      (Analysis.cycle_of_mem_report_iff hformed hrun).2 ⟨cycle, hmem, rfl⟩
    have hfirst : result.graph.pathAt 0 = "a.js" := by
      rw [hgraph]
      cbv
    rw [hfirst] at hon
    exact ⟨r, hr, hreason, heq ▸ hon⟩
  exact ⟨hformed, result, answer, hbuilds, hfile, hanswer, hpass.2 hrecord, hrecord⟩

end CommandLine

end LayerGate
