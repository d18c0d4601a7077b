import LayerGate.Analysis
import LayerGate.Proofs.FinishedFiles
import LayerGate.Proofs.ImportedNames
import LayerGate.Proofs.Results
import LayerGate.Proofs.StoredFile

/-!
# The same run again

What a run finds depends neither on the clock nor on the gate, and not on the disk either as far as
nothing below the project's folder leads to what has changed.
-/

namespace LayerGate

/-! ## What files ask for -/

namespace FileImports

open Resolution (IsPlain SameBelow)
open LayerGate.Path (IsInside)

variable {m : Machine} {q p : Project} {path : String} {content : ByteArray}

/-- What Python files ask for is no path. -/
theorem isPlain_of_refs {rs : List Import.Ref} (h : (refs m path content).result = .ok rs) :
    ∀ r ∈ rs, r.language = .python → IsPlain r := by
  intro r hr hlanguage
  rcases isSpelled_of_refs h hr with ⟨-, hspelled⟩ | ⟨-, hweb⟩
  · exact hspelled.isPlain
  · exact nomatch hweb.symm.trans hlanguage

/-- A file asks for the same in two pictures of the project that are alike below its folder. -/
theorem ofContent_eq (h : SameBelow q p) (hpath : IsInside path)
    (hext : ∀ e ∈ p.webExtensions, Path.NeverClimbs e) :
    ofContent m q path content = ofContent m p path content := by
  unfold ofContent
  cases hrefs : refs m path content with
  | mk notes outcome =>
    cases outcome with
    | error e => rfl
    | ok rs =>
      have hplain := isPlain_of_refs (congrArg Journal.result hrefs)
      rw [Journal.bind_ok, Journal.bind_ok]
      unfold ofRefs
      rw [h.resolveAll_eq hpath hext hplain]

end FileImports

/-! ## What a run finds -/

namespace Analysis

variable {clock : Clock} {m : Machine} {d d' : Disk} {root : String} {c : Config} {result : Result}
  {graph : ModuleGraph} {violations : List Violation} {cycles : List ImportCycle} {folder : Entry}
  {files : List String} {p : Project} {results : List (String × FileImports)}

/-- The project of a configuration, with the files that are scanned. -/
def projectOf (d : Disk) (root : String) (c : Config) (files : List String) : Project :=
  Project.ofFiles files c.sourceRoots c.extensions c.aliases (isFile d root)

/-- A file with what it asks for. -/
def importsAt (m : Machine) (p : Project) (folder : Entry) (path : String) :
    Journal FileImports.Fault (String × FileImports) :=
  (path, ·) <$> FileImports.ofContent m p path (contentOf folder path)

/-- What each file asks for. -/
def importsOf (m : Machine) (p : Project) (folder : Entry) (files : List String) :
    Journal FileImports.Fault (List (String × FileImports)) :=
  Journal.all (files.map (importsAt m p folder))

theorem result_importsOf :
    (importsOf m p folder files).result = files.mapM fun path =>
      (path, ·) <$> (FileImports.ofContent m p path (contentOf folder path)).result := by
  show (files.map (importsAt m p folder)).mapM Journal.result = _
  rw [List.mapM_map]
  congr 1
  funext path
  show ((FileImports.ofContent m p path (contentOf folder path)) >>= fun imports =>
    pure (path, imports)).result = _
  rw [Journal.result_bind]
  cases (FileImports.ofContent m p path (contentOf folder path)).result <;> rfl

theorem paths_results (h : (importsOf m p folder files).result = .ok results) :
    results.map (·.1) = files := by
  rw [result_importsOf, mapM_eq_ok_iff] at h
  induction h with
  | nil => rfl
  | @cons path result _ _ hresult _ ih =>
    cases himports : (FileImports.ofContent m p path (contentOf folder path)).result with
    | error fault =>
      rw [himports] at hresult
      cases hresult
    | ok imports =>
      rw [himports] at hresult
      rw [List.map_cons, ih, ← Except.ok.inj hresult]

/-- The files of a run stand in their order, and each is finished once. -/
theorem ofFinished_results (hfiles : Scan.sourceFiles (selection c) folder = .ok files)
    (h : (importsOf m p folder files).result = .ok results) :
    ModuleGraph.ofFinished files results = ModuleGraph.ofImports results := by
  obtain ⟨sources, hsources, hfiles⟩ := bind_eq_ok_iff.1 hfiles
  obtain ⟨found, -, hfiles⟩ := bind_eq_ok_iff.1 hfiles
  have hsorted : StrictlySorted files := Except.ok.inj hfiles ▸ strictlySorted_sortedDistinct _
  rw [ModuleGraph.ofFinished, ModuleGraph.inOrder_eq_self hsorted.nodup (paths_results h)]

/-- The run over the project finds this graph, these violations and these cycles. -/
structure Finds (m : Machine) (d : Disk) (root : String) (c : Config) (graph : ModuleGraph)
    (violations : List Violation) (cycles : List ImportCycle) : Prop where
  imports : ∃ folder files results, rootFolder d root = .ok folder ∧
    Scan.sourceFiles (selection c) folder = .ok files ∧
      (importsOf m (projectOf d root c files) folder files).result = .ok results ∧
        graph = (ModuleGraph.ofImports results).classified c.layers
  violations : Policy.violations? c.layers graph = some violations
  cycles : graph.importCycles = .ok cycles

/-- The platform can time the wait for files that are still being read. -/
def CanWait (clock : Clock) (c : Config) : Prop :=
  clock.waiting.any (⟨c.timeout⟩ : Budget).isUntimed = false

/-- The time of a run is never spent, and the platform can time its wait. -/
structure InTime (clock : Clock) (c : Config) : Prop where
  unspent : ∀ stage, (⟨c.timeout⟩ : Budget).isSpent (clock.elapsed stage) = false
  canWait : CanWait clock c

/-- Without a limit, every run is in time. -/
theorem inTime_of_unlimited (h : c.timeout = none) : InTime clock c where
  unspent stage := by
    rw [h]
    rfl
  canWait := by
    unfold CanWait
    rw [h]
    cases clock.waiting <;> rfl

theorem checkpoint_eq_ok_iff {budget : Budget} {stage : Stage} {u : Unit} :
    (checkpoint clock budget stage).result = .ok u ↔
      budget.isSpent (clock.elapsed stage) = false := by
  unfold checkpoint Budget.check
  rw [Journal.result_ofExcept_eq_ok_iff]
  cases budget.isSpent (clock.elapsed stage) with
  | true => exact iff_of_false nofun nofun
  | false => exact iff_of_true rfl rfl

theorem result_await : (await clock ⟨c.timeout⟩).result =
    if clock.waiting.any (⟨c.timeout⟩ : Budget).isUntimed then .error .hugeWait else .ok () := by
  unfold await
  split <;> rfl

theorem await_eq_ok_iff {u : Unit} : (await clock ⟨c.timeout⟩).result = .ok u ↔ CanWait clock c := by
  rw [result_await, CanWait]
  cases clock.waiting.any (⟨c.timeout⟩ : Budget).isUntimed with
  | true => exact iff_of_false nofun nofun
  | false => exact iff_of_true rfl rfl

theorem moduleGraph_eq_ok_iff : (moduleGraph clock m d root c).result = .ok graph ↔
    (⟨c.timeout⟩ : Budget).isSpent (clock.elapsed .discover) = false ∧ CanWait clock c ∧
      (⟨c.timeout⟩ : Budget).isSpent (clock.elapsed .parse) = false ∧
        ∃ folder files results, rootFolder d root = .ok folder ∧
          Scan.sourceFiles (selection c) folder = .ok files ∧
            (importsOf m (projectOf d root c files) folder files).result = .ok results ∧
              graph = ModuleGraph.ofImports results := by
  unfold moduleGraph
  simp only [Journal.result_bind_eq_ok_iff, Journal.result_ofExcept_eq_ok_iff,
    Journal.result_mapError_eq_ok_iff, Journal.result_note_eq_ok_iff, Journal.result_pure_eq_ok_iff,
    checkpoint_eq_ok_iff, await_eq_ok_iff, exists_const, true_and]
  constructor
  · rintro ⟨folder, hfolder, files, hfiles, hdiscover, hwait, results, hresults, hparse, rfl⟩
    exact ⟨hdiscover, hwait, hparse, folder, files, results, hfolder, hfiles, hresults,
      ofFinished_results hfiles hresults⟩
  · rintro ⟨hdiscover, hwait, hparse, folder, files, results, hfolder, hfiles, hresults, rfl⟩
    exact ⟨folder, hfolder, files, hfiles, hdiscover, hwait, results, hresults, hparse,
      ofFinished_results hfiles hresults⟩

/-- A run comes to a result if its time is not spent and every stage comes to one. -/
theorem run_eq_ok_iff : (run clock m d root c).result = .ok result ↔
    InTime clock c ∧ Finds m d root c result.graph result.violations result.cycles ∧
      result.report = Report.ofFindings result.graph result.violations result.cycles c.gate := by
  unfold run
  simp only [Journal.result_bind_eq_ok_iff (j := moduleGraph clock m d root c), moduleGraph_eq_ok_iff]
  constructor
  · rintro ⟨graph, ⟨hdiscover, hwait, hparse, folder, files, results, hfolder, hfiles, hresults, rfl⟩, hrest⟩
    cases hviolations :
        Policy.violations? c.layers ((ModuleGraph.ofImports results).classified c.layers) with
    | none =>
      rw [hviolations] at hrest
      cases hrest
    | some violations =>
      rw [hviolations] at hrest
      simp only [Journal.result_bind_eq_ok_iff, Journal.result_ofExcept_eq_ok_iff,
        Journal.result_note_eq_ok_iff, Journal.result_pure_eq_ok_iff, checkpoint_eq_ok_iff,
        exists_const, true_and, exists_eq_left'] at hrest
      obtain ⟨hpolicy, cycles, hcycles, hlast, rfl⟩ := hrest
      refine ⟨⟨?_, hwait⟩, ⟨⟨folder, files, results, hfolder, hfiles, hresults, rfl⟩, hviolations,
        hcycles⟩, rfl⟩
      intro stage
      cases stage with
      | discover => exact hdiscover
      | parse => exact hparse
      | policy => exact hpolicy
      | cycles => exact hlast
  · rintro ⟨htime, ⟨⟨folder, files, results, hfolder, hfiles, hresults, hgraph⟩, hviolations, hcycles⟩,
      hreport⟩
    refine ⟨_, ⟨htime.unspent .discover, htime.canWait, htime.unspent .parse, folder, files, results,
      hfolder, hfiles, hresults, rfl⟩, ?_⟩
    rw [← hgraph, hviolations]
    simp only [Journal.result_bind_eq_ok_iff, Journal.result_ofExcept_eq_ok_iff,
      Journal.result_note_eq_ok_iff, Journal.result_pure_eq_ok_iff, checkpoint_eq_ok_iff,
      exists_const, true_and, exists_eq_left']
    refine ⟨htime.unspent .policy, result.cycles, hcycles, htime.unspent .cycles, ?_⟩
    rw [← hreport]

end Analysis

end LayerGate
