import LayerGate.Proofs.RecordOrder

/-!
# What a report accounts for

A report has one record for each broken import, violation and cycle that can be told apart, and no
other.  Its records increase strictly, and its totals and its verdict are those of the records.
-/

namespace LayerGate.Report

variable {graph : ModuleGraph} {layers : Layers} {gate : Gate} {found violations : List Violation}
  {cycles : List ImportCycle}

/-- What a report owes to the findings of a graph. -/
structure Complete (gate : Gate) (graph : ModuleGraph) (violations : List Violation)
    (cycles : List ImportCycle) (report : Report) : Prop where
  /-- One record for each node, candidate and specifier of a broken import. -/
  broken : ∀ n ∈ graph.nodes, ∀ b ∈ n.broken, ∃! r, r ∈ report.records ∧
    r.reason = .brokenImport ∧ r.sourcePath = n.path ∧ r.targetPath = b.candidate ∧
      r.specifier = some b.specifier
  /-- One record for each reason, source and target of a violation. -/
  violation : ∀ v ∈ violations, ∃! r, r ∈ report.records ∧
    r.reason = v.reason ∧ r.sourcePath = v.sourcePath ∧ r.targetPath = v.targetPath
  /-- One record for the paths of each cycle. -/
  cycle : ∀ c ∈ cycles, ∃! r, r ∈ report.records ∧ r.reason = .cycle ∧ r.cycle = c.paths
  /-- Every record is that of a broken import, of a violation or of a cycle. -/
  only : ∀ r ∈ report.records, Reported gate graph.nodes.toList violations cycles r
  /-- The specifier is the least of the violations that the record stands for. -/
  least : ∀ r ∈ report.records, ∀ v ∈ violations, r.reason = v.reason →
    r.sourcePath = v.sourcePath → r.targetPath = v.targetPath →
      specifierText r ≤ v.specifier.getD ""
  ordered : report.records.Pairwise fun a b => order gate a b = .lt
  total : report.summary.violationCount + report.summary.cycleCount = report.records.length
  violationCount : report.summary.violationCount = report.records.countP (·.reason ≠ .cycle)
  cycleCount : report.summary.cycleCount = report.records.countP (·.reason = .cycle)
  brokenImportCount :
    report.summary.brokenImportCount = report.records.countP (·.reason = .brokenImport)
  verdict : report.summary.verdict = .fail ↔ ∃ r ∈ report.records, r.severity = .error

/-! ## Finding the records -/

/-- A record of a broken import is known from its node and its specifier. -/
theorem Reported.eq_of_broken (h : Reportable layers graph violations cycles) {r : Record} {n : Node}
    {b : BrokenImport} (hn : n ∈ graph.nodes)
    (hb : n.broken.find? (·.specifier = b.specifier) = some b)
    (hr : Reported gate graph.nodes.toList violations cycles r) (hreason : r.reason = .brokenImport)
    (hsource : r.sourcePath = n.path) (hspecifier : r.specifier = some b.specifier) :
    r = (brokenEntry gate n b).2 := by
  cases hr with
  | @broken m c hm hc =>
    obtain rfl := h.graph.node_eq (Array.mem_toList_iff.1 hm) hn hsource
    have hsame : c.specifier = b.specifier := Option.some_inj.1 hspecifier
    rw [hsame, hb, Option.some_inj] at hc
    rw [hc]
  | violation hv => exact absurd hreason (h.reason_ne hv.1).1
  | cycle hc => cases hreason

/-- A record of a violation is known from its reason and its two files. -/
theorem Reported.eq_of_violation (h : Reportable layers graph violations cycles) {r : Record}
    {v : Violation} (hv : Foremost violations v)
    (hr : Reported gate graph.nodes.toList violations cycles r) (hreason : r.reason = v.reason)
    (hsource : r.sourcePath = v.sourcePath) (htarget : r.targetPath = v.targetPath) :
    r = (violationEntry gate v).2 := by
  obtain ⟨found, hfound, hsub⟩ := h.violations
  cases hr with
  | broken hm hc => exact absurd hreason.symm (h.reason_ne hv.1).1
  | @violation w hw =>
    -- Both are foremost, so neither specifier is above the other.
    have hle : w.specifier.getD "" ≤ v.specifier.getD "" :=
      hw.2 v hv.1 hreason.symm hsource.symm htarget.symm
    rw [hv.eq_of_le h.graph.paths hfound hsub hw.1 hreason hsource htarget hle]
  | cycle hc => exact absurd hreason.symm (h.reason_ne hv.1).2

/-- A record of a cycle is known from its files. -/
theorem Reported.eq_of_cycle (h : Reportable layers graph violations cycles) {r : Record}
    {c : ImportCycle} (hr : Reported gate graph.nodes.toList violations cycles r)
    (hreason : r.reason = .cycle) (hcycle : r.cycle = c.paths) : r = (cycleEntry gate c).2 := by
  cases hr with
  | broken hm hb => cases hreason
  | violation hv => exact absurd hreason (h.reason_ne hv.1).2
  | @cycle d hd =>
    obtain ⟨hfirst, hrest⟩ := List.cons.inj hcycle
    cases c
    cases d
    simp_all

/-- Of the violations with one reason between two files, one is foremost. -/
theorem exists_foremost (gate : Gate) {v : Violation} (hv : v ∈ violations) :
    ∃ w, Foremost violations w ∧ w.reason = v.reason ∧ w.sourcePath = v.sourcePath ∧
      w.targetPath = v.targetPath := by
  -- It is the one that merging the violations alone keeps.
  obtain ⟨e, he, hkey⟩ := exists_kept (List.mem_map_of_mem (f := violationEntry gate) hv)
  obtain ⟨w, hw, rfl⟩ := List.mem_map.1 he.mem
  refine ⟨w, ⟨hw, fun u hu hreason hsource htarget => ?_⟩, congrArg Key.reason hkey,
    congrArg Key.source hkey, congrArg Key.last hkey⟩
  have hsame : (violationEntry gate u).1 = (violationEntry gate w).1 := by
    simp only [violationEntry, hreason, hsource, htarget]
  exact he.least (List.mem_map_of_mem hu) hsame

/-! ## The summary -/

/-- What is no cycle is counted as a violation. -/
theorem length_sub_countP_cycle (records : List Record) :
    (records.length : Int) - records.countP (·.reason = .cycle) =
      records.countP (·.reason ≠ .cycle) := by
  have hsplit : records.length =
      records.countP (·.reason = .cycle) + records.countP (·.reason ≠ .cycle) := by
    rw [List.length_eq_countP_add_countP fun r : Record => decide (r.reason = .cycle)]
    simp
  omega

theorem severity_eq_error_iff {r : Record}
    (hr : Reported gate graph.nodes.toList violations cycles r) :
    r.severity = .error ↔ gate.blocks r.reason = true := by
  have hseverity : r.severity = severityOf gate r.reason := by
    cases hr <;> rfl
  rw [hseverity, severityOf]
  split <;> simp_all

/-- The verdict is to fail just if a record is an error. -/
theorem verdict_ofFindings_eq_fail_iff (h : Reportable layers graph violations cycles) :
    (ofFindings graph violations cycles gate).summary.verdict = .fail ↔
      ∃ r ∈ (ofFindings graph violations cycles gate).records, r.severity = .error := by
  have hverdict : (ofFindings graph violations cycles gate).summary.verdict = .fail ↔
      ∃ r ∈ (ofFindings graph violations cycles gate).records, gate.blocks r.reason = true := by
    show verdictOf gate (ofFindings graph violations cycles gate).records = .fail ↔ _
    rw [verdictOf, ← List.any_eq_true]
    split <;> simp_all
  rw [hverdict]
  apply exists_congr
  intro r
  apply and_congr_right
  intro hr
  exact (severity_eq_error_iff ((mem_records_iff h).1 hr)).symm

/-! ## The whole report -/

/-- Where findings can be told apart, a report accounts for each of them, and for nothing else. -/
theorem ofFindings_complete {document : Value} (hgate : Config.gateSchema document = .valid gate)
    (hgraph : graph.Distinguished) (hfound : Policy.violations? layers graph = some found)
    (hviolations : ∀ v ∈ violations, v ∈ found) (hcycles : ∀ c ∈ cycles, c.Plain) :
    Complete gate graph violations cycles (ofFindings graph violations cycles gate) := by
  have hok := Gate.orderIsComplete_of_schema hgate
  have h : Reportable layers graph violations cycles :=
    ⟨hgraph, ⟨found, hfound, hviolations⟩, hcycles⟩
  refine
    { broken := ?_, violation := ?_, cycle := ?_, only := fun r hr => (mem_records_iff h).1 hr,
      least := ?_, ordered := pairwise_records hok h, total := ?_, violationCount := ?_,
      cycleCount := rfl, brokenImportCount := rfl, verdict := ?_ }
  · intro n hn b hb
    -- The record is that of the first broken import with the specifier, which has its candidate.
    obtain ⟨c, hc, hspecifier, hfirst⟩ := exists_first_broken hb
    have hcandidate : c.candidate = b.candidate := hgraph.candidates n hn c hc b hb hspecifier
    have hrecord : Reported gate graph.nodes.toList violations cycles (brokenEntry gate n c).2 :=
      .broken (Array.mem_toList_iff.2 hn) hfirst
    refine ⟨(brokenEntry gate n c).2, ⟨(mem_records_iff h).2 hrecord, rfl, rfl, hcandidate,
      congrArg some hspecifier⟩, ?_⟩
    rintro r ⟨hr, hreason, hsource, -, hrspecifier⟩
    rw [← hspecifier] at hrspecifier
    exact ((mem_records_iff h).1 hr).eq_of_broken h hn hfirst hreason hsource hrspecifier
  · intro v hv
    obtain ⟨w, hw, hreason, hsource, htarget⟩ := exists_foremost gate hv
    refine ⟨(violationEntry gate w).2, ⟨(mem_records_iff h).2 (.violation hw), hreason, hsource,
      htarget⟩, ?_⟩
    rintro r ⟨hr, hr₁, hr₂, hr₃⟩
    exact ((mem_records_iff h).1 hr).eq_of_violation h hw (hr₁.trans hreason.symm)
      (hr₂.trans hsource.symm) (hr₃.trans htarget.symm)
  · intro c hc
    refine ⟨(cycleEntry gate c).2, ⟨(mem_records_iff h).2 (.cycle hc), rfl, rfl⟩, ?_⟩
    rintro r ⟨hr, hreason, hcycle⟩
    exact ((mem_records_iff h).1 hr).eq_of_cycle h hreason hcycle
  · intro r hr v hv hreason hsource htarget
    obtain ⟨w, hw, hreason', hsource', htarget'⟩ := exists_foremost gate hv
    have hrw : r = (violationEntry gate w).2 :=
      ((mem_records_iff h).1 hr).eq_of_violation h hw (hreason.trans hreason'.symm)
        (hsource.trans hsource'.symm) (htarget.trans htarget'.symm)
    rw [hrw]
    exact hw.2 v hv hreason'.symm hsource'.symm htarget'.symm
  · exact Int.sub_add_cancel _ _
  · exact length_sub_countP_cycle _
  · exact verdict_ofFindings_eq_fail_iff h

/-- Two files that import each other, the first under two names; the second also names a missing file
twice. -/
def tangled : ModuleGraph :=
  ⟨#[⟨"a.py", ["b", "pkg.b"], [], [], some "core"⟩,
      ⟨"b.py", ["a", "c", "c"], [], [⟨"c", 2, some "c.py"⟩, ⟨"c", 3, some "c.py"⟩], some "edge"⟩],
    [⟨0, 1, "pkg.b", 2⟩, ⟨0, 1, "b", 1⟩, ⟨1, 0, "a", 1⟩]⟩

/-- Files of the layer `edge` may import those of `core`, but not the other way round. -/
def tangledLayers : Layers :=
  ⟨[⟨"core", ["a.py"]⟩, ⟨"edge", ["b.py"]⟩], [⟨"edge", ["core"]⟩], .deny⟩

def tangledViolation (specifier : String) : Violation :=
  ⟨.layerBoundary, "a.py", some "b.py", some specifier, "core", some "edge"⟩

theorem tangled_distinguished : tangled.Distinguished := by
  constructor
  · decide
  · simp [tangled]
  · simp [tangled]
  · simp [tangled]

theorem violations?_tangled :
    Policy.violations? tangledLayers tangled =
      some [tangledViolation "b", tangledViolation "pkg.b"] := by
  have hedges : Policy.judgeEdges tangledLayers .deny tangled tangled.edges =
      some [tangledViolation "pkg.b", tangledViolation "b"] := by
    decide +kernel
  have hsorted : sortedDistinct [tangledViolation "pkg.b", tangledViolation "b"] =
      [tangledViolation "b", tangledViolation "pkg.b"] := by
    apply StrictlySorted.eq_sortedDistinct
    · exact List.pairwise_pair.2 (by decide)
    · simp [or_comm]
  have hfiles : Policy.unclassifiedFiles tangled = [] := by
    decide
  have hdeny : tangledLayers.unclassified = .deny := rfl
  rw [Policy.violations?, hdeny, if_pos rfl, hfiles, hedges]
  exact congrArg some hsorted

theorem ofFindings_complete_tangled :
    Config.gateSchema (.table []) = .valid Gate.builtin ∧ tangled.Distinguished ∧
      Policy.violations? tangledLayers tangled =
        some [tangledViolation "b", tangledViolation "pkg.b"] ∧
      (∀ v ∈ [tangledViolation "pkg.b", tangledViolation "b", tangledViolation "pkg.b"],
        v ∈ [tangledViolation "b", tangledViolation "pkg.b"]) ∧
      (∀ c ∈ [ImportCycle.mk "a.py" ["b.py"]], c.Plain) ∧
        Complete .builtin tangled
          [tangledViolation "pkg.b", tangledViolation "b", tangledViolation "pkg.b"]
          [⟨"a.py", ["b.py"]⟩]
          (ofFindings tangled
            [tangledViolation "pkg.b", tangledViolation "b", tangledViolation "pkg.b"]
            [⟨"a.py", ["b.py"]⟩] .builtin) := by
  have hgate : Config.gateSchema (.table []) = .valid Gate.builtin := rfl
  have hsub : ∀ v ∈ [tangledViolation "pkg.b", tangledViolation "b", tangledViolation "pkg.b"],
      v ∈ [tangledViolation "b", tangledViolation "pkg.b"] := by
    decide
  have hplain : ∀ c ∈ [ImportCycle.mk "a.py" ["b.py"]], c.Plain := by
    simp [ImportCycle.Plain, ImportCycle.paths]
  exact ⟨hgate, tangled_distinguished, violations?_tangled, hsub, hplain,
    ofFindings_complete hgate tangled_distinguished violations?_tangled hsub hplain⟩

end LayerGate.Report
