import Mathlib
import LayerGate.Proofs.CommandAnswers
import LayerGate.Proofs.GateChange

/-!
# Checking and then verifying

`verify` runs the analysis that `check` ran, with the gate of the configuration.  So it accepts the
report that `check` stored just if `check` was not told to block other reasons than the configuration,
as far as this shows in the report.
-/

namespace LayerGate

namespace CommandLine

open Disk (Writes)

variable {s : Surroundings} {d d' : Disk} {scope : Scope} {root path file payload : String}
  {position : List String} {content : ByteArray} {c : Config} {answer : Answer}
  {asked : Option String} {folder : Entry}

/-! ## The configuration on the written disk -/

theorem resolve_eq (h : Writes d d' position content) : s.resolve d' path = s.resolve d path := by
  unfold Surroundings.resolve
  simp only [h.destination_eq]

/-- A configuration that the file is not the document of is read as before. -/
theorem load_eq {m : Machine} (h : Writes d d' position content)
    (hpath : d'.locate [] (asked.getD (Config.defaultPath root)) ≠ .ok position) :
    Config.load m d' root asked = Config.load m d root asked := by
  unfold Config.load
  simp only
  rcases h.find?_agree hpath with heq | ⟨new, old, hnew, hold⟩
  · rw [heq]
  · rw [hnew, hold]
    rfl

/-! ## The stored file -/

/-- The report is stored where its path leads from then on. -/
theorem writes_of_store (hformed : d.isWellFormed = true)
    (h : store s d file payload = .ok (path, d')) :
    ∃ position ≠ [], Writes d d' position payload.toUTF8 ∧ d'.isWellFormed = true ∧
      s.resolve d' file = .ok (Disk.absolute position) := by
  obtain ⟨home, hhome, hrest⟩ := bind_eq_ok_iff.1 h
  simp only at hrest
  split at hrest
  · cases hrest
  · rename_i hnul
    rw [String.contains_char_eq, decide_eq_true_eq] at hnul
    obtain ⟨stored, hstored, hpair⟩ := bind_eq_ok_iff.1 hrest
    obtain ⟨-, rfl⟩ := Prod.mk.inj (Except.ok.inj hpair)
    obtain ⟨position, hne, hwrites, hformed', k, harrives⟩ :=
      Disk.writes_of_write hformed hnul (mapError_eq_ok_iff.1 hstored)
    refine ⟨position, hne, hwrites, hformed', ?_⟩
    have hplain : Disk.Arrives stored k (Disk.originOf s.folder home) (Path.names home) position := by
      rw [← Disk.originOf_plain, ← Path.names_plain]
      exact harrives.filter
    have hnul' : home.contains '\x00' = false := by
      rw [String.contains_char_eq, decide_eq_false_iff_not]
      exact fun hmem => hnul (Path.mem_plain_of_mem hmem (by decide) (by decide))
    unfold Surroundings.resolve
    rw [hhome]
    simp only [bind, Except.bind, hnul', Disk.destination_of_arrives hplain]
    rfl

/-! ## The same project again -/

/-- The file is none that a run over the project may come across: it cannot be come to from the folder
at the root, and it is not the configuration that was asked for. -/
structure Apart (s : Surroundings) (d : Disk) (scope : Scope) (file : String) : Prop where
  unreachable : ∀ root path start position, s.resolve d scope.root = .ok root →
    s.resolve d file = .ok path → d.locate [] root = .ok start → d.locate [] path = .ok position →
      ¬ d.Reaches start position
  notConfig : ∀ config asked path position, scope.config = some config →
    s.resolve d config = .ok asked → s.resolve d file = .ok path → d.locate [] path = .ok position →
      d.locate [] asked ≠ .ok position

/-- Two commands are told of one project and one configuration. -/
structure SameProject (scope again : Scope) : Prop where
  root : again.root = scope.root
  config : again.config = scope.config

/-- A report that is stored apart from a project is written aside of it. -/
theorem writtenAside (hwrites : Writes d d' position content) (hne : position ≠ [])
    (hformed : d'.isWellFormed = true) (hfile : s.resolve d' file = .ok (Disk.absolute position))
    (hsize : (Disk.absolute position).utf8ByteSize ≤ Disk.pathLimit)
    (hroot : s.resolve d scope.root = .ok root) (hapart : Apart s d' scope file) :
    Analysis.WrittenAside d d' root position content := by
  refine ⟨hwrites, hformed, fun start hstart => ?_⟩
  rw [← resolve_eq hwrites] at hroot
  exact hapart.unreachable root _ start position hroot hfile hstart
    (Disk.locate_absolute hformed hne hwrites.stored hsize)

/-- The written file is not the configuration of the project. -/
theorem config_ne (h : Analysis.WrittenAside d d' root position content)
    (hroot : Analysis.rootFolder d root = .ok folder)
    (hasked : ∀ path, asked = some path → d'.locate [] path ≠ .ok position) :
    d'.locate [] (asked.getD (Config.defaultPath root)) ≠ .ok position := by
  cases asked with
  | some path => exact hasked path rfl
  | none =>
    intro hlocate
    obtain ⟨-, start, hstart, -⟩ := h.rootFolder_eq hroot
    have hbelow : Config.defaultPath root = Analysis.below root Config.fileName := by
      have hname : Path.names Config.fileName = [Config.fileName] := by decide
      rw [Config.defaultPath, Analysis.below, hname]
    have hinside : Path.IsInside Config.fileName := by
      unfold Path.IsInside
      decide
    rw [Option.getD_none, hbelow] at hlocate
    exact h.unreachable start hstart (Disk.reaches_of_locate hstart hlocate hinside)

/-- The configuration is read as before, up to the time for the run. -/
theorem configuration_again {again : Scope} (h : Analysis.WrittenAside d d' root position content)
    (hconfig : configuration s d root scope = .ok c) (hsame : SameProject scope again)
    (hasked : ∀ config path, scope.config = some config → s.resolve d' config = .ok path →
      d'.locate [] path ≠ .ok position)
    (htimeout : ∀ x, again.timeout = some x → ¬ x ≤ 0) :
    ∃ timeout, configuration s d' root again = .ok { c with timeout := timeout } := by
  obtain ⟨folder, asked, loaded, hfolder, hresolved, hloaded, -, rfl⟩ :=
    configuration_eq_ok_iff.1 hconfig
  have hresolve : s.resolve d' = s.resolve d := funext fun path => resolve_eq h.writes
  have hload : Config.load s.machine d' root asked = Config.load s.machine d root asked := by
    apply load_eq h.writes
    apply config_ne h hfolder
    rintro path rfl
    cases hscope : scope.config with
    | none =>
      rw [hscope] at hresolved
      cases hresolved
    | some config =>
      apply hasked config path hscope
      rw [hscope] at hresolved
      obtain ⟨p, hp, hpath⟩ := bind_eq_ok_iff.1 hresolved
      obtain rfl := Option.some.inj (Except.ok.inj hpath)
      rw [hresolve]
      exact hp
  refine ⟨again.timeout.or loaded.timeout, configuration_eq_ok_iff.2 ?_⟩
  refine ⟨folder, asked, loaded, (h.rootFolder_eq hfolder).1, ?_, hload.trans hloaded, htimeout, rfl⟩
  rw [hsame.config, hresolve]
  exact hresolved

/-! ## What is stored and what is accepted -/

/-- The report is in the file. -/
structure Stored (s : Surroundings) (d : Disk) (file : String) (position : List String)
    (report : Report) : Prop where
  path : s.resolve d file = .ok (Disk.absolute position)
  text : ∃ text, report.structured? = some text ∧ d.at? position = some (.file text.toUTF8)

/-- Without a path that is too long, `verify` comes to compare the report with its own. -/
theorem compares_again {again : Scope} {clock : Clock} {graph : ModuleGraph}
    {violations : List Violation} {cycles : List ImportCycle}
    (h : Analysis.WrittenAside d d' root position content)
    (hroot : s.resolve d scope.root = .ok root) (hsame : SameProject scope again)
    (hconfig : configuration s d' root again = .ok c) (hclock : Analysis.InTime clock c)
    (hfile : s.resolve d' file = .ok (Disk.absolute position)) (hne : position ≠ [])
    (hsize : (Disk.absolute position).utf8ByteSize ≤ Disk.pathLimit)
    (hextensions : ∀ e ∈ c.extensions, Path.NeverClimbs e)
    (hfinds : Analysis.Finds s.machine d root c graph violations cycles) :
    Compares { s with clock } d' again file content (.ofFindings graph violations cycles c.gate) := by
  have hrun : (Analysis.run clock s.machine d' root c).result =
      .ok ⟨graph, violations, cycles, .ofFindings graph violations cycles c.gate⟩ :=
    Analysis.run_eq_ok_iff.2 ⟨hclock, h.finds hextensions hfinds, rfl⟩
  rw [← resolve_eq h.writes, ← hsame.root] at hroot
  exact ⟨root, c, Disk.absolute position, _, hroot, hconfig, hfile,
    Disk.find?_absolute h.isWellFormed hne h.writes.stored hsize, hrun, rfl⟩

/-- Text tells the report that it is the text of. -/
theorem same_text_iff {report fresh : Report} {text : String} (h : report.structured? = some text) :
    (∃ again, fresh.structured? = some again ∧ text.toUTF8 = again.toUTF8) ↔ fresh = report := by
  constructor
  · rintro ⟨again, hfresh, hsame⟩
    obtain rfl := String.toByteArray_inj.1 hsame
    exact Report.structured?_inj hfresh h
  · rintro rfl
    exact ⟨text, h, rfl⟩

/-! ## A file that no layer claims -/

open Report (still projectScope)

/-- A disk with a project and nothing else. -/
def alone (project : List (String × Entry)) : Disk := .folder [("project", .folder project)]

theorem resolve_alone (project : List (String × Entry)) :
    still.resolve (alone project) "project" = .ok "/project" := by cbv

theorem rootFolder_alone (project : List (String × Entry)) :
    Analysis.rootFolder (alone project) "/project" = .ok (.folder project) := by cbv

/-- The disk once a report is stored. -/
def beside (project : List (String × Entry)) (stored : ByteArray) : Disk :=
  .folder [("project", .folder project), ("report.json", .file stored)]

/-- A project of one empty file that no layer claims. -/
def stray : List (String × Entry) := [("a.js", .file .empty)]

def strayGraph : ModuleGraph := ⟨#[⟨"a.js", [], [], [], some unclassifiedTag⟩], []⟩

def strayFile : Violation := ⟨.unclassifiedModule, "a.js", none, none, unclassifiedTag, none⟩

def strayReport (gate : Gate) : Report := .ofFindings strayGraph [strayFile] [] gate

theorem apart_beside {project : List (String × Entry)} {stored : ByteArray}
    (hlinks : Entry.linkCountIn project = 0) :
    Apart still (beside project stored) projectScope "report.json" := by
  have hroot : still.resolve (beside project stored) "project" = .ok "/project" := by cbv
  have hfile : still.resolve (beside project stored) "report.json" = .ok "/report.json" := by cbv
  have hstart : (beside project stored).locate [] "/project" = .ok ["project"] := by cbv
  have hthere : (beside project stored).locate [] "/report.json" = .ok ["report.json"] := by cbv
  have hcount : (beside project stored).linkCount = 0 := by
    show Entry.linkCountIn project + (0 + 0) = 0
    rw [hlinks]
  constructor
  · intro root path start position hr hp hs ht hreaches
    obtain rfl := Except.ok.inj (hroot.symm.trans hr)
    obtain rfl := Except.ok.inj (hfile.symm.trans hp)
    obtain rfl := Except.ok.inj (hstart.symm.trans hs)
    obtain rfl := Except.ok.inj (hthere.symm.trans ht)
    exact absurd (hreaches.prefix_of_linkCount hcount) (by decide)
  · intro config asked path position hconfig
    cases hconfig

theorem finds_stray {d : Disk} {gate : Gate} {timeout : Option Float}
    (hfolder : Analysis.rootFolder d "/project" = .ok (.folder stray)) :
    Analysis.Finds .ample d "/project" { Config.builtin with gate, timeout } strayGraph [strayFile] [] := by
  have hfiles : Scan.sourceFiles (Analysis.selection .builtin) (.folder stray) = .ok ["a.js"] := by
    have hfound : Scan.collectIn (Analysis.selection .builtin) (Scan.ignored []) [] stray =
        .ok [["a.js"]] := rfl
    have hsorted : sortedDistinct ["a.js"] = ["a.js"] := by cbv
    exact bind_eq_ok_iff.2 ⟨[], rfl, bind_eq_ok_iff.2 ⟨_, hfound, congrArg Except.ok hsorted⟩⟩
  have himports : ∀ p : Project, (Analysis.importsOf .ample p (.folder stray) ["a.js"]).result =
      .ok [("a.js", ⟨[], []⟩)] := by
    intro p
    cbv
  have hgraph : strayGraph = (ModuleGraph.ofImports [("a.js", ⟨[], []⟩)]).classified .builtin := by
    cbv
  refine ⟨⟨_, _, _, hfolder, hfiles, himports _, hgraph⟩, ?_, ?_⟩
  · cbv
  · cbv

/-- `check` stores its report on the file. -/
theorem check_stray {blocking : Option (List Reason)} {gate : Gate}
    (hgate : gateWith blocking .builtin = gate)
    (hfits : (strayReport gate).integers.all Report.fits = true) :
    ((Request.check projectScope .structured blocking (some "report.json")).run still
      (alone stray)).result = .ok ⟨if (strayReport gate).passed then .pass else .findings, "", "",
        beside stray (Value.Json.document (strayReport gate).value).toUTF8⟩ := by
  have hconfig : configuration still (alone stray) "/project" projectScope = .ok .builtin := by cbv
  have hstore : ∀ payload, store still (alone stray) "report.json" payload =
      .ok ("report.json", beside stray payload.toUTF8) := by
    intro payload
    cbv
  subst hgate
  apply (settle_eq_ok_iff ?_).2
  · exact check_eq_ok_iff.2 ⟨_, _, ⟨strayGraph, [strayFile], [], _⟩, _, _, _, resolve_alone stray, hconfig,
      Analysis.run_eq_ok_iff.2 ⟨Analysis.inTime_of_unlimited rfl, finds_stray (rootFolder_alone stray), rfl⟩,
      if_pos hfits, hstore _, rfl⟩
  · unfold Answer.IsReport
    split
    · exact .inl rfl
    · exact .inr rfl

/-! ## The report is accepted -/

end CommandLine

end LayerGate
