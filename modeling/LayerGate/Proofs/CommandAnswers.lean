import Mathlib
import LayerGate.Proofs.StoredReport
import LayerGate.Proofs.Undisturbed

/-!
# What commands come by

A command gives its answer just if each of its steps does.  What each of them has to come by for that is
said once here.
-/

namespace LayerGate.CommandLine

variable {s : Surroundings} {d : Disk} {scope : Scope} {root path file : String} {c : Config}
  {j : Journal Fault Answer} {answer : Answer}

/-! ## Answers that report -/

/-- The answer of a command that came to its end, with or without findings. -/
def Answer.IsReport (answer : Answer) : Prop := answer.exit = .pass ∨ answer.exit = .findings

theorem exitFor?_ne {fault : Fault} {code : ExitCode} (h : exitFor? fault = some code) :
    code = .error ∨ code = .timeout := by
  cases fault <;> cases h
  all_goals first | exact .inl rfl | exact .inr rfl

/-- The answer to a fault that is told as an error. -/
def Answer.ofFault (d : Disk) (code : ExitCode) (fault : Fault) : Answer :=
  ⟨code, "", lines ["error: " ++ fault.message], d⟩

/-- A command's own answer stays, and a fault that is told as an error becomes one. -/
theorem settle_cases_iff : (settle d j).result = .ok answer ↔
    j.result = .ok answer ∨ ∃ fault code, j.result = .error fault ∧ exitFor? fault = some code ∧
      answer = .ofFault d code fault := by
  unfold settle
  cases hresult : j.result with
  | ok found =>
    simp only [hresult]
    refine (or_iff_left ?_).symm
    rintro ⟨fault, code, herror, -⟩
    cases herror
  | error fault =>
    simp only [Except.error.injEq, reduceCtorEq, false_or]
    cases hcode : exitFor? fault with
    | none =>
      simp only [hresult]
      refine iff_of_false nofun ?_
      rintro ⟨fault', code, rfl, hcode', -⟩
      rw [hcode] at hcode'
      cases hcode'
    | some code =>
      constructor
      · intro h
        exact ⟨fault, code, rfl, hcode, (Except.ok.inj h).symm⟩
      · rintro ⟨fault', code', rfl, hcode', rfl⟩
        obtain rfl := Option.some.inj (hcode.symm.trans hcode')
        rfl

/-- A fault that is told as an error is no report. -/
theorem settle_eq_ok_iff (h : answer.IsReport) :
    (settle d j).result = .ok answer ↔ j.result = .ok answer := by
  rw [settle_cases_iff, or_iff_left]
  rintro ⟨fault, code, -, hcode, rfl⟩
  rcases exitFor?_ne hcode with rfl | rfl
  · exact h.elim nofun nofun
  · exact h.elim nofun nofun

/-! ## The configuration -/

/-- A configuration is loaded, and the command line may give it another time. -/
theorem configuration_eq_ok_iff : configuration s d root scope = .ok c ↔
    ∃ folder asked loaded, Analysis.rootFolder d root = .ok folder ∧
      scope.config.mapM (s.resolve d) = .ok asked ∧ Config.load s.machine d root asked = .ok loaded ∧
        (∀ x, scope.timeout = some x → ¬ x ≤ 0) ∧
          c = { loaded with timeout := scope.timeout.or loaded.timeout } := by
  unfold configuration
  simp only [bind_eq_ok_iff]
  constructor
  · rintro ⟨folder, hfolder, asked, hasked, loaded, hloaded, htimeout⟩
    refine ⟨folder, asked, loaded, hfolder, hasked, hloaded, ?_⟩
    cases htime : scope.timeout with
    | none =>
      rw [htime] at htimeout
      exact ⟨nofun, (Except.ok.inj htimeout).symm⟩
    | some x =>
      rw [htime] at htimeout
      simp only at htimeout
      split at htimeout
      · cases htimeout
      · rename_i hpositive
        refine ⟨?_, (Except.ok.inj htimeout).symm⟩
        rintro y hy
        obtain rfl := Option.some.inj hy
        exact hpositive
  · rintro ⟨folder, asked, loaded, hfolder, hasked, hloaded, hpositive, rfl⟩
    refine ⟨folder, hfolder, asked, hasked, loaded, hloaded, ?_⟩
    cases htime : scope.timeout with
    | none => rfl
    | some x => exact if_neg (hpositive x htime)

/-! ## What `check` reports -/

/-- The gate with the blocking reasons of a command line. -/
def gateWith (blocking : Option (List Reason)) (gate : Gate) : Gate :=
  match blocking with
  | some reasons => { gate with blocking := reasons }
  | none => gate

/-- What `check` finds: the run over the project under the configuration, with the blocking reasons of
the command line. -/
def Builds (s : Surroundings) (d : Disk) (scope : Scope) (blocking : Option (List Reason))
    (result : Analysis.Result) : Prop :=
  ∃ root c, s.resolve d scope.root = .ok root ∧ configuration s d root scope = .ok c ∧
    (Analysis.run s.clock s.machine d root { c with gate := gateWith blocking c.gate }).result = .ok result

/-- The payload goes into the file that was named, or else it is the output. -/
def Delivers (s : Surroundings) (d : Disk) (exit : ExitCode) (payload : String) (answer : Answer) :
    Option String → Prop
  | none => answer = ⟨exit, payload, "", d⟩
  | some file => ∃ path disk, store s d file payload = .ok (path, disk) ∧ answer = ⟨exit, "", "", disk⟩

/-- What `check` comes by for its answer. -/
theorem check_answers_iff {format : Format} {blocking : Option (List Reason)} {output : Option String} :
    (check s d scope format blocking output).result = .ok answer ↔
      ∃ result payload, Builds s d scope blocking result ∧
        reportText format result.report = .ok payload ∧
          Delivers s d (if result.report.passed then .pass else .findings) payload answer output := by
  unfold check
  simp only [Journal.result_bind_eq_ok_iff, Journal.result_ofExcept_eq_ok_iff]
  constructor
  · rintro ⟨root, hroot, c, hconfig, result, hrun, payload, hpayload, hdelivers⟩
    refine ⟨result, payload, ⟨root, c, hroot, hconfig, ?_⟩, hpayload, ?_⟩
    · cases blocking <;> exact hrun
    · cases output with
      | none => exact (Except.ok.inj hdelivers).symm
      | some file =>
        simp only [Journal.result_bind_eq_ok_iff, Journal.result_ofExcept_eq_ok_iff,
          Journal.result_pure_eq_ok_iff] at hdelivers
        obtain ⟨⟨path, disk⟩, hstore, -, -, rfl⟩ := hdelivers
        exact ⟨path, disk, hstore, rfl⟩
  · rintro ⟨result, payload, ⟨root, c, hroot, hconfig, hrun⟩, hpayload, hdelivers⟩
    refine ⟨root, hroot, c, hconfig, result, ?_, payload, hpayload, ?_⟩
    · cases blocking <;> exact hrun
    · cases output with
      | none =>
        obtain rfl : answer = _ := hdelivers
        rfl
      | some file =>
        obtain ⟨path, disk, hstore, rfl⟩ := hdelivers
        simp only [Journal.result_bind_eq_ok_iff, Journal.result_ofExcept_eq_ok_iff,
          Journal.result_note_eq_ok_iff, Journal.result_pure_eq_ok_iff]
        exact ⟨(path, disk), hstore, (), trivial, rfl⟩

theorem structuredText_eq_ok_iff {report : Report} {text : String} :
    structuredText report = .ok text ↔ report.structured? = some text := by
  unfold structuredText
  cases report.structured? with
  | none => exact iff_of_false nofun nofun
  | some found =>
    exact ⟨fun h => congrArg some (Except.ok.inj h), fun h => congrArg Except.ok (Option.some.inj h)⟩

/-- What `check` comes by when it stores a structured report. -/
theorem check_eq_ok_iff {blocking : Option (List Reason)} :
    (check s d scope .structured blocking (some file)).result = .ok answer ↔
      ∃ root c result text path disk, s.resolve d scope.root = .ok root ∧
        configuration s d root scope = .ok c ∧
          (Analysis.run s.clock s.machine d root { c with gate := gateWith blocking c.gate }).result =
              .ok result ∧
            result.report.structured? = some text ∧ store s d file text = .ok (path, disk) ∧
              answer = ⟨if result.report.passed then .pass else .findings, "", "", disk⟩ := by
  rw [check_answers_iff]
  constructor
  · rintro ⟨result, text, ⟨root, c, hroot, hconfig, hrun⟩, htext, path, disk, hstore, hanswer⟩
    exact ⟨root, c, result, text, path, disk, hroot, hconfig, hrun, structuredText_eq_ok_iff.1 htext,
      hstore, hanswer⟩
  · rintro ⟨root, c, result, text, path, disk, hroot, hconfig, hrun, htext, hstore, hanswer⟩
    exact ⟨result, text, ⟨root, c, hroot, hconfig, hrun⟩, structuredText_eq_ok_iff.2 htext, path, disk,
      hstore, hanswer⟩

/-! ## What `path` searches -/

/-- What `path` comes by: the module graph of the project under the configuration. -/
def Draws (s : Surroundings) (d : Disk) (scope : Scope) (graph : ModuleGraph) : Prop :=
  ∃ root c, s.resolve d scope.root = .ok root ∧ configuration s d root scope = .ok c ∧
    (Analysis.moduleGraph s.clock s.machine d root c).result = .ok graph

section

variable {graph : ModuleGraph} {source target : String} {i j : Nat}

/-- What `path` answers about two files of the graph. -/
theorem path_result (h : Draws s d scope graph) (hi : graph.position? source = some i)
    (hj : graph.position? target = some j) :
    (CommandLine.path s d scope (some source) (some target)).result =
      ((graph.chain? i j).mapError Fault.graph).map fun
        | some chain => ⟨.pass, lines [" -> ".intercalate chain], "", d⟩
        | none => ⟨.findings, lines ["no import path from " ++ source ++ " to " ++ target], "", d⟩ := by
  obtain ⟨root, c, hroot, hconfig, hgraph⟩ := h
  cases hjournal : Analysis.moduleGraph s.clock s.machine d root c with
  | mk notes outcome =>
    rw [hjournal] at hgraph
    obtain rfl : outcome = .ok graph := hgraph
    simp only [CommandLine.path, hroot, hconfig, hjournal, hi, hj, Journal.ofExcept, Journal.bind_ok]
    cases graph.chain? i j with
    | error fault => rfl
    | ok chain =>
      cases chain with
      | none => rfl
      | some chain => rfl

/-- Where one of the two is no file of the graph, `path` says which. -/
theorem path_unknown (h : Draws s d scope graph)
    (hunknown : graph.position? source = none ∨ graph.position? target = none) :
    (CommandLine.path s d scope (some source) (some target)).result = .ok ⟨.error, "",
      lines (([source, target].filter fun file => (graph.position? file).isNone).map fun file =>
        "error: " ++ file ++ " is not an analyzed project file"), d⟩ := by
  obtain ⟨root, c, hroot, hconfig, hgraph⟩ := h
  cases hjournal : Analysis.moduleGraph s.clock s.machine d root c with
  | mk notes outcome =>
    rw [hjournal] at hgraph
    obtain rfl : outcome = .ok graph := hgraph
    simp only [CommandLine.path, hroot, hconfig, hjournal, Journal.ofExcept, Journal.bind_ok]
    rcases hunknown with hnone | hnone
    · rw [hnone]
      rfl
    · rw [hnone]
      cases graph.position? source with
      | none => rfl
      | some i => rfl

end

/-! ## What `verify` accepts -/

/-- Whoever passes has found a file, says nothing and leaves the disk alone. -/
theorem of_verify_eq_ok (h : (verify s d scope file).result = .ok answer) (hpass : answer.exit = .pass) :
    answer = ⟨.pass, "", "", d⟩ ∧ ∃ path stored, s.resolve d file = .ok path ∧
      d.find? [] path = .ok (some (.file stored)) := by
  unfold verify at h
  simp only [Journal.result_bind_eq_ok_iff, Journal.result_ofExcept_eq_ok_iff] at h
  obtain ⟨root, -, c, -, path, hpath, found, hfind, h⟩ := h
  split at h
  · rename_i stored
    simp only [Journal.result_bind_eq_ok_iff, Journal.result_ofExcept_eq_ok_iff] at h
    obtain ⟨result, -, fresh, -, h⟩ := h
    refine ⟨?_, path, stored, hpath, hfind⟩
    split at h
    · exact (Except.ok.inj h).symm
    · obtain rfl := Except.ok.inj h
      cases hpass
  · obtain rfl := Except.ok.inj h
    cases hpass
  · obtain rfl := Except.ok.inj h
    cases hpass

theorem passes_iff_result :
    Passes s d scope file ↔ (verify s d scope file).result = .ok ⟨.pass, "", "", d⟩ := by
  constructor
  · rintro ⟨answer, h, hpass⟩
    rw [← (of_verify_eq_ok h hpass).1]
    exact h
  · intro h
    exact ⟨_, h, rfl⟩

/-- The path of an accepted report is no longer than a path may be. -/
theorem size_le_of_passes (hfile : s.resolve d file = .ok path) (h : Passes s d scope file) :
    path.utf8ByteSize ≤ Disk.pathLimit := by
  obtain ⟨answer, hresult, hpass⟩ := h
  obtain ⟨-, found, stored, hfound, hfind⟩ := of_verify_eq_ok hresult hpass
  obtain rfl := Except.ok.inj (hfile.symm.trans hfound)
  obtain ⟨-, there, hlocate, -⟩ := Disk.find?_eq_some_iff.1 hfind
  exact (Disk.locate_eq_ok_iff.1 hlocate).1

/-- What it does not accept, it tells apart from its own report. -/
theorem verify_differs {stored : ByteArray} {fresh : Report} {text : String}
    (h : Compares s d scope file stored fresh) (hfresh : fresh.structured? = some text)
    (hne : stored ≠ text.toUTF8) :
    ∃ errors, (verify s d scope file).result = .ok ⟨.findings, "", errors, d⟩ := by
  obtain ⟨path, -, hresult⟩ := verify_result h
  rw [hresult, structuredText_eq_ok_iff.2 hfresh]
  cases hverdict : Verification.ofStored path stored text with
  | reproduced => exact absurd (Verification.ofStored_eq_reproduced.1 hverdict) hne
  | differs found =>
    refine ⟨lines found, ?_⟩
    simp only [Except.map, hverdict]

end LayerGate.CommandLine
