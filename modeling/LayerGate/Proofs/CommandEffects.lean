import LayerGate.Proofs.CheckThenVerify

/-!
# What commands leave behind

A command that ends with an error has said nothing on its output and left the disk alone.  `check`
gives the verdict of its report as exit code and delivers the report in one piece, either on the output
or into the file that it was told; `verify` and `path` write nothing.
-/

namespace LayerGate.CommandLine

variable {s : Surroundings} {d : Disk} {scope : Scope} {format : Format}
  {blocking : Option (List Reason)} {output : Option String} {file : String} {words : List String}
  {answer : Answer}

/-! ## `check` -/

/-- What holds once `check` has ended. -/
structure CheckEffects (s : Surroundings) (d : Disk) (scope : Scope) (format : Format)
    (blocking : Option (List Reason)) (output : Option String) (answer : Answer) : Prop where
  failed : answer.exit = .error ∨ answer.exit = .timeout → answer.output = "" ∧ answer.disk = d
  /-- Otherwise there is a report, its verdict is the exit code, and its text is the output or else,
  with a file to write, the content of that file and the only change to the disk. -/
  reported : answer.exit = .pass ∨ answer.exit = .findings →
    ∃ result payload, Builds s d scope blocking result ∧ reportText format result.report = .ok payload ∧
      (answer.exit = .pass ↔ result.report.summary.verdict = .pass) ∧
        ((output = none ∧ answer.output = payload ∧ answer.disk = d) ∨
          ∃ file position, output = some file ∧ file ≠ "" ∧ answer.output = "" ∧
            s.resolve answer.disk file = .ok (Disk.absolute position) ∧
              Disk.Writes d answer.disk position payload.toUTF8)

theorem checkEffects_of_fault {code : ExitCode} {fault : Fault} (hcode : exitFor? fault = some code) :
    CheckEffects s d scope format blocking output (.ofFault d code fault) where
  failed _ := ⟨rfl, rfl⟩
  reported h := by
    -- The code is that of an error or of spent time.
    rcases exitFor?_ne hcode with rfl | rfl
    · exact h.elim nofun nofun
    · exact h.elim nofun nofun

theorem checkEffects_of_answer (hformed : d.isWellFormed = true)
    (hfile : ∀ file, output = some file → file ≠ "")
    (h : (check s d scope format blocking output).result = .ok answer) :
    CheckEffects s d scope format blocking output answer := by
  obtain ⟨result, payload, hbuilds, hpayload, hdelivers⟩ := check_answers_iff.1 h
  have hexit : ∀ {code : ExitCode}, code = (if result.report.passed then ExitCode.pass else .findings) →
      (code ≠ .error ∧ code ≠ .timeout) ∧ (code = .pass ↔ result.report.summary.verdict = .pass) := by
    intro code hcode
    by_cases hpassed : result.report.summary.verdict = .pass
    · rw [Report.passed, if_pos (decide_eq_true hpassed)] at hcode
      subst hcode
      exact ⟨by decide, iff_of_true rfl hpassed⟩
    · rw [Report.passed, if_neg (by simpa using hpassed)] at hcode
      subst hcode
      exact ⟨by decide, iff_of_false (by decide) hpassed⟩
  cases output with
  | none =>
    obtain rfl : answer = _ := hdelivers
    obtain ⟨⟨herror, htimeout⟩, hverdict⟩ := hexit rfl
    exact ⟨fun hfailed => absurd hfailed (not_or.2 ⟨herror, htimeout⟩),
      fun _ => ⟨result, payload, hbuilds, hpayload, hverdict, .inl ⟨rfl, rfl, rfl⟩⟩⟩
  | some file =>
    obtain ⟨path, disk, hstore, rfl⟩ := hdelivers
    obtain ⟨⟨herror, htimeout⟩, hverdict⟩ := hexit rfl
    obtain ⟨position, -, hwrites, -, hposition⟩ := writes_of_store hformed hstore
    exact ⟨fun hfailed => absurd hfailed (not_or.2 ⟨herror, htimeout⟩),
      fun _ => ⟨result, payload, hbuilds, hpayload, hverdict,
        .inr ⟨file, position, rfl, hfile file rfl, rfl, hposition, hwrites⟩⟩⟩

/-! ## `verify` and `path` -/

theorem disk_of_verify (h : (verify s d scope file).result = .ok answer) : answer.disk = d := by
  unfold verify at h
  simp only [Journal.result_bind_eq_ok_iff, Journal.result_ofExcept_eq_ok_iff] at h
  obtain ⟨root, -, c, -, path, -, found, -, h⟩ := h
  split at h
  · simp only [Journal.result_bind_eq_ok_iff, Journal.result_ofExcept_eq_ok_iff] at h
    obtain ⟨result, -, fresh, -, h⟩ := h
    split at h
    · obtain rfl := Except.ok.inj h
      rfl
    · obtain rfl := Except.ok.inj h
      rfl
  · obtain rfl := Except.ok.inj h
    rfl
  · obtain rfl := Except.ok.inj h
    rfl

theorem disk_of_path {source target : Option String}
    (h : (path s d scope source target).result = .ok answer) : answer.disk = d := by
  unfold path at h
  simp only [Journal.result_bind_eq_ok_iff, Journal.result_ofExcept_eq_ok_iff] at h
  obtain ⟨root, -, c, -, graph, -, h⟩ := h
  split at h
  · split at h
    · simp only [Journal.result_bind_eq_ok_iff, Journal.result_ofExcept_eq_ok_iff] at h
      obtain ⟨chain, -, h⟩ := h
      split at h
      · obtain rfl := Except.ok.inj h
        rfl
      · obtain rfl := Except.ok.inj h
        rfl
    · obtain rfl := Except.ok.inj h
      rfl
  · cases h

/-- A command that writes nothing of itself leaves the disk alone. -/
theorem disk_of_settle {j : Journal Fault Answer} (hown : j.result = .ok answer → answer.disk = d)
    (h : (settle d j).result = .ok answer) : answer.disk = d := by
  rcases settle_cases_iff.1 h with hanswer | ⟨fault, code, -, -, rfl⟩
  · exact hown hanswer
  · rfl

/-! ## Command lines -/

/-- An empty name of a file to write counts as none. -/
theorem output_ne_empty
    (h : Request.ofWords words = .ok (.check scope format blocking (some file))) : file ≠ "" := by
  obtain ⟨call, -, hrest⟩ := bind_eq_ok_iff.1 h
  obtain ⟨arguments, -, hrequest⟩ := bind_eq_ok_iff.1 hrest
  split at hrequest
  · have hsame := Except.ok.inj hrequest
    cases hcommand : call.command with
    | check =>
      rw [hcommand, Arguments.request, Request.check.injEq] at hsame
      obtain ⟨text, -, htext⟩ := Option.bind_eq_some_iff.1 hsame.2.2.2
      unfold nonempty? at htext
      split at htext
      · cases htext
      · rename_i hne
        obtain rfl := Option.some.inj htext
        exact hne
    | verify =>
      rw [hcommand] at hsame
      cases hsame
    | path =>
      rw [hcommand] at hsame
      cases hsame
  · cases hrequest

/-- What holds once a command has ended. -/
def Effects (s : Surroundings) (d : Disk) (answer : Answer) : Request → Prop
  | .check scope format blocking output => CheckEffects s d scope format blocking output answer
  | .verify _ _ | .path _ _ _ => answer.disk = d

/-- Whatever the disk, the surroundings and the command line: if the command gives an answer at all, it
has had just these effects. -/
theorem effects_of_run {j : Run Answer} (hformed : d.isWellFormed = true) (hrun : run s d words = .ok j)
    (hanswer : j.result = .ok answer) :
    ∃ request, Request.ofWords words = .ok request ∧ Effects s d answer request := by
  obtain ⟨request, hrequest, hj⟩ := bind_eq_ok_iff.1 hrun
  obtain rfl : request.run s d = j := Except.ok.inj hj
  refine ⟨request, hrequest, ?_⟩
  -- The notes that are shown do not touch the answer.
  cases request with
  | check scope format blocking output =>
    rcases settle_cases_iff.1 hanswer with hown | ⟨fault, code, -, hcode, rfl⟩
    · refine checkEffects_of_answer hformed ?_ hown
      rintro file rfl
      exact output_ne_empty hrequest
    · exact checkEffects_of_fault hcode
  | verify scope report => exact disk_of_settle disk_of_verify hanswer
  | path scope source target => exact disk_of_settle disk_of_path hanswer

open Report (still projectScope)

theorem effects_of_run_stray :
    ∃ j answer, (alone stray).isWellFormed = true ∧
      run still (alone stray) ["check", "project"] = .ok j ∧ j.result = .ok answer ∧
        Effects still (alone stray) answer (.check projectScope .text none none) ∧
          answer.exit = .findings ∧ answer.output = (strayReport .builtin).text ∧
            answer.disk = alone stray := by
  have hfailed : (strayReport .builtin).passed = false := by cbv
  have hformed : (alone stray).isWellFormed = true := by cbv
  have hrequest : Request.ofWords ["check", "project"] = .ok (.check projectScope .text none none) := by
    cbv
  have hrun : run still (alone stray) ["check", "project"] = .ok _ :=
    bind_eq_ok_iff.2 ⟨_, hrequest, rfl⟩
  have hconfig : configuration still (alone stray) "/project" projectScope = .ok .builtin := by cbv
  have hbuilds : Builds still (alone stray) projectScope none
      ⟨strayGraph, [strayFile], [], strayReport .builtin⟩ :=
    ⟨_, _, resolve_alone stray, hconfig,
      Analysis.run_eq_ok_iff.2
        ⟨Analysis.inTime_of_unlimited rfl, finds_stray (rootFolder_alone stray), rfl⟩⟩
  have hanswer : ((Request.check projectScope .text none none).run still (alone stray)).result =
      .ok ⟨.findings, (strayReport .builtin).text, "", alone stray⟩ := by
    refine (settle_eq_ok_iff (.inr rfl)).2 (check_answers_iff.2 ⟨_, _, hbuilds, rfl, ?_⟩)
    rw [hfailed]
    rfl
  obtain ⟨request, hsame, heffects⟩ := effects_of_run hformed hrun hanswer
  obtain rfl := Except.ok.inj (hrequest.symm.trans hsame)
  exact ⟨_, _, hformed, hrun, hanswer, heffects, rfl, rfl, rfl⟩

end LayerGate.CommandLine
