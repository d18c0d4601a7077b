import Mathlib
import LayerGate.CommandLine.Run
import LayerGate.Proofs.ReportReading

/-!
# Reports on the disk

A structured report can be stored and read back without loss.  So `verify` accepts a stored report
just if it is the report of the run that `verify` makes.
-/

namespace LayerGate

namespace CommandLine

variable {s : Surroundings} {d : Disk} {scope : Scope} {report : String} {stored : ByteArray}
  {fresh : Report}

/-- `verify` finds the stored bytes, and its own run gives the fresh report. -/
def Compares (s : Surroundings) (d : Disk) (scope : Scope) (report : String) (stored : ByteArray)
    (fresh : Report) : Prop :=
  ∃ root c path result, s.resolve d scope.root = .ok root ∧
    configuration s d root scope = .ok c ∧ s.resolve d report = .ok path ∧
      d.find? [] path = .ok (some (.file stored)) ∧
        (Analysis.run s.clock s.machine d root c).result = .ok result ∧ result.report = fresh

/-- `verify` passes. -/
def Passes (s : Surroundings) (d : Disk) (scope : Scope) (report : String) : Prop :=
  ∃ answer, (verify s d scope report).result = .ok answer ∧ answer.exit = .pass

/-- What `verify` answers, once it comes to compare. -/
theorem verify_result (h : Compares s d scope report stored fresh) :
    ∃ path, s.resolve d report = .ok path ∧
      (verify s d scope report).result = (structuredText fresh).map fun text =>
        match Verification.ofStored path stored text with
        | .reproduced => ⟨.pass, "", "", d⟩
        | .differs found => ⟨.findings, "", lines found, d⟩ := by
  obtain ⟨root, c, path, result, hroot, hconfig, hpath, hfind, hrun, rfl⟩ := h
  refine ⟨path, hpath, ?_⟩
  cases hjournal : Analysis.run s.clock s.machine d root c with
  | mk notes outcome =>
    rw [hjournal] at hrun
    obtain rfl : outcome = .ok result := hrun
    simp only [verify, hroot, hconfig, hpath, hfind, hjournal, Journal.ofExcept, Journal.bind_ok]
    cases structuredText result.report with
    | error f => rfl
    | ok text =>
      cases hverdict : Verification.ofStored path stored text with
      | reproduced =>
        simp only [Except.map, hverdict, Journal.bind_ok]
        rfl
      | differs found =>
        simp only [Except.map, hverdict, Journal.bind_ok]
        rfl

/-- `verify` passes just if the stored bytes are the text of the fresh report. -/
theorem passes_iff (h : Compares s d scope report stored fresh) :
    Passes s d scope report ↔ ∃ text, fresh.structured? = some text ∧ stored = text.toUTF8 := by
  obtain ⟨path, -, hresult⟩ := verify_result h
  rw [Passes, hresult, structuredText]
  cases fresh.structured? with
  | none => simp [Except.map]
  | some text =>
    simp only [Except.map, Option.some_inj, exists_eq_left']
    rw [← @Verification.ofStored_eq_reproduced path]
    cases Verification.ofStored path stored text with
    | reproduced => simp
    | differs found => simp

end CommandLine

namespace Report

/-- A report whose integers fit has a text.  The text reads back as the report, it is that of no other
report, and `verify` accepts it just where its own run gives the report. -/
theorem structured_round_trip (r : Report) (hfits : ∀ n ∈ r.integers, -2 ^ 63 ≤ n ∧ n ≤ 2 ^ 64 - 1) :
    ∃ text, structured? r = some text ∧
      (∃ v, Value.Json.read text = some v ∧ schema v = .valid r) ∧
      (∀ r', structured? r' = some text → r' = r) ∧
      ∀ s d scope report fresh, CommandLine.Compares s d scope report text.toUTF8 fresh →
        (CommandLine.Passes s d scope report ↔ fresh = r) := by
  have hall : r.integers.all fits = true := by
    rw [List.all_eq_true]
    intro n hn
    obtain ⟨hlow, hhigh⟩ := hfits n hn
    have hlow' : -(Int.pow 2 63) ≤ n := hlow
    have hhigh' : n < Int.pow 2 64 := Int.lt_of_le_sub_one hhigh
    rw [fits, Bool.and_eq_true]
    exact ⟨decide_eq_true hlow', decide_eq_true hhigh'⟩
  have htext : structured? r = some (Value.Json.document r.value) := if_pos hall
  refine ⟨_, htext, read_document_value r, fun r' h' => structured?_inj h' htext, ?_⟩
  intro s d scope report fresh hcompares
  rw [CommandLine.passes_iff hcompares]
  constructor
  · rintro ⟨text, hfresh, hstored⟩
    obtain rfl := String.toByteArray_inj.1 hstored
    exact structured?_inj hfresh htext
  · rintro rfl
    exact ⟨_, htext, rfl⟩

/-- A finding in whose texts a quote, a backslash and control characters stand. -/
def awkward : Report where
  schemaVersion := 1
  records := [⟨.warning, .cycle, "a\"b\\c.py", some "\x00\t\x1f.py", none, some "", none, "é\n",
    ["a\"b\\c.py", "\x00\t\x1f.py"]⟩]
  summary := ⟨2, 2 ^ 64 - 1, 0, 1, 0, -2 ^ 63, .pass⟩

/-- A disk with an empty project and a stored report. -/
def storedBeside (stored : ByteArray) : Disk :=
  .folder [("project", .folder []), ("report.json", .file stored)]

def still : CommandLine.Surroundings := ⟨[], fun _ => none, ⟨fun _ => 0, none⟩, .ample⟩

def projectScope : CommandLine.Scope := ⟨"project", none, none, .normal⟩

/-- The report on a project without files. -/
def emptyReport : Report := ⟨1, [], ⟨0, 0, 0, 0, 0, 0, .pass⟩⟩

theorem compares_emptyProject (stored : ByteArray) :
    CommandLine.Compares still (storedBeside stored) projectScope "report.json" stored
      emptyReport := by
  refine ⟨"/project", .builtin, "/report.json", ⟨⟨#[], []⟩, [], [], emptyReport⟩, ?_, ?_, ?_, ?_, ?_, ?_⟩
  · cbv
  · cbv
  · cbv
  · cbv
  · cbv
  · rfl

theorem structured_round_trip_awkward :
    (∀ n ∈ awkward.integers, -2 ^ 63 ≤ n ∧ n ≤ 2 ^ 64 - 1) ∧
      ∃ text, structured? awkward = some text ∧
        (∃ v, Value.Json.read text = some v ∧ schema v = .valid awkward) ∧
        (∀ r', structured? r' = some text → r' = awkward) ∧
        CommandLine.Compares still (storedBeside text.toUTF8) projectScope "report.json" text.toUTF8
          emptyReport ∧
        ¬ CommandLine.Passes still (storedBeside text.toUTF8) projectScope "report.json" := by
  have hfits : ∀ n ∈ awkward.integers, -2 ^ 63 ≤ n ∧ n ≤ 2 ^ 64 - 1 := by decide
  obtain ⟨text, htext, hread, hinj, hverify⟩ := structured_round_trip awkward hfits
  have hcompares := compares_emptyProject text.toUTF8
  refine ⟨hfits, text, htext, hread, hinj, hcompares, ?_⟩
  rw [hverify _ _ _ _ _ hcompares]
  decide

end Report

end LayerGate
