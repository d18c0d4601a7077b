import LayerGate.Proofs.CommandAnswers
import LayerGate.Proofs.SharedBlocks
import LayerGate.Proofs.Utf8Decoding

/-!
# What is shown of a difference

`verify` compares bytes and shows lines.  So it fails in silence just where other bytes show the same
lines: a stored report that only lacks its last line break is such a one.
-/

namespace LayerGate

/-! ## Hunks -/

namespace Diff

variable {hunk : Hunk} {old new : List String}

/-- Gathering loses no change. -/
theorem any_gather (hunk : Hunk) (rs : List Run) :
    (gather hunk rs).any (fun found => found.runs.any Run.isChange) =
      (hunk.runs.any Run.isChange || rs.any Run.isChange) := by
  have hpush : ∀ (hunk : Hunk) (r : Run),
      (hunk.push r).runs.any Run.isChange = (hunk.runs.any Run.isChange || r.isChange) := by
    intro hunk r
    simp [Hunk.push]
  fun_induction gather hunk rs with
  | case1 hunk => simp
  | case2 hunk lines => simp [hpush, Run.isChange]
  | case3 hunk lines rest hrest hlong ih =>
    rw [List.any_cons, ih, hpush]
    simp [Run.isChange, Hunk.next, Hunk.startingIn]
  | case4 hunk lines rest hrest hshort ih =>
    rw [ih, hpush]
    simp [Run.isChange]
  | case5 hunk old new rest ih =>
    rw [ih, hpush, List.any_cons, Bool.or_assoc]

theorem hunks_eq_nil_iff {rs : List Run} : hunks rs = [] ↔ rs.any Run.isChange = false := by
  have hgathered : ∀ found : List Hunk, (found.filter fun hunk => hunk.runs.any Run.isChange) = [] ↔
      found.any (fun hunk => hunk.runs.any Run.isChange) = false := by
    intro found
    rw [List.filter_eq_nil_iff, List.any_eq_false]
  unfold hunks
  split
  · rw [hgathered, any_gather]
    rfl
  · rw [hgathered, any_gather]
    rfl

/-- The shown difference of two texts is empty just if they have the same lines. -/
theorem unified_eq_nil_iff {oldName newName : String} :
    unified oldName newName old new = [] ↔ old = new := by
  have hhunks : hunks (runs old new) = [] ↔ old = new := by
    rw [hunks_eq_nil_iff, ← Bool.not_eq_true, any_isChange_runs, not_ne_iff]
  rw [← hhunks, unified]
  cases hunks (runs old new) with
  | nil => exact iff_of_true rfl rfl
  | cons first others => exact iff_of_false nofun nofun

end Diff

/-! ## Lines -/

namespace Text

theorem displayLinesFrom_cons {line cs : List Char} {c : Char} (h : c = '\r' → cs.head? ≠ some '\n') :
    displayLinesFrom line (c :: cs) = if isLineBreak c then line.reverse :: displayLinesFrom [] cs
      else displayLinesFrom (c :: line) cs := by
  rw [displayLinesFrom]
  rintro rest rfl rfl
  exact h rfl rfl

/-- Only the empty text has no lines. -/
theorem displayLinesFrom_eq_nil_iff {line cs : List Char} :
    displayLinesFrom line cs = [] ↔ line = [] ∧ cs = [] := by
  fun_induction displayLinesFrom line cs with
  | case1 line hnil => exact iff_of_true rfl ⟨List.isEmpty_iff.1 hnil, rfl⟩
  | case2 line hnil => exact iff_of_false nofun fun h => hnil (List.isEmpty_iff.2 h.1)
  | case3 line cs ih => exact iff_of_false nofun nofun
  | case4 line c cs hcrlf hbreak ih => exact iff_of_false nofun nofun
  | case5 line c cs hcrlf hbreak ih => exact ih.trans (iff_of_false nofun nofun)

/-- Behind a character that ends no line, a last line break adds no line. -/
theorem displayLinesFrom_concat {line cs : List Char} (hline : cs = [] → line ≠ [])
    (hlast : ∀ c ∈ cs.getLast?, isLineBreak c = false) :
    displayLinesFrom line (cs ++ ['\n']) = displayLinesFrom line cs := by
  have hrest : ∀ {c : Char} {cs : List Char}, (∀ d ∈ (c :: cs).getLast?, isLineBreak d = false) →
      ∀ d ∈ cs.getLast?, isLineBreak d = false := by
    intro c cs h d hd
    exact h d (by rw [List.getLast?_cons, Option.mem_def.1 hd]; rfl)
  fun_induction displayLinesFrom line cs with
  | case1 line hnil => exact absurd (List.isEmpty_iff.1 hnil) (hline rfl)
  | case2 line hnil => rfl
  | case3 line cs ih =>
    have hne : cs ≠ [] := by
      rintro rfl
      exact absurd (hlast '\n' rfl) (by decide)
    rw [List.cons_append, List.cons_append, displayLinesFrom, ih (absurd · hne) (hrest (hrest hlast))]
  | case4 line c cs hcrlf hbreak ih =>
    cases cs with
    | nil => exact absurd hbreak (by rw [hlast c rfl]; decide)
    | cons d ds =>
      rw [List.cons_append, displayLinesFrom_cons, if_pos hbreak, ih nofun (hrest hlast)]
      rintro rfl hd
      exact hcrlf ds rfl (by rw [Option.some.inj hd])
  | case5 line c cs hcrlf hbreak ih =>
    rw [List.cons_append, displayLinesFrom_cons, if_neg hbreak,
      ih (fun _ => List.cons_ne_nil _ _) (hrest hlast)]
    rintro rfl
    exact absurd rfl hbreak

example : displayLines ['a', '\r', '\n', 'b', '\n'] = displayLines ['a', '\n', 'b'] := by decide

end Text

namespace Text.Utf8

/-- What decodes needs no repair. -/
theorem repairFrom_flatMap_utf8EncodeChar (text : List Char) :
    repairFrom (text.flatMap String.utf8EncodeChar) = text := by
  induction text with
  | nil => exact repairFrom.eq_1
  | cons c text ih =>
    obtain ⟨b, bs, hbytes⟩ : ∃ b bs, (c :: text).flatMap String.utf8EncodeChar = b :: bs :=
      List.exists_cons_of_ne_nil fun h =>
        String.utf8EncodeChar_ne_nil (List.append_eq_nil_iff.1 h).1
    obtain ⟨behind, rfl, hstep⟩ := step_of_encoded hbytes.symm
    rw [hbytes, repairFrom, hstep]
    simp only [List.drop_left, ih]

theorem repair_toUTF8 (text : String) : repair text.toUTF8 = text.toList := by
  have hbytes : text.toUTF8 = text.toList.utf8Encode := String.utf8Encode_toList.symm
  rw [repair, hbytes, List.utf8Encode, List.data_toByteArray]
  exact repairFrom_flatMap_utf8EncodeChar text.toList

end Text.Utf8

namespace Verification

variable {fresh : String} {stored : ByteArray}

/-- Other bytes are told apart, by nothing at all just if they show the same lines. -/
theorem exists_ofStored_eq_differs (name : String) (h : stored ≠ fresh.toUTF8) : ∃ found,
    ofStored name stored fresh = .differs found ∧
      (found = [] ↔ displayedLines (Text.Utf8.repair stored) = displayedLines fresh.toList) := by
  refine ⟨_, if_neg fun hdata => h (ByteArray.ext hdata), Diff.unified_eq_nil_iff⟩

end Verification

/-! ## Reports -/

namespace Report

theorem getLast?_group (opening closing : Char) (depth : Nat) (members : List (List Char)) :
    (Value.Json.group opening closing depth members).getLast? = some closing := by
  cases members with
  | nil => rfl
  | cons member members => exact List.getLast?_concat

/-- The text of a report without its last line break shows the same lines. -/
theorem displayedLines_unfinished {r : Report} {text : String} (h : r.structured? = some text) :
    ∃ unfinished : String, text = unfinished ++ "\n" ∧
      Verification.displayedLines unfinished.toList = Verification.displayedLines text.toList := by
  have hlast : (Value.Json.print 0 r.value).getLast? = some '}' := by
    rw [value, Value.Json.print, getLast?_group]
  rw [structured?, Option.ite_none_right_eq_some, Option.some_inj] at h
  obtain ⟨-, rfl⟩ := h
  refine ⟨String.ofList (Value.Json.print 0 r.value), String.ofList_append, ?_⟩
  rw [Value.Json.document, String.toList_ofList, String.toList_ofList, Verification.displayedLines,
    Verification.displayedLines, Text.displayLines, Text.displayLines, Text.displayLinesFrom_concat]
  · rintro hnil
    rw [hnil] at hlast
    cases hlast
  · rintro c hc
    obtain rfl := Option.some.inj (hlast.symm.trans hc)
    decide

end Report

namespace CommandLine

variable {s : Surroundings} {d : Disk} {scope : Scope} {file text : String} {stored : ByteArray}
  {fresh : Report}

theorem lines_eq_empty_iff {texts : List String} : lines texts = "" ↔ texts = [] := by
  cases texts with
  | nil => exact iff_of_true rfl rfl
  | cons text texts =>
    refine iff_of_false (fun h => ?_) nofun
    rw [lines, List.map_cons, String.join_cons, String.append_eq_empty_iff] at h
    exact absurd (String.append_eq_empty_iff.1 h.1).2 (by decide)

/-- Of other bytes than those of its own text `verify` tells as findings, with the lines in which both
differ. -/
theorem verify_shows (h : Compares s d scope file stored fresh) (htext : fresh.structured? = some text)
    (hne : stored ≠ text.toUTF8) : ∃ path found, s.resolve d file = .ok path ∧
      Verification.ofStored path stored text = .differs found ∧
      (verify s d scope file).result = .ok ⟨.findings, "", lines found, d⟩ ∧
      (found = [] ↔ Verification.displayedLines (Text.Utf8.repair stored) =
        Verification.displayedLines text.toList) := by
  obtain ⟨path, hpath, hresult⟩ := verify_result h
  obtain ⟨found, hfound, hlines⟩ := Verification.exists_ofStored_eq_differs path hne
  refine ⟨path, found, hpath, hfound, ?_, hlines⟩
  rw [hresult, structuredText_eq_ok_iff.2 htext, Except.map, hfound]

/-- The text of a report without its last line break has other bytes and shows the same lines. -/
theorem exists_silent (htext : fresh.structured? = some text) : ∃ unfinished : String,
    text = unfinished ++ "\n" ∧ unfinished.toUTF8 ≠ text.toUTF8 ∧
      Verification.displayedLines (Text.Utf8.repair unfinished.toUTF8) =
        Verification.displayedLines text.toList := by
  obtain ⟨unfinished, rfl, hlines⟩ := Report.displayedLines_unfinished htext
  refine ⟨unfinished, rfl, fun heq => ?_, by rw [Text.Utf8.repair_toUTF8, hlines]⟩
  have hlength := congrArg String.length (String.toByteArray_inj.1 heq)
  rw [String.length_append] at hlength
  exact absurd hlength (by simp)

/-- `verify` passes just if it finds the bytes of its own text.  Else it tells of findings, and shows
nothing of them just if the stored bytes show the lines of its own text.  Such bytes there are next to
each report. -/
theorem verify_shows_iff (h : Compares s d scope file stored fresh)
    (htext : fresh.structured? = some text) :
    ∃ path, s.resolve d file = .ok path ∧
      (Verification.ofStored path stored text = .reproduced ↔ stored = text.toUTF8) ∧
      (stored = text.toUTF8 → (verify s d scope file).result = .ok ⟨.pass, "", "", d⟩) ∧
      (stored ≠ text.toUTF8 → ∃ found, Verification.ofStored path stored text = .differs found ∧
        (verify s d scope file).result = .ok ⟨.findings, "", lines found, d⟩ ∧
        (lines found = "" ↔ found = []) ∧
        (found = [] ↔ Verification.displayedLines (Text.Utf8.repair stored) =
          Verification.displayedLines text.toList)) ∧
      ∃ silent, silent ≠ text.toUTF8 ∧ Verification.displayedLines (Text.Utf8.repair silent) =
        Verification.displayedLines text.toList := by
  obtain ⟨path, hpath, hresult⟩ := verify_result h
  refine ⟨path, hpath, Verification.ofStored_eq_reproduced, fun heq => ?_, fun hne => ?_, ?_⟩
  · rw [hresult, structuredText_eq_ok_iff.2 htext, Except.map,
      Verification.ofStored_eq_reproduced.2 heq]
  · obtain ⟨path', found, hpath', hfound, hshown, hlines⟩ := verify_shows h htext hne
    obtain rfl := Except.ok.inj (hpath.symm.trans hpath')
    exact ⟨found, hfound, hshown, lines_eq_empty_iff, hlines⟩
  · obtain ⟨unfinished, -, hne, hlines⟩ := exists_silent htext
    exact ⟨unfinished.toUTF8, hne, hlines⟩

open Report in
/-- A stored report without any content is told apart, and its difference is shown. -/
theorem verify_shows_iff_empty :
    Compares still (storedBeside .empty) projectScope "report.json" .empty emptyReport ∧
      ∃ text found, emptyReport.structured? = some text ∧ found ≠ [] ∧
        (verify still (storedBeside .empty) projectScope "report.json").result =
          .ok ⟨.findings, "", lines found, storedBeside .empty⟩ := by
  have hcompares := compares_emptyProject .empty
  obtain ⟨text, htext⟩ : ∃ text, emptyReport.structured? = some text := ⟨_, rfl⟩
  obtain ⟨path, -, -, -, hdiffers, -⟩ := verify_shows_iff hcompares htext
  obtain ⟨unfinished, rfl, -⟩ := displayedLines_unfinished htext
  have hnone : Verification.displayedLines (Text.Utf8.repair .empty) = [] :=
    congrArg Verification.displayedLines (Text.Utf8.repair_toUTF8 "")
  have hlines : Verification.displayedLines (unfinished ++ "\n").toList ≠ [] := by
    rw [Verification.displayedLines, Ne, List.map_eq_nil_iff, Text.displayLines,
      Text.displayLinesFrom_eq_nil_iff]
    simp
  have hne : ByteArray.empty ≠ (unfinished ++ "\n").toUTF8 := by
    intro heq
    rw [heq, Text.Utf8.repair_toUTF8] at hnone
    exact hlines hnone
  obtain ⟨found, -, hshown, -, hfound⟩ := hdiffers hne
  exact ⟨hcompares, _, found, htext, fun hnil => hlines ((hfound.1 hnil).symm.trans hnone), hshown⟩

open Report in
/-- The text of the report without its last line break is told apart, and nothing is shown. -/
theorem verify_fails_in_silence : ∃ unfinished : String,
    emptyReport.structured? = some (unfinished ++ "\n") ∧
      (verify still (storedBeside unfinished.toUTF8) projectScope "report.json").result =
        .ok ⟨.findings, "", "", storedBeside unfinished.toUTF8⟩ := by
  obtain ⟨text, htext⟩ : ∃ text, emptyReport.structured? = some text := ⟨_, rfl⟩
  obtain ⟨unfinished, rfl, hne, hlines⟩ := exists_silent htext
  obtain ⟨-, found, -, -, hshown, hfound⟩ :=
    verify_shows (compares_emptyProject unfinished.toUTF8) htext hne
  rw [lines_eq_empty_iff.2 (hfound.2 hlines)] at hshown
  exact ⟨unfinished, htext, hshown⟩

end CommandLine

end LayerGate
