import LayerGate.Proofs.AcceptedConfig
import LayerGate.Proofs.CheckThenVerify
import LayerGate.Proofs.OneLine
import LayerGate.Proofs.RefusedIntegers
import LayerGate.Proofs.Utf8Decoding

/-!
# What becomes of a configuration file

A file that can be read is a valid configuration or a fault that the command tells: in one line if the
document is malformed, else with lines about each complaint.  A file that is no text, that the reader has
no room for or whose text stops it at an integer gives a fault that no command tells.
-/

namespace LayerGate

namespace Config

variable {m : Machine} {d : Disk} {root path : String} {asked : Option String} {content : ByteArray}
  {r : Except Fault Config} {c : Config} {fault : Fault}

/-! ## Loading -/

/-- The content is text, and the reader of documents has room for it and does not stop at an integer
in it. -/
def Readable (m : Machine) (content : ByteArray) : Prop :=
  ∃ text, content = text.utf8Encode ∧ m.reader text = none ∧
    ∀ n, Value.Toml.read text ≠ .error (.longInteger n)

theorem readable_of_isValidUTF8 (h : content.IsValidUTF8)
    (hroom : ∀ text, content = text.utf8Encode → m.reader text = none)
    (hshort : ∀ text n, content = text.utf8Encode → Value.Toml.HasDigits n text → n ≤ 4300) :
    Readable m content := by
  obtain ⟨text, htext⟩ := h
  refine ⟨text, htext, hroom text htext, fun n hread => ?_⟩
  obtain ⟨hlong, hdigits⟩ := Value.Toml.hasDigits_of_read hread
  exact absurd hlong (Nat.not_lt.2 (hshort text n htext hdigits))

section
variable {text : List Char}

theorem goes_of_readable (h : Readable m content) (htext : content = text.utf8Encode) :
    m.reader text = none ∧ ∀ n, Value.Toml.read text ≠ .error (.longInteger n) := by
  obtain ⟨text', htext', hgoes⟩ := h
  have hsame := (Text.Utf8.decode_eq_ok_iff.2 htext').symm.trans (Text.Utf8.decode_eq_ok_iff.2 htext)
  obtain rfl := Except.ok.inj hsame
  exact hgoes

/-- The faults of a content that is not readable. -/
inductive Untold (m : Machine) (content : ByteArray) : Fault → Prop
  | undecodable {problem : Text.Utf8.Fault} :
    ¬ content.IsValidUTF8 → Untold m content (.undecodableConfig problem)
  | room {text : List Char} {problem : Exhaustion} : content = text.utf8Encode →
    m.reader text = some problem → Untold m content (.exhausted problem)
  | longInteger {text : List Char} {n : Nat} : content = text.utf8Encode → 4300 < n →
    Value.Toml.HasDigits n text → Untold m content (.longInteger n)

/-- What loading a readable content comes to: its document is malformed, or the schema has its say. -/
inductive Told (m : Machine) (path : String) (content : ByteArray) : Except Fault Config → Prop
  | malformed {text : List Char} {problem : Value.Toml.Problem} {left : Nat} :
    content = text.utf8Encode → Value.Toml.read text = .error (.problem problem left) →
      Told m path content
        (.error (.config (.malformed path (Value.Toml.explain text (.problem problem left)))))
  | valid {text : List Char} {document : Value} {c : Config} : content = text.utf8Encode →
    Value.Toml.read text = .ok document → schema document = .valid c → Told m path content (.ok c)
  | invalid {text : List Char} {document : Value} {complaints : List Schema.Complaint} :
    content = text.utf8Encode → Value.Toml.read text = .ok document →
      schema document = .invalid complaints → Told m path content (.error (.config
        (.invalid path complaints (m.voice.account accountName document complaints))))

theorem ofContent_of_undecodable {problem : Text.Utf8.Fault}
    (h : Text.Utf8.decode content = .error problem) :
    ofContent m path content = .error (.undecodableConfig problem) := by
  unfold ofContent
  rw [h]
  rfl

/-- Text comes before the reader. -/
theorem ofContent_of_text (htext : content = text.utf8Encode) : ofContent m path content =
    match m.reader text, Value.Toml.read text with
    | some problem, _ => .error (.exhausted problem)
    | none, .error (.longInteger digits) => .error (.longInteger digits)
    | none, .error (.problem p left) =>
      .error (.config (.malformed path (Value.Toml.explain text (.problem p left))))
    | none, .ok document =>
      match schema document with
      | .valid c => .ok c
      | .invalid complaints => .error (.config
          (.invalid path complaints (m.voice.account accountName document complaints))) := by
  unfold ofContent
  rw [Text.Utf8.decode_eq_ok_iff.2 htext]
  rfl

end

theorem told_of_readable (h : Readable m content) : Told m path content (ofContent m path content) := by
  obtain ⟨text, htext, hroom, hgoes⟩ := h
  rw [ofContent_of_text htext, hroom]
  cases hread : Value.Toml.read text with
  | error stop =>
    cases stop with
    | problem problem left => exact .malformed htext hread
    | longInteger n => exact absurd hread (hgoes n)
  | ok document =>
    simp only
    cases hschema : schema document with
    | valid c => exact .valid htext hread hschema
    | invalid complaints => exact .invalid htext hread hschema

theorem untold_of_not_readable (h : ¬ Readable m content) :
    ∃ fault, Untold m content fault ∧ ofContent m path content = .error fault := by
  cases hdecode : Text.Utf8.decode content with
  | error problem =>
    refine ⟨_, .undecodable fun hvalid => ?_, ofContent_of_undecodable hdecode⟩
    obtain ⟨text, htext⟩ := Text.Utf8.exists_decode_iff.2 hvalid
    cases hdecode.symm.trans htext
  | ok text =>
    have htext := Text.Utf8.decode_eq_ok_iff.1 hdecode
    rw [ofContent_of_text htext]
    cases hroom : m.reader text with
    | some problem => exact ⟨_, .room htext hroom, rfl⟩
    | none =>
      -- There is room, so it is an integer that stops the reader.
      have hstops : ∃ n, Value.Toml.read text = .error (.longInteger n) := by
        by_contra hnone
        exact h ⟨text, htext, hroom, fun n hn => hnone ⟨n, hn⟩⟩
      obtain ⟨n, hn⟩ := hstops
      obtain ⟨hlong, hdigits⟩ := Value.Toml.hasDigits_of_read hn
      rw [hn]
      exact ⟨_, .longInteger htext hlong hdigits, rfl⟩

theorem Told.closed (h : Told m path content r) :
    (∃ c, r = .ok c ∧ c.Valid) ∨ ∃ p, r = .error (.config p) := by
  cases h with
  | malformed => exact .inr ⟨_, rfl⟩
  | valid _ _ hschema => exact .inl ⟨_, rfl, valid_of_schema hschema⟩
  | invalid => exact .inr ⟨_, rfl⟩

/-- Of a malformed document one line is told, of complaints there are more. -/
theorem Told.oneLine_iff {p : ConfigFault} (h : Told m path content (.error (.config p)))
    (hpath : Text.OneLine path) : Text.OneLine p.message ↔ ∃ problem, p = .malformed path problem := by
  cases h with
  | malformed => exact iff_of_true (ConfigFault.oneLine_malformed hpath _ _ _) ⟨_, rfl⟩
  | invalid =>
    exact iff_of_false (ConfigFault.not_oneLine_invalid (Schema.Voice.not_oneLine_account _ _ _ _)) nofun

theorem Untold.ne_config (h : Untold m content fault) (p : ConfigFault) : fault ≠ .config p := by
  rintro rfl
  cases h

/-- A file that is there is loaded from its content. -/
theorem load_of_find? (h : d.find? [] (asked.getD (defaultPath root)) = .ok (some (.file content))) :
    load m d root asked = ofContent m (asked.getD (defaultPath root)) content := by
  unfold load
  simp only [h, Except.mapError, bind, Except.bind]

section
variable (hfile : d.find? [] (asked.getD (defaultPath root)) = .ok (some (.file content)))
include hfile

theorem told_of_load (h : Readable m content) :
    Told m (asked.getD (defaultPath root)) content (load m d root asked) := by
  rw [load_of_find? hfile]
  exact told_of_readable h

theorem load_closed_iff :
    (∃ c, load m d root asked = .ok c ∧ c.Valid) ∨ (∃ p, load m d root asked = .error (.config p)) ↔
      Readable m content := by
  refine ⟨fun hclosed => ?_, fun h => (told_of_load hfile h).closed⟩
  -- Of a content that is not readable comes a fault of another kind.
  by_contra hnot
  obtain ⟨fault, huntold, hcontent⟩ := untold_of_not_readable hnot
  have hload : load m d root asked = .error fault := (load_of_find? hfile).trans hcontent
  rcases hclosed with ⟨c, hc, -⟩ | ⟨p, hp⟩
  · cases hload.symm.trans hc
  · exact huntold.ne_config p (Except.error.inj (hload.symm.trans hp))

/-- Only what is not readable has other faults than those of a configuration. -/
theorem untold_of_load (hload : load m d root asked = .error fault) (hne : ∀ p, fault ≠ .config p) :
    Untold m content fault := by
  have hnot : ¬ Readable m content := by
    intro h
    rcases (told_of_load hfile h).closed with ⟨c, hc, -⟩ | ⟨p, hp⟩
    · cases hload.symm.trans hc
    · exact hne p (Except.error.inj (hload.symm.trans hp))
  obtain ⟨fault', huntold, hcontent⟩ := untold_of_not_readable hnot
  obtain rfl := Except.error.inj (hload.symm.trans ((load_of_find? hfile).trans hcontent))
  exact huntold

end

end Config

namespace CommandLine

variable {s : Surroundings} {d : Disk} {r : Request} {root : String} {asked : Option String}
  {content : ByteArray} {folder : Entry} {fault : Fault} {scope : Scope}

/-! ## Answering -/

theorem configuration_of_load (hfolder : Analysis.rootFolder d root = .ok folder)
    (hasked : scope.config.mapM (s.resolve d) = .ok asked)
    (hload : Config.load s.machine d root asked = .error fault) :
    configuration s d root scope = .error fault := by
  unfold configuration
  simp only [hfolder, hasked, hload, bind, Except.bind]

/-- Whatever comes after the configuration is not reached without one. -/
theorem result_of_configuration {next : String → Config → Run Answer}
    (hroot : s.resolve d scope.root = .ok root)
    (hconfig : configuration s d root scope = .error fault) :
    (do
      let root ← Journal.ofExcept id (s.resolve d scope.root)
      let c ← Journal.ofExcept id (configuration s d root scope)
      next root c : Run Answer).result = .error fault := by
  rw [Journal.result_bind, hroot]
  show (Journal.ofExcept id (configuration s d root scope) >>= next root).result = _
  rw [Journal.result_bind, hconfig]
  rfl

theorem result_settle {j : Run Answer} (h : j.result = .error fault) :
    (settle d j).result = match exitFor? fault with
      | some code => .ok (.ofFault d code fault)
      | none => .error fault := by
  unfold settle
  rw [h]
  split
  · rename_i heq
    cases heq
  · rename_i heq
    cases heq
    cases exitFor? fault with
    | none => exact h
    | some code => rfl

/-- A command without a configuration tells why, or ends with the fault. -/
theorem result_run (hroot : s.resolve d r.scope.root = .ok root)
    (hconfig : configuration s d root r.scope = .error fault) :
    (r.run s d).result = match exitFor? fault with
      | some code => .ok (.ofFault d code fault)
      | none => .error fault := by
  cases r with
  | check scope format blocking output => exact result_settle (result_of_configuration hroot hconfig)
  | verify scope report => exact result_settle (result_of_configuration hroot hconfig)
  | path scope source target => exact result_settle (result_of_configuration hroot hconfig)

/-! ## The file of a command -/

/-- How a command deals with a configuration file of this content at this path. -/
structure Handles (s : Surroundings) (d : Disk) (r : Request) (path : String) (content : ByteArray)
    (loaded : Except Fault Config) : Prop where
  /-- Loading ends in a valid configuration or a configuration fault just if the content is readable. -/
  closed_iff : (∃ c, loaded = .ok c ∧ c.Valid) ∨ (∃ p, loaded = .error (.config p)) ↔
    Config.Readable s.machine content
  /-- Text that the reader has room for, without more than 4300 digits in a row, is readable. -/
  readable : content.IsValidUTF8 →
    (∀ text, content = text.utf8Encode → s.machine.reader text = none) →
      (∀ text n, content = text.utf8Encode → Value.Toml.HasDigits n text → n ≤ 4300) →
        Config.Readable s.machine content
  /-- Text that the reader has no room for is not, and neither is text that begins with too long an
  integer. -/
  unreadable : ∀ text, content = text.utf8Encode →
    (∃ problem, s.machine.reader text = some problem) ∨ Value.Toml.BeginsTooLong text →
      ¬ Config.Readable s.machine content
  /-- What loading comes to is said by the document in a readable content. -/
  comesTo : Config.Readable s.machine content → Config.Told s.machine path content loaded
  /-- A configuration fault is told behind `error:` with exit code 2, and nothing else happens. -/
  told : ∀ p, loaded = .error (.config p) →
    (r.run s d).result = .ok ⟨.error, "", "error: " ++ p.message ++ "\n", d⟩
  /-- It is told in one line just if the document is malformed. -/
  oneLine_iff : ∀ p, loaded = .error (.config p) → Text.OneLine path →
    (Text.OneLine p.message ↔ ∃ problem, p = .malformed path problem)
  /-- Any other fault is the end of the command. -/
  untold : ∀ fault, loaded = .error fault → (∀ p, fault ≠ .config p) →
    Config.Untold s.machine content fault ∧ (r.run s d).result = .error fault

theorem exitFor?_of_untold {m : Machine} (h : Config.Untold m content fault) :
    exitFor? fault = none := by
  cases h with
  | undecodable => rfl
  | room => rfl
  | longInteger => rfl

theorem lines_singleton (text : String) : lines [text] = text ++ "\n" := by
  simp [lines, String.join]

theorem not_readable {m : Machine} {text : List Char} (htext : content = text.utf8Encode)
    (h : (∃ problem, m.reader text = some problem) ∨ Value.Toml.BeginsTooLong text) :
    ¬ Config.Readable m content := by
  intro hreadable
  obtain ⟨hroom, hgoes⟩ := Config.goes_of_readable hreadable htext
  rcases h with ⟨problem, hproblem⟩ | hlong
  · cases hroom.symm.trans hproblem
  · obtain ⟨n, hn⟩ := hlong.read
    exact hgoes n hn

/-- Whatever the content of the configuration file is, a command handles it. -/
theorem handles_configuration_file (hroot : s.resolve d r.scope.root = .ok root)
    (hfolder : Analysis.rootFolder d root = .ok folder)
    (hasked : r.scope.config.mapM (s.resolve d) = .ok asked)
    (hfile : d.find? [] (asked.getD (Config.defaultPath root)) = .ok (some (.file content))) :
    Handles s d r (asked.getD (Config.defaultPath root)) content
      (Config.load s.machine d root asked) := by
  have hrun {fault : Fault} (hload : Config.load s.machine d root asked = .error fault) :=
    result_run hroot (configuration_of_load hfolder hasked hload)
  exact {
    closed_iff := Config.load_closed_iff hfile
    readable := Config.readable_of_isValidUTF8
    unreadable := fun _ => not_readable
    comesTo := Config.told_of_load hfile
    told := by
      intro p hp
      rw [hrun hp, ← lines_singleton]
      rfl
    oneLine_iff := by
      intro p hp
      -- A configuration fault is told, so the content is readable and has an outcome that is told.
      have hreadable := (Config.load_closed_iff hfile).1 (.inr ⟨p, hp⟩)
      have htold := Config.told_of_load hfile hreadable
      rw [hp] at htold
      exact htold.oneLine_iff
    untold := by
      intro fault hload hne
      have huntold := Config.untold_of_load hfile hload hne
      refine ⟨huntold, ?_⟩
      rw [hrun hload, exitFor?_of_untold huntold] }

/-! ## A project with nothing but a configuration -/

section
open Report (still projectScope)

def onlyConfig (content : ByteArray) : Disk := alone [(Config.fileName, .file content)]

def plainCheck : Request := .check projectScope .text none none

theorem find?_onlyConfig (content : ByteArray) :
    (onlyConfig content).find? [] ((none : Option String).getD (Config.defaultPath "/project")) =
      .ok (some (.file content)) := by cbv

theorem load_onlyConfig (m : Machine) (content : ByteArray) :
    Config.load m (onlyConfig content) "/project" none =
      Config.ofContent m (Config.defaultPath "/project") content :=
  Config.load_of_find? (find?_onlyConfig content)

/-- Where an opening bracket is all of the configuration, `check` misses the name of a table. -/
theorem handles_configuration_file_bracket :
    let content : ByteArray := ⟨#[0x5b]⟩
    let d := onlyConfig content
    still.resolve d plainCheck.scope.root = .ok "/project" ∧
      Analysis.rootFolder d "/project" = .ok (.folder [(Config.fileName, .file content)]) ∧
        plainCheck.scope.config.mapM (still.resolve d) = .ok none ∧
          d.find? [] (Config.defaultPath "/project") = .ok (some (.file content)) ∧
            Config.Readable still.machine content ∧ (plainCheck.run still d).result =
              .ok ⟨.error, "", "error: Invalid TOML in /project/layercheck.toml: " ++
                "Invalid initial character for a key part (at end of document)\n", d⟩ := by
  intro content d
  have hload := load_onlyConfig still.machine content
  have hencoded : content = ['['].utf8Encode := rfl
  rw [Config.ofContent_of_text hencoded] at hload
  have hroot : still.resolve d plainCheck.scope.root = .ok "/project" := resolve_alone _
  have hfolder : Analysis.rootFolder d "/project" = .ok (.folder [(Config.fileName, .file content)]) :=
    rootFolder_alone _
  have hhandles := handles_configuration_file hroot hfolder rfl (find?_onlyConfig content)
  exact ⟨hroot, hfolder, rfl, find?_onlyConfig content, hhandles.closed_iff.1 (.inr ⟨_, hload⟩),
    hhandles.told _ hload⟩

/-- A byte that starts no character ends `check`: it is neither a configuration nor a fault of one. -/
theorem check_ends_at_stray_byte :
    let d := onlyConfig ⟨#[0xff]⟩
    let fault : Fault := .undecodableConfig ⟨0xff, 0, 1, .start⟩
    Config.load still.machine d "/project" none = .error fault ∧
      (plainCheck.run still d).result = .error fault := by
  intro d fault
  have hdecode : Text.Utf8.decode ⟨#[0xff]⟩ = .error ⟨0xff, 0, 1, .start⟩ := by with_unfolding_all rfl
  have hload : Config.load still.machine d "/project" none = .error fault :=
    (load_onlyConfig _ _).trans (Config.ofContent_of_undecodable hdecode)
  have hconfig : configuration still d "/project" plainCheck.scope = .error fault :=
    configuration_of_load (rootFolder_alone _) rfl hload
  exact ⟨hload, result_run (resolve_alone _) hconfig⟩

end

end CommandLine

end LayerGate
