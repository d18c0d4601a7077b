import LayerGate.Config.Reason
import LayerGate.Decimal.Spelling

/-!
# Commands

What can be asked for on the command line: three commands, the switches that each of them knows and
the operands that it takes.
-/

namespace LayerGate.CommandLine

inductive Command where
  | check
  | verify
  | path
  deriving DecidableEq, Repr

/-- How a report is written. -/
inductive Format where
  | text
  | structured
  deriving DecidableEq, Repr

/-- A switch as it was given, with its value. -/
inductive Setting where
  | help
  | config (path : String)
  | timeout (seconds : Float)
  | verbose
  | quiet
  | format (format : Format)
  | blocking (reason : Reason)
  | noBlocking
  | output (path : String)
  | report (path : String)

inductive Switch where
  | help
  | config
  | timeout
  | verbose
  | quiet
  | format
  | blocking
  | noBlocking
  | output
  | report
  deriving DecidableEq, Repr

/-- Why a word is no value of a switch. -/
inductive BadValue where
  | notNumber (word : String)
  | notOneOf (word : String) (choices : List String)
  deriving DecidableEq, Repr

/-- A switch either says all by itself or takes a word as its value. -/
inductive Reading where
  | flag (setting : Setting)
  | value (read : String → Except BadValue Setting)

namespace Format

def words : List (String × Format) := [("text", text), ("structured", structured)]

end Format

def Setting.switch : Setting → Switch
  | help => .help
  | config _ => .config
  | timeout _ => .timeout
  | verbose => .verbose
  | quiet => .quiet
  | format _ => .format
  | blocking _ => .blocking
  | noBlocking => .noBlocking
  | output _ => .output
  | report _ => .report

namespace Switch

def names : Switch → List String
  | help => ["-h", "--help"]
  | config => ["--config"]
  | timeout => ["--timeout"]
  | verbose => ["-v", "--verbose"]
  | quiet => ["-q", "--quiet"]
  | format => ["--format"]
  | blocking => ["--blocking"]
  | noBlocking => ["--no-blocking"]
  | output => ["--output"]
  | report => ["--report"]

/-- All names of a switch, as messages tell them. -/
def label (s : Switch) : String := "/".intercalate s.names

/-- The word among the choices, and what it stands for. -/
def choose {α : Type} (choices : List (String × α)) (setting : α → Setting) (word : String) :
    Except BadValue Setting :=
  match choices.lookup word with
  | some a => .ok (setting a)
  | none => .error (.notOneOf word (choices.map (·.1)))

def seconds (word : String) : Except BadValue Setting :=
  match Decimal.spelled? word with
  | some x => .ok (.timeout x)
  | none => .error (.notNumber word)

def reading : Switch → Reading
  | help => .flag .help
  | config => .value fun word => .ok (.config word)
  | timeout => .value seconds
  | verbose => .flag .verbose
  | quiet => .flag .quiet
  | format => .value (choose Format.words .format)
  | blocking => .value (choose Reason.words .blocking)
  | noBlocking => .flag .noBlocking
  | output => .value fun word => .ok (.output word)
  | report => .value fun word => .ok (.report word)

/-- The switch that must not be given together with this one. -/
def rival? : Switch → Option Switch
  | verbose => some quiet
  | quiet => some verbose
  | blocking => some noBlocking
  | noBlocking => some blocking
  | _ => none

theorem rival?_symm {s t : Switch} (h : s.rival? = some t) : t.rival? = some s := by
  cases s <;> cases t <;> simp_all [rival?]

end Switch

/-- A word that is given for its place. -/
structure Operand where
  name : String
  required : Bool
  deriving DecidableEq, Repr

namespace Command

def all : List Command := [check, verify, path]

def word : Command → String
  | check => "check"
  | verify => "verify"
  | path => "path"

def ofWord? (w : String) : Option Command := all.find? fun c => c.word = w

theorem ofWord?_word (c : Command) : ofWord? c.word = some c := by cases c <;> decide

/-- The switches of a command in the order in which messages list them. -/
def switches : Command → List Switch
  | check => [.help, .config, .timeout, .verbose, .quiet, .format, .blocking, .noBlocking, .output]
  | verify => [.help, .config, .timeout, .verbose, .quiet, .report]
  | path => [.help, .config, .timeout, .verbose, .quiet]

def requiredSwitches : Command → List Switch
  | verify => [.report]
  | _ => []

def operands : Command → List Operand
  | path => [⟨"root", true⟩, ⟨"source", true⟩, ⟨"target", true⟩]
  | _ => [⟨"root", false⟩]

end Command

end LayerGate.CommandLine
