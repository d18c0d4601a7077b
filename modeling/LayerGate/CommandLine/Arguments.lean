import LayerGate.CommandLine.Token

/-!
# The arguments of a command

The words of a command line are read from left to right.  What no switch and no operand takes is left
over.
-/

namespace LayerGate.CommandLine

/-- Why reading ends early: help is asked for, or the words are refused. -/
inductive Stop where
  | help (command : Option Command)
  | refused (refusal : Refusal)

/-- What the words of a command say. -/
structure Arguments where
  settings : List Setting
  /-- The operands in their order; one that only the mark was left for holds no text. -/
  operands : List (Option String)
  leftOver : List String

/-- How far the words of a command are read. -/
structure Progress extends Arguments where
  /-- The operands that are still to come. -/
  pending : List Operand
  /-- Whether the last word is an operand. -/
  afterOperand : Bool
  /-- Whether the mark belongs to the next operand. -/
  marked : Bool

namespace Progress

def start (c : Command) : Progress := ⟨⟨[], [], []⟩, c.operands, false, false⟩

def leave (p : Progress) (word : String) : Progress :=
  { p with leftOver := p.leftOver ++ [word], afterOperand := false }

/-- A word is the next operand.  An operand without a mark of its own takes a second mark for the
first one. -/
def word (p : Progress) (text : String) : Progress :=
  match p.pending with
  | [] => p.leave text
  | _ :: pending =>
    let operand := if text = "--" ∧ ¬ p.marked then none else some text
    { p with operands := p.operands ++ [operand], pending, afterOperand := true, marked := false }

/-- The mark belongs to the operand in front of it or else to the next one. -/
def mark (p : Progress) : Progress :=
  if p.afterOperand then { p with afterOperand := false }
  else if p.pending = [] then p.leave "--"
  else { p with marked := true }

/-- One more setting, unless it excludes one that was given. -/
def setting (c : Command) (p : Progress) (s : Setting) : Except Stop Progress :=
  match s with
  | .help => .error (.help (some c))
  | s =>
    match s.switch.rival? with
    | some other =>
      if p.settings.any fun given => given.switch = other then
        .error (.refused ⟨some c, .rivals s.switch other⟩)
      else .ok { p with settings := p.settings ++ [s], afterOperand := false }
    | none => .ok { p with settings := p.settings ++ [s], afterOperand := false }

end Progress

def refuse (c : Option Command) (problem : Problem) : Stop := .refused ⟨c, problem⟩

/-- Reads the words of a command; if a switch waits for its value, the next word is it. -/
def readTokens (c : Command) (p : Progress) : Option Waiting → List Token → Except Stop Progress
  | none, [] => .ok p
  | some w, .word text :: rest => do
    let setting ← (readValue w.switch w.read text).mapError (refuse c)
    readTokens c (← p.setting c setting) none rest
  | some w, _ => .error (refuse c (.valueMissing w.switch))
  | none, .word text :: rest => readTokens c (p.word text) none rest
  | none, .mark :: rest => readTokens c p.mark none rest
  | none, .unknown text :: rest => readTokens c (p.leave text) none rest
  | none, .switch s attached :: rest => do
    let cluster ← (Cluster.ofSwitch c.switches s attached).mapError (refuse c)
    let p := match cluster.rest with
      | some text => p.leave text
      | none => p
    let p ← cluster.settings.foldlM (Progress.setting c) { p with afterOperand := false }
    readTokens c p cluster.waiting rest

/-- The operands and switches that a command needs and was not given. -/
def missing (c : Command) (p : Progress) : List String :=
  (p.pending.filter Operand.required).map Operand.name ++
    (c.requiredSwitches.filter fun s => !p.settings.any fun given => given.switch = s).map Switch.label

def Arguments.ofWords (c : Command) (words : List String) : Except Stop Arguments := do
  let ts ← (tokens c.switches words).mapError (refuse c)
  let p ← readTokens c (.start c) none ts
  match missing c p with
  | [] => return p.toArguments
  | names => throw (refuse c (.missing names))

/-! ## The command word -/

/-- The command, its words and what is left over in front of it. -/
structure Call where
  command : Command
  words : List String
  leftOver : List String

/-- Looks for the command among the words; `words` are the tokens as they were given. -/
def findCommand (leftOver : List String) : List Token → List String → Except Stop Call
  | .word text :: _, _ :: words =>
    match Command.ofWord? text with
    | some command => .ok ⟨command, words, leftOver⟩
    | none => .error (refuse none (.unknownCommand text))
  | .mark :: _ :: _, _ => .error (refuse none (.unknownCommand "--"))
  | .unknown text :: ts, _ :: words => findCommand (leftOver ++ [text]) ts words
  | .switch s attached :: _, _ =>
    match Cluster.ofSwitch [.help] s attached with
    | .error problem => .error (refuse none problem)
    | .ok _ => .error (.help none)
  | _, _ => .error (refuse none (.missing ["command"]))

def Call.ofWords (words : List String) : Except Stop Call := do
  findCommand [] (← (tokens [.help] words).mapError (refuse none)) words

end LayerGate.CommandLine
