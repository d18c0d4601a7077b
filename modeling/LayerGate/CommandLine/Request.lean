import LayerGate.CommandLine.Arguments

/-!
# Requests

What a command line asks for, once its words are read.  Of a setting that is given again the last one
counts, save that blocking reasons add up.
-/

namespace LayerGate.CommandLine

inductive Verbosity where
  | debug
  | normal
  | quiet
  deriving DecidableEq, Repr

/-- What every command is told. -/
structure Scope where
  root : String
  config : Option String
  timeout : Option Float
  verbosity : Verbosity

inductive Request where
  /-- The reasons that fail the verdict are those of the configuration if none are given. -/
  | check (scope : Scope) (format : Format) (blocking : Option (List Reason)) (output : Option String)
  | verify (scope : Scope) (report : String)
  | path (scope : Scope) (source target : Option String)

def Request.scope : Request → Scope
  | check scope _ _ _ | verify scope _ | path scope _ _ => scope

/-- The last value that a choice finds. -/
def last? {α : Type} (choice : Setting → Option α) (settings : List Setting) : Option α :=
  (settings.filterMap choice).getLast?

/-- A text that is not empty. -/
def nonempty? (text : String) : Option String := if text = "" then none else some text

def verbosity (settings : List Setting) : Verbosity :=
  match last? (fun | .verbose => some Verbosity.debug | .quiet => some .quiet | _ => none) settings with
  | some v => v
  | none => .normal

/-- The reasons that are to fail the verdict, if any setting says so. -/
def blockingReasons? (settings : List Setting) : Option (List Reason) :=
  if settings.any fun | .noBlocking => true | _ => false then some []
  else match settings.filterMap fun | .blocking r => some r | _ => none with
    | [] => none
    | reasons => some reasons

namespace Arguments

/-- The operand at an index. -/
def operand (a : Arguments) (i : Nat) : Option String := (a.operands[i]?).join

/-- Without a root, the current folder is it. -/
def scope (a : Arguments) : Scope where
  root := (a.operand 0).getD "."
  config := (last? (fun | .config path => some path | _ => none) a.settings).bind nonempty?
  timeout := last? (fun | .timeout x => some x | _ => none) a.settings
  verbosity := CommandLine.verbosity a.settings

def request (a : Arguments) : Command → Request
  | .check =>
    .check a.scope ((last? (fun | .format f => some f | _ => none) a.settings).getD .text)
      (blockingReasons? a.settings)
      ((last? (fun | .output path => some path | _ => none) a.settings).bind nonempty?)
  | .verify => .verify a.scope ((last? (fun | .report path => some path | _ => none) a.settings).getD "")
  | .path => .path a.scope (a.operand 1) (a.operand 2)

end Arguments

/-- The request in the words of a command line; no word may be left over. -/
def Request.ofWords (words : List String) : Except Stop Request := do
  let call ← Call.ofWords words
  let arguments ← Arguments.ofWords call.command call.words
  match call.leftOver ++ arguments.leftOver with
  | [] => return arguments.request call.command
  | leftOver => throw (refuse none (.unrecognized leftOver))

end LayerGate.CommandLine
