import LayerGate.CommandLine.Command
import LayerGate.Text.Quoted

/-!
# Refused command lines

Why the words of a command line make no request.
-/

namespace LayerGate.CommandLine

inductive Problem where
  | ambiguous (word : String) (names : List String)
  /-- A value is attached to a switch that takes none. -/
  | attachedValue (switch : Switch) (value : String)
  | valueMissing (switch : Switch)
  | badValue (switch : Switch) (problem : BadValue)
  | rivals (switch other : Switch)
  | unknownCommand (word : String)
  | missing (names : List String)
  | unrecognized (words : List String)
  deriving DecidableEq, Repr

/-- A problem, and the command whose words are at fault. -/
structure Refusal where
  command : Option Command
  problem : Problem
  deriving DecidableEq, Repr

def choiceRule (word : String) (choices : List String) : String :=
  "invalid choice: " ++ Text.quoted word ++ " (choose from " ++
    ", ".intercalate (choices.map Text.quoted) ++ ")"

def BadValue.message : BadValue → String
  | notNumber word => "invalid float value: " ++ Text.quoted word
  | notOneOf word choices => choiceRule word choices

def about (label message : String) : String := "argument " ++ label ++ ": " ++ message

def Problem.message : Problem → String
  | ambiguous word names => "ambiguous option: " ++ word ++ " could match " ++ ", ".intercalate names
  | attachedValue s value => about s.label ("ignored explicit argument " ++ Text.quoted value)
  | valueMissing s => about s.label "expected one argument"
  | badValue s problem => about s.label problem.message
  | rivals s other => about s.label ("not allowed with argument " ++ other.label)
  | unknownCommand word => about "command" (choiceRule word (Command.all.map Command.word))
  | missing names => "the following arguments are required: " ++ ", ".intercalate names
  | unrecognized words => "unrecognized arguments: " ++ " ".intercalate words

/-- The name of the program. -/
def programName : String := "layercheck"

def Refusal.message (r : Refusal) : String :=
  let program := match r.command with
    | some c => programName ++ " " ++ c.word
    | none => programName
  program ++ ": error: " ++ r.problem.message

end LayerGate.CommandLine
