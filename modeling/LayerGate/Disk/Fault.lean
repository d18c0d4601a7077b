import LayerGate.Text.Quoted

/-!
# What a disk answers when it refuses

The causes, and the text that names the path.
-/

namespace LayerGate.Disk

inductive Cause where
  | noEntry
  | notFolder
  | isFolder
  | nameTooLong
  | tooManyLinks
  deriving DecidableEq, Repr

namespace Cause

def number : Cause → Nat
  | noEntry => 2
  | notFolder => 20
  | isFolder => 21
  | nameTooLong => 36
  | tooManyLinks => 40

def words : Cause → String
  | noEntry => "No such file or directory"
  | notFolder => "Not a directory"
  | isFolder => "Is a directory"
  | nameTooLong => "File name too long"
  | tooManyLinks => "Too many levels of symbolic links"

/-- Whether the cause says only that nothing is there. -/
def isAbsence : Cause → Bool
  | noEntry | notFolder | tooManyLinks => true
  | isFolder | nameTooLong => false

end Cause

/-- A refusal, with the path as it was given. -/
structure Fault where
  cause : Cause
  path : String
  deriving DecidableEq, Repr

def Fault.message (f : Fault) : String :=
  "[Errno " ++ toString f.cause.number ++ "] " ++ f.cause.words ++ ": " ++ Text.quoted f.path

end LayerGate.Disk
