import LayerGate.Schema.Complaint
import LayerGate.Value.Basic

/-!
# Accounts of complaints

What a user is told when a document breaks its schema: how many complaints there are, and lines about
each.  What is shown of the values in the document, and where to read on, is up to the voice that tells
it.
-/

namespace LayerGate.Schema

/-- How a schema speaks of a document that it complains about. -/
structure Voice where
  /-- What is shown of the value that a complaint about the document is about. -/
  input : Value → Complaint → Option String
  /-- Where more is said about complaints with this code. -/
  page : String → Option String

/-- A key with a dot in it is set apart. -/
def Step.text : Step → String
  | .key name => if name.contains '.' then "`" ++ name ++ "`" else name
  | .index i => toString i

def Complaint.place (c : Complaint) : String := ".".intercalate (c.path.map Step.text)

namespace Voice

/-- Speaks of no values and of no pages. -/
def terse : Voice := ⟨fun _ _ => none, fun _ => none⟩

/-- The line that says what is wrong, without the place. -/
def trouble (v : Voice) (document : Value) (c : Complaint) : String :=
  "  " ++ c.trouble.message ++ " [type=" ++ c.trouble.code ++
    (match v.input document c with
      | some input => ", " ++ input
      | none => "") ++ "]"

/-- The lines about one complaint.  The document as a whole has no place. -/
def lines (v : Voice) (document : Value) (c : Complaint) : List String :=
  (if c.path = [] then [] else [c.place]) ++ v.trouble document c ::
    match v.page c.trouble.code with
    | some page => ["    For further information visit " ++ page]
    | none => []

/-- The number of complaints, and the name of what the document was to be. -/
def headline (name : String) (cs : List Complaint) : String :=
  toString cs.length ++ " validation error" ++ (if cs.length = 1 then "" else "s") ++ " for " ++ name

def account (v : Voice) (name : String) (document : Value) (cs : List Complaint) : String :=
  headline name cs ++ "\n" ++ "\n".intercalate (cs.flatMap (v.lines document))

end Voice

end LayerGate.Schema
