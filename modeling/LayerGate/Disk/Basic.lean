/-!
# Disks

A directory tree: files, symbolic links and folders.  Where a tree is looked at by names alone, no
link is followed.
-/

namespace LayerGate

inductive Entry where
  | file (content : ByteArray)
  | link (target : String)
  | folder (entries : List (String × Entry))
  deriving Inhabited

namespace Entry

def entries : Entry → List (String × Entry)
  | folder es => es
  | _ => []

def isFile : Entry → Bool
  | file _ => true
  | _ => false

def isFolder : Entry → Bool
  | folder _ => true
  | _ => false

def child? (e : Entry) (name : String) : Option Entry := e.entries.lookup name

/-- The entry at the end of the names. -/
def at? (e : Entry) : List String → Option Entry
  | [] => some e
  | name :: rest => (e.child? name).bind (·.at? rest)

@[simp] theorem at?_nil (e : Entry) : e.at? [] = some e := rfl

theorem at?_append (e : Entry) (path rest : List String) :
    e.at? (path ++ rest) = (e.at? path).bind (·.at? rest) := by
  induction path generalizing e with
  | nil => rfl
  | cons name path ih =>
    cases h : e.child? name with
    | none => simp [at?, h]
    | some c => simp [at?, h, ih]

mutual

/-- How many links the tree holds. -/
def linkCount : Entry → Nat
  | file _ => 0
  | link _ => 1
  | folder es => linkCountIn es

def linkCountIn : List (String × Entry) → Nat
  | [] => 0
  | (_, e) :: es => linkCount e + linkCountIn es

end

end Entry

/-- A whole disk: its root folder. -/
abbrev Disk := Entry

end LayerGate
