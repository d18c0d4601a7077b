import LayerGate.Disk.Basic
import LayerGate.Disk.Fault
import LayerGate.Path.Basic

/-!
# Looking things up on a disk

Names are followed one by one from a folder, and links are followed as they are met.  Positions on
the disk are lists of names from its root.
-/

namespace LayerGate.Disk

/-- The longest name, in bytes. -/
def nameLimit : Nat := 255

/-- The longest path text, in bytes. -/
def pathLimit : Nat := 4095

/-- At most so many links are followed in one look-up. -/
def linkLimit : Nat := 40

def pieces (path : String) : List String := Text.split '/' path

/-- Where a link leads from: the root for an absolute target, its own folder otherwise. -/
def originOf (here : List String) (target : String) : List String :=
  if target.startsWith "/" then [] else here

/-- Where a look-up ends. -/
inductive Place where
  | found (position : List String)
  /-- Only the last name is missing in the folder. -/
  | missing (folder : List String) (name : String)

/-- Follows the names from the folder `here`; `links` more links may be followed. -/
def walk (d : Disk) (links : Nat) (here : List String) (names : List String) : Except Cause Place :=
  match names with
  | [] => .ok (.found here)
  | name :: rest =>
    match d.at? here with
    | some (.folder entries) =>
      if name = "" ∨ name = "." then walk d links here rest
      else if name = ".." then walk d links here.dropLast rest
      else if name.utf8ByteSize > nameLimit then .error .nameTooLong
      else match entries.lookup name with
        | none => if rest = [] then .ok (.missing here name) else .error .noEntry
        | some (.link target) =>
          match links with
          | 0 => .error .tooManyLinks
          | links + 1 => walk d links (originOf here target) (pieces target ++ rest)
        | some _ => walk d links (here ++ [name]) rest
    | _ => .error .notFolder
  termination_by (links, names.length)

/-- The place of a path, counted from the folder `base`. -/
def place (d : Disk) (base : List String) (path : String) : Except Cause Place :=
  if path.utf8ByteSize > pathLimit then .error .nameTooLong
  else walk d linkLimit (originOf base path) (pieces path)

/-- The position of what is there. -/
def locate (d : Disk) (base : List String) (path : String) : Except Cause (List String) := do
  match ← d.place base path with
  | .found position => return position
  | .missing _ _ => throw .noEntry

/-- What is there once every link is followed. -/
def look (d : Disk) (base : List String) (path : String) : Except Cause Entry := do
  match d.at? (← d.locate base path) with
  | some e => return e
  | none => throw .noEntry

/-- What is there, or nothing if the cause says no more than that.  A text with a NUL is no path, so
nothing is there. -/
def find? (d : Disk) (base : List String) (path : String) : Except Fault (Option Entry) :=
  if path.contains '\x00' then .ok none
  else match d.look base path with
    | .ok e => .ok (some e)
    | .error c => if c.isAbsence then .ok none else .error ⟨c, path⟩

/-! ## Real positions -/

/-- The text of a position. -/
def absolute (position : List String) : String := "/" ++ Path.ofNames position

/-- Where a path leads when what does not exist is taken by its name. -/
inductive Destination where
  | position (names : List String)
  /-- Following the links never ends; the names say where that was noticed. -/
  | loop (names : List String)

/-- Takes names back for each `..`, without looking at the disk. -/
def climbed (names : List String) : List String :=
  Path.climb true [] (names.filter fun n => n ≠ "" ∧ n ≠ ".")

/-- Follows every link on the way; `active` are the links that are being followed, and `depth` bounds
their number. -/
def follow (d : Disk) (depth : Nat) (active : List (List String)) (here : List String)
    (names : List String) : Destination :=
  match names with
  | [] => .position here
  | name :: rest =>
    if name = "" ∨ name = "." then follow d depth active here rest
    else if name = ".." then follow d depth active here.dropLast rest
    else
      let next := here ++ [name]
      match d.at? next with
      | some (.link target) =>
        match depth with
        | 0 => .loop (climbed (next ++ rest))
        | depth + 1 =>
          if next ∈ active then .loop (climbed (next ++ rest))
          else match follow d depth (next :: active) (originOf here target) (pieces target) with
            | .loop names => .loop (climbed (names ++ rest))
            | .position there => follow d (depth + 1) active there rest
      | _ => follow d depth active next rest
  termination_by (depth, names.length)

/-- The destination of a path, counted from the folder `base`. -/
def destination (d : Disk) (base : List String) (path : String) : Destination :=
  follow d (d.linkCount + 1) [] (originOf base path) (pieces path)

end LayerGate.Disk
