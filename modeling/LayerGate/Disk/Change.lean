import LayerGate.Disk.Lookup

/-!
# Changing a disk

Writing a file, making folders, placing links and removing what is there.
-/

namespace LayerGate

namespace Entry

/-- The entries with `e` under `name`, in the place of what was there. -/
def putIn (name : String) (e : Entry) : List (String × Entry) → List (String × Entry)
  | [] => [(name, e)]
  | (n, old) :: rest => if n = name then (n, e) :: rest else (n, old) :: putIn name e rest

theorem lookup_putIn (name other : String) (e : Entry) (es : List (String × Entry)) :
    (putIn name e es).lookup other = if other = name then some e else es.lookup other := by
  induction es with
  | nil =>
    by_cases h : other = name
    · simp [putIn, h]
    · have hb : (other == name) = false := by simpa using h
      simp [putIn, List.lookup_cons, h, hb]
  | cons x rest ih =>
    obtain ⟨n, old⟩ := x
    by_cases ho : other = n
    · subst ho
      by_cases hn : other = name
      · simp [putIn, hn]
      · simp [putIn, hn]
    · have hb : (other == n) = false := by simpa using ho
      by_cases hn : n = name
      · subst hn
        simp [putIn, List.lookup_cons, ho, hb]
      · simp [putIn, List.lookup_cons, hn, hb, ih]

/-- The tree with `new` at the end of the names; folders that are missing on the way are made. -/
def putAt (e : Entry) (path : List String) (new : Entry) : Entry :=
  match path with
  | [] => new
  | name :: rest =>
    .folder (putIn name (((e.child? name).getD (.folder [])).putAt rest new) e.entries)

/-- The tree without what is at the end of the names. -/
def removeAt (e : Entry) (path : List String) : Entry :=
  match path, e with
  | [name], .folder es => .folder (es.filter (·.1 ≠ name))
  | name :: rest, .folder es =>
    match es.lookup name with
    | some child => .folder (putIn name (child.removeAt rest) es)
    | none => .folder es
  | _, e => e

theorem at?_putAt_self (e : Entry) (path : List String) (new : Entry) :
    (e.putAt path new).at? path = some new := by
  induction path generalizing e with
  | nil => rfl
  | cons name rest ih => simp [putAt, at?, child?, entries, lookup_putIn, ih]

end Entry

namespace Disk

/-- Writes a file, counted from the folder `base`: links are followed, and a missing file is made in
a folder that is there. -/
def write (d : Disk) (base : List String) (path : String) (content : ByteArray) :
    Except Fault Disk :=
  match d.place base path with
  | .error c => .error ⟨c, path⟩
  | .ok (.missing folder name) => .ok (d.putAt (folder ++ [name]) (.file content))
  | .ok (.found position) =>
    match d.at? position with
    | some (.folder _) => .error ⟨.isFolder, path⟩
    | _ => .ok (d.putAt position (.file content))

/-- The folder of a path and its last name, with every link on the way to the folder followed. -/
def landing (d : Disk) (base : List String) (path : String) : List String × String :=
  let names := Path.names path
  match d.destination base (Path.ofNames names.dropLast) with
  | .position folder | .loop folder => (folder, names.getLast?.getD "")

/-- Puts an entry in the place of what a path names, and makes the folders above it. -/
def placeAt (d : Disk) (base : List String) (path : String) (e : Entry) : Disk :=
  let (folder, name) := d.landing base path
  d.putAt (folder ++ [name]) e

/-- Removes what a path names, a link itself and not what it leads to. -/
def remove (d : Disk) (base : List String) (path : String) : Disk :=
  let (folder, name) := d.landing base path
  d.removeAt (folder ++ [name])

/-- Makes a folder unless it is there. -/
def makeFolder (d : Disk) (base : List String) (path : String) : Disk :=
  match d.destination base path with
  | .loop _ => d
  | .position names => if (d.at? names).isSome then d else d.putAt names (.folder [])

end Disk

end LayerGate
