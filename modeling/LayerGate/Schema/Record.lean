import LayerGate.Schema.Scalar

/-!
# Records

A table with fixed keys.  Complaints come in the order in which the fields are declared, and those
about unknown keys after them in the order of the table.
-/

namespace LayerGate.Schema

/-- Reads some fields of a table, and tells which keys it has used. -/
structure Reader (α : Type) where
  used : Fields → List String
  run : Fields → Checked α

namespace Reader

instance : Applicative Reader where
  pure a := ⟨fun _ => [], fun _ => .valid a⟩
  seq f a := ⟨fun fs => f.used fs ++ (a ()).used fs, fun fs => f.run fs <*> (a ()).run fs⟩

/-- The first of the names that is a key, with its value. -/
def found? (names : List String) (fields : Fields) : Option (String × Value) :=
  names.findSome? fun name => (Fields.get? fields name).map (name, ·)

/-- A field that may be known by several names; `absent` says what its absence means. -/
def field {α : Type} (names : List String) (read : Value → Checked α) (absent : Checked α) :
    Reader α where
  used fields := ((found? names fields).map (·.1)).toList
  run fields :=
    match found? names fields with
    | some (name, v) => (read v).inside (.key name)
    | none => absent

def required {α : Type} (names : List String) (read : Value → Checked α) : Reader α :=
  field names read ((Checked.complain .missing).inside (.key (names.headD "")))

def optional {α : Type} (names : List String) (read : Value → Checked α) (default : α) : Reader α :=
  field names read (.valid default)

end Reader

def unknownKeys (used : List String) (fields : Fields) : List Complaint :=
  (fields.filter fun f => !used.contains f.1).map fun f => ⟨[.key f.1], .unknownKey⟩

/-- A record named `name` in complaints. -/
def record {α : Type} (name : String) (r : Reader α) : Value → Checked α
  | .table fields =>
    match unknownKeys (r.used fields) fields with
    | [] => r.run fields
    | unknown => Checked.both (fun a (_ : Unit) => a) (r.run fields) (.invalid unknown)
  | _ => .complain (.notRecord name)

end LayerGate.Schema
