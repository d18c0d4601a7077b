import LayerGate.Value.Basic
import LayerGate.Value.Toml.Problem

/-!
# Tables of a TOML document

The tables that the statements of a document build, with the marks that keep a part of them from
being declared or changed again.
-/

namespace LayerGate.Value.Toml

/-- Why a table cannot be reached or extended: a value that is no table stands there. -/
inductive Obstacle where
  | occupied

/-- Changes the table at the end of a key; tables that are missing on the way are made.  Where
`throughLists` holds, a list on the way stands for its last table. -/
def inTable (throughLists : Bool) (change : Fields → Except Obstacle Fields) :
    Key → Fields → Except Obstacle Fields
  | [], fields => change fields
  | name :: rest, fields => do
    match Fields.get? fields name with
    | none => return Fields.put fields name (.table (← inTable throughLists change rest []))
    | some (.table inner) =>
      return Fields.put fields name (.table (← inTable throughLists change rest inner))
    | some (.list items) =>
      match throughLists, items.getLast? with
      | true, some (.table inner) =>
        return Fields.put fields name
          (.list (items.dropLast ++ [.table (← inTable throughLists change rest inner)]))
      | _, _ => throw .occupied
    | some _ => throw .occupied

/-- Appends an empty table to the list under a name, or begins the list. -/
def appendTable (name : String) (fields : Fields) : Except Obstacle Fields :=
  match Fields.get? fields name with
  | none => .ok (Fields.put fields name (.list [.table []]))
  | some (.list items) => .ok (Fields.put fields name (.list (items ++ [.table []])))
  | some _ => .error .occupied

/-- Adds a value under a name that is free. -/
def addNew (name : String) (v : Value) (fields : Fields) : Except Obstacle Fields :=
  match Fields.get? fields name with
  | none => .ok (Fields.put fields name v)
  | some _ => .error .occupied

/-- The keys that are marked. -/
structure Marks where
  /-- Keys with everything below them: nothing there may be added or declared. -/
  frozen : List Key
  /-- Tables that have been declared. -/
  declared : List Key
  /-- Tables that dotted keys have made since the last declaration. -/
  pending : List Key

namespace Marks

def none : Marks := ⟨[], [], []⟩

def isFrozen (m : Marks) (key : Key) : Bool := m.frozen.any (·.isPrefixOf key)

def isDeclared (m : Marks) (key : Key) : Bool := m.declared.contains key

def freeze (m : Marks) (key : Key) : Marks := { m with frozen := key :: m.frozen }

def declare (m : Marks) (key : Key) : Marks := { m with declared := key :: m.declared }

def addPending (m : Marks) (key : Key) : Marks := { m with pending := key :: m.pending }

/-- What dotted keys have made counts as declared from here on. -/
def settle (m : Marks) : Marks := { m with declared := m.pending ++ m.declared, pending := [] }

/-- Forgets the marks of a key and of everything below it. -/
def release (m : Marks) (key : Key) : Marks :=
  { m with
    frozen := m.frozen.filter (!key.isPrefixOf ·)
    declared := m.declared.filter (!key.isPrefixOf ·) }

end Marks

end LayerGate.Value.Toml
