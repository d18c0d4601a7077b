/-!
# Values

Data that a document denotes, before any schema has looked at it.  JSON texts and TOML documents
are both read into this type, and the structured report is printed from it.
-/

namespace LayerGate

inductive Value where
  | null
  | bool (b : Bool)
  | int (n : Int)
  | real (x : Float)
  | text (s : String)
  /-- A date, a time of day or both: no schema here has a field for one, so nothing more is kept. -/
  | moment
  | list (items : List Value)
  | table (fields : List (String × Value))
  deriving Inhabited

/-- The fields of a table in the order in which their keys first appear. -/
abbrev Fields := List (String × Value)

namespace Fields

def get? (fields : Fields) (key : String) : Option Value :=
  fields.lookup key

/-- The later value wins and takes the place of the earlier one. -/
def put (fields : Fields) (key : String) (v : Value) : Fields :=
  match fields with
  | [] => [(key, v)]
  | (k, w) :: rest => if k = key then (k, v) :: rest else (k, w) :: put rest key v

theorem get?_put_self (fields : Fields) (key : String) (v : Value) :
    (fields.put key v).get? key = some v := by
  induction fields with
  | nil => simp [put, get?]
  | cons f rest ih =>
    obtain ⟨k, w⟩ := f
    by_cases h : k = key
    · simp [put, get?, h]
    · have : (key == k) = false := by simpa using fun e => h e.symm
      simpa [put, get?, List.lookup_cons, h, this] using ih

end Fields

/-- The value under a key of a table. -/
def Value.field? : Value → String → Option Value
  | .table fields, key => Fields.get? fields key
  | _, _ => none

end LayerGate
