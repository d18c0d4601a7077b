/-!
# Complaints

What a schema has against a value: where in the document the value stands, and what is wrong with it.
-/

namespace LayerGate.Schema

/-- One step from a value into it. -/
inductive Step where
  | key (name : String)
  | index (i : Nat)
  deriving DecidableEq, Repr

inductive Trouble where
  | notText
  | notList
  | notSet
  | notTable
  | notRecord (record : String)
  | notBool
  | unclearBool
  | notInteger
  | unclearInteger
  | fractionalInteger
  | hugeInteger
  | infiniteInteger
  | integerBelow (least : Int)
  | notNumber
  | unclearNumber
  | numberNotAbove (bound : Int)
  | notOneOf (words : List String)
  | notCode (words : List String)
  | missing
  | unknownKey
  | brokenRule (rule : String)
  deriving DecidableEq, Repr

structure Complaint where
  path : List Step
  trouble : Trouble
  deriving DecidableEq, Repr

/-- The machine-readable word for the trouble. -/
def Trouble.code : Trouble → String
  | .notText => "string_type"
  | .notList => "tuple_type"
  | .notSet => "frozen_set_type"
  | .notTable => "dict_type"
  | .notRecord _ => "model_type"
  | .notBool => "bool_type"
  | .unclearBool => "bool_parsing"
  | .notInteger => "int_type"
  | .unclearInteger => "int_parsing"
  | .fractionalInteger => "int_from_float"
  | .hugeInteger => "int_parsing_size"
  | .infiniteInteger => "finite_number"
  | .integerBelow _ => "greater_than_equal"
  | .notNumber => "float_type"
  | .unclearNumber => "float_parsing"
  | .numberNotAbove _ => "greater_than"
  | .notOneOf _ => "literal_error"
  | .notCode _ => "enum"
  | .missing => "missing"
  | .unknownKey => "extra_forbidden"
  | .brokenRule _ => "value_error"

/-- Words in quotes: commas between them, and `or` before the last. -/
def choices (words : List String) : String :=
  match (words.map fun w => "'" ++ w ++ "'").reverse with
  | [] => ""
  | [w] => w
  | last :: others => ", ".intercalate others.reverse ++ " or " ++ last

def Trouble.message : Trouble → String
  | .notText => "Input should be a valid string"
  | .notList => "Input should be a valid tuple"
  | .notSet => "Input should be a valid frozenset"
  | .notTable => "Input should be a valid dictionary"
  | .notRecord record => "Input should be a valid dictionary or instance of " ++ record
  | .notBool => "Input should be a valid boolean"
  | .unclearBool => "Input should be a valid boolean, unable to interpret input"
  | .notInteger => "Input should be a valid integer"
  | .unclearInteger => "Input should be a valid integer, unable to parse string as an integer"
  | .fractionalInteger => "Input should be a valid integer, got a number with a fractional part"
  | .hugeInteger => "Unable to parse input string as an integer, exceeded maximum size"
  | .infiniteInteger => "Input should be a finite number"
  | .integerBelow least => "Input should be greater than or equal to " ++ toString least
  | .notNumber => "Input should be a valid number"
  | .unclearNumber => "Input should be a valid number, unable to parse string as a number"
  | .numberNotAbove bound => "Input should be greater than " ++ toString bound
  | .notOneOf words | .notCode words => "Input should be " ++ choices words
  | .missing => "Field required"
  | .unknownKey => "Extra inputs are not permitted"
  | .brokenRule rule => "Value error, " ++ rule

end LayerGate.Schema
