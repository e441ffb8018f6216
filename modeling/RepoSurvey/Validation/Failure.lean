/-!
# Failures of validation

What is wrong with a given value and where: a failure has a cause and the path to the value that
causes it. Several failures of one input are shown together.
-/

namespace RepoSurvey

/-- A step into a value: a field by its name, or an item by its position. -/
inductive Key
  | field (name : String)
  | item (index : Nat)
  deriving DecidableEq, Repr

def Key.text : Key → String
  | .field name => name
  | .item index => toString index

namespace Failure

inductive Cause
  | missing
  | belowLeast (least : Int)
  | aboveOne
  | notInteger
  | integerText
  | integerSize
  | fractional
  | notFinite
  | notNumber
  | numberText
  | notText
  | emptyText
  | notList
  | notTable
  | notSet
  | notBoolean
  | booleanText
  | notRecord (name : String)
  | notMember (members : List String)
  | endBeforeStart (start stop : Int)
  deriving DecidableEq, Repr

/-- Alternatives in quotes, with "or" before the last. -/
def alternatives (members : List String) : String :=
  let quoted := members.map fun m => "'" ++ m ++ "'"
  match quoted.dropLast, quoted.getLast? with
  | [], last => last.getD ""
  | init, last => ", ".intercalate init ++ " or " ++ last.getD ""

def Cause.message : Cause → String
  | .missing => "Field required"
  | .belowLeast least => s!"Input should be greater than or equal to {least}"
  | .aboveOne => "Input should be less than or equal to 1"
  | .notInteger => "Input should be a valid integer"
  | .integerText => "Input should be a valid integer, unable to parse string as an integer"
  | .integerSize => "Unable to parse input string as an integer, exceeded maximum size"
  | .fractional => "Input should be a valid integer, got a number with a fractional part"
  | .notFinite => "Input should be a finite number"
  | .notNumber => "Input should be a valid number"
  | .numberText => "Input should be a valid number, unable to parse string as a number"
  | .notText => "Input should be a valid string"
  | .emptyText => "String should have at least 1 character"
  | .notList => "Input should be a valid list"
  | .notTable => "Input should be a valid dictionary"
  | .notSet => "Input should be a valid frozenset"
  | .notBoolean => "Input should be a valid boolean"
  | .booleanText => "Input should be a valid boolean, unable to interpret input"
  | .notRecord name => s!"Input should be a valid dictionary or instance of {name}"
  | .notMember members => "Input should be " ++ alternatives members
  | .endBeforeStart start stop => s!"Value error, end ({stop}) must be >= start ({start})"

/-- The short name of a cause. -/
def Cause.code : Cause → String
  | .missing => "missing"
  | .belowLeast _ => "greater_than_equal"
  | .aboveOne => "less_than_equal"
  | .notInteger => "int_type"
  | .integerText => "int_parsing"
  | .integerSize => "int_parsing_size"
  | .fractional => "int_from_float"
  | .notFinite => "finite_number"
  | .notNumber => "float_type"
  | .numberText => "float_parsing"
  | .notText => "string_type"
  | .emptyText => "string_too_short"
  | .notList => "list_type"
  | .notTable => "dict_type"
  | .notSet => "frozen_set_type"
  | .notBoolean => "bool_type"
  | .booleanText => "bool_parsing"
  | .notRecord _ => "model_type"
  | .notMember _ => "literal_error"
  | .endBeforeStart .. => "value_error"

end Failure

structure Failure where
  location : List Key
  cause : Failure.Cause
  deriving DecidableEq, Repr

namespace Failure

def text (f : Failure) : String :=
  ".".intercalate (f.location.map Key.text) ++ ": " ++ f.cause.message ++ " [" ++ f.cause.code ++ "]"

def textOfAll (failures : List Failure) : String := "; ".intercalate (failures.map text)

end Failure

end RepoSurvey
