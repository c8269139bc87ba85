import Workflow.Value.Basic
import Workflow.Text.Quoted

/-!
What is wrong with a document, and where. A location is the way from the root of the document; a
violation is a location with the kind and the message of its problem.
-/

namespace Workflow

/-- One step into a document. -/
inductive Step where
  | key (name : String)
  | index (i : Int)
  deriving DecidableEq, Repr

abbrev Location := List Step

namespace Step

def text : Step → String
  | .key name => name
  | .index i => String.ofList (intText i)

def toValue : Step → Value
  | .key name => .text name
  | .index i => .int i

end Step

structure Violation where
  location : Location
  message : String
  kind : String
  deriving DecidableEq, Repr

namespace Violation

/-- The steps with dots between them. -/
def path (v : Violation) : String := ".".intercalate (v.location.map Step.text)

def toValue (v : Violation) : Value :=
  .table [("loc", .list (v.location.map Step.toValue)), ("msg", .text v.message),
    ("type", .text v.kind)]

end Violation

/-- The ways in which a value can miss what is expected in its place. -/
inductive Problem where
  | missing
  | notModel (model : String)
  | notTable
  | notList
  | notText
  | emptyText
  | notChoice (options : List String)
  | notInteger
  | notNumber
  | notPositive
  | belowZero
  | aboveOne
  | badTimestamp (text : String)
  | localTimestamp (text : String)
  deriving DecidableEq, Repr

/-- Quoted options with commas between them and `or` before the last. -/
def choiceText (options : List String) : String :=
  let quotedOptions := options.map quoted
  match quotedOptions.reverse with
  | [] => ""
  | [only] => only
  | last :: before => ", ".intercalate before.reverse ++ " or " ++ last

namespace Problem

def kind : Problem → String
  | .missing => "missing"
  | .notModel _ => "model_type"
  | .notTable => "dict_type"
  | .notList => "tuple_type"
  | .notText => "string_type"
  | .emptyText => "string_too_short"
  | .notChoice _ => "enum"
  | .notInteger => "int_type"
  | .notNumber => "float_type"
  | .notPositive => "greater_than"
  | .belowZero => "greater_than_equal"
  | .aboveOne => "less_than_equal"
  | .badTimestamp _ | .localTimestamp _ => "value_error"

def message : Problem → String
  | .missing => "Field required"
  | .notModel model => s!"Input should be a valid dictionary or instance of {model}"
  | .notTable => "Input should be a valid dictionary"
  | .notList => "Input should be a valid tuple"
  | .notText => "Input should be a valid string"
  | .emptyText => "String should have at least 1 character"
  | .notChoice options => s!"Input should be {choiceText options}"
  | .notInteger => "Input should be a valid integer"
  | .notNumber => "Input should be a valid number"
  | .notPositive => "Input should be greater than 0"
  | .belowZero => "Input should be greater than or equal to 0"
  | .aboveOne => "Input should be less than or equal to 1"
  | .badTimestamp text => s!"Value error, Invalid ISO-8601 datetime: {quoted text}"
  | .localTimestamp text => s!"Value error, Datetime must include a timezone: {quoted text}"

/-- The problem as a violation at a location. -/
def violation (p : Problem) (location : Location) : Violation := ⟨location, p.message, p.kind⟩

end Problem

end Workflow
