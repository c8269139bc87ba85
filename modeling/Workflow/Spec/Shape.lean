import Workflow.Spec.Violation
import Workflow.Calendar.Timestamp

/-!
Shapes of documents, and all that is wrong with a value in the place of a shape. A model reads each
of its fields under the field's wire name, or under its own name where the wire name is absent;
keys that it does not know are passed over. The violations of a value are listed field by field in
the order of declaration, and item by item.
-/

namespace Workflow

/-- What is asked of a number beyond being one. -/
inductive Range where
  | any
  | positive
  | unit
  deriving DecidableEq, Repr

namespace Range

/-- The first bound that an integer breaks. -/
def ofInt? (range : Range) (n : Int) : Option Problem :=
  match range with
  | .any => none
  | .positive => if 0 < n then none else some .notPositive
  | .unit => if 1 < n then some .aboveOne else if n < 0 then some .belowZero else none

/-- The first bound that a double breaks. A NaN breaks every bound. -/
def ofReal? (range : Range) (x : Binary64) : Option Problem :=
  match range with
  | .any => none
  | .positive => if x.above 0 then none else some .notPositive
  | .unit =>
    if !x.atMost 1 then some .aboveOne else if !x.atLeast 0 then some .belowZero else none

/-- What keeps a value from being an integer of the range. -/
def integerProblem? (range : Range) : Value → Option Problem
  | .int n => range.ofInt? n
  | _ => some .notInteger

/-- What keeps a value from being a double of the range; an integer counts where a double can hold
it. -/
def realProblem? (range : Range) : Value → Option Problem
  | .int n => if Binary64.holdsInt n then range.ofInt? n else some .notNumber
  | .real x => range.ofReal? x
  | _ => some .notNumber

def integerName : Range → String
  | .any => "int"
  | _ => "constrained-int"

def realName : Range → String
  | .any => "float"
  | _ => "constrained-float"

/-- A number is an integer of the range or a double of it. Where it is neither, both problems are
listed, each one step further. -/
def problems (range : Range) (v : Value) : List (Step × Problem) :=
  match range.integerProblem? v, range.realProblem? v with
  | some p, some q => [(.key range.integerName, p), (.key range.realName, q)]
  | _, _ => []

end Range

/-- What keeps a text from being a timestamp with an offset. -/
def timestampProblem? (text : String) : Option Problem :=
  match Timestamp.read? text with
  | none => some (.badTimestamp text)
  | some t => if t.offset.isSome then none else some (.localTimestamp text)

mutual
/-- What is expected in a place of a document. -/
inductive Shape where
  | text (required : Bool)
  | timestamp
  | choice (name : String) (summary : Option String) (options : List String)
  | count
  | number (range : Range)
  | freeTable
  | tableOf (entry : Shape)
  | listOf (item : Shape)
  | model (name : String) (summary : Option String) (fields : List Field)
/-- A field of a model: its own name, its name on the wire, and whether it may be left out or be
`null`. -/
inductive Field where
  | mk (name wireName : String) (optional : Bool) (shape : Shape)
end

/-- What a model finds for a field: the key it reads and the value there. -/
def Entries.read? (entries : Entries) (name wireName : String) : Option (String × Value) :=
  match entries.lookup wireName with
  | some v => some (wireName, v)
  | none => (entries.lookup name).map (name, ·)

namespace Shape

mutual
def violations (location : Location) : Shape → Value → List Violation
  | .text required, v =>
    match v with
    | .text s => if required ∧ s = "" then [Problem.emptyText.violation location] else []
    | _ => [Problem.notText.violation location]
  | .timestamp, v =>
    match v with
    | .text s => ((timestampProblem? s).map (·.violation location)).toList
    | _ => [Problem.notText.violation location]
  | .choice _ _ options, v =>
    match v with
    | .text s => if s ∈ options then [] else [(Problem.notChoice options).violation location]
    | _ => [(Problem.notChoice options).violation location]
  | .count, v => ((Range.positive.integerProblem? v).map (·.violation location)).toList
  | .number range, v => (range.problems v).map fun (step, p) => p.violation (location ++ [step])
  | .freeTable, v =>
    match v with
    | .table _ => []
    | _ => [Problem.notTable.violation location]
  | .tableOf entry, v =>
    match v with
    | .table entries =>
      entries.flatMap fun (key, value) => violations (location ++ [.key key]) entry value
    | _ => [Problem.notTable.violation location]
  | .listOf item, v =>
    match v with
    | .list items =>
      items.zipIdx.flatMap fun (value, i) => violations (location ++ [.index i]) item value
    | _ => [Problem.notList.violation location]
  | .model name _ fields, v =>
    match v with
    | .table entries => fieldViolations location entries fields
    | _ => [(Problem.notModel name).violation location]
def fieldViolations (location : Location) (entries : Entries) : List Field → List Violation
  | [] => []
  | .mk name wireName optional shape :: rest =>
    (match entries.read? name wireName with
      | none => if optional then [] else [Problem.missing.violation (location ++ [.key wireName])]
      | some (key, value) =>
        match optional, value with
        | true, .null => []
        | _, value => violations (location ++ [.key key]) shape value) ++
      fieldViolations location entries rest
end

end Shape

end Workflow
