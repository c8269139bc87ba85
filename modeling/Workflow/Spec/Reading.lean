import Workflow.Spec.Shape

/-!
Reading typed fields out of a document, and writing them back. A reader gives `none` exactly where
the shape of the field has a violation.
-/

namespace Workflow

/-- A closed set of options, each with the label that stands for it in documents. -/
class Labelled (α : Type) where
  options : List α
  label : α → String

namespace Labelled

variable {α : Type} [Labelled α]

def ofLabel? (s : String) : Option α := (options (α := α)).find? (label · == s)

variable (α) in
def labels : List String := (options (α := α)).map label

variable (α) in
def shape (name : String) (summary : Option String) : Shape := .choice name summary (labels α)

def toValue (a : α) : Value := .text (label a)

end Labelled

/-- A number of a document: an integer stays an integer and a double a double. -/
inductive Number where
  | whole (n : Int)
  | real (x : Binary64)
  deriving DecidableEq

namespace Number

def toValue : Number → Value
  | .whole n => .int n
  | .real x => .real x

end Number

namespace Value

def string? : Value → Option String
  | .text s => some s
  | _ => none

def nonEmpty? : Value → Option String
  | .text s => if s = "" then none else some s
  | _ => none

def timestamp? : Value → Option String
  | .text s => if timestampProblem? s = none then some s else none
  | _ => none

def choice? {α : Type} [Labelled α] : Value → Option α
  | .text s => Labelled.ofLabel? s
  | _ => none

def count? : Value → Option Int
  | .int n => if 0 < n then some n else none
  | _ => none

def number? (range : Range) : Value → Option Number
  | .int n =>
    if range.ofInt? n = none then some (.whole n) else none
  | .real x => if range.ofReal? x = none then some (.real x) else none
  | _ => none

def entries? : Value → Option Entries
  | .table entries => some entries
  | _ => none

def listOf? {α : Type} (read : Value → Option α) : Value → Option (List α)
  | .list items => items.mapM read
  | _ => none

def tableOf? {α : Type} (read : Value → Option α) : Value → Option (List (String × α))
  | .table entries => entries.mapM fun (key, value) => (read value).map (key, ·)
  | _ => none

end Value

namespace Entries

variable {α : Type}

/-- A field that must be there. -/
def required (entries : Entries) (name wireName : String) (read : Value → Option α) : Option α :=
  (entries.read? name wireName).bind (read ·.2)

/-- A field that may be left out or be `null`. -/
def optional (entries : Entries) (name wireName : String) (read : Value → Option α) :
    Option (Option α) :=
  match entries.read? name wireName with
  | none | some (_, .null) => some none
  | some (_, value) => (read value).map some

end Entries

/-! ## Writing -/

/-- How models are written: what stands in the place of a field that is not set, if anything, and
what becomes of the values in free tables. -/
structure Form where
  unset : Option Value
  free : Value → Value

namespace Form

/-- Every field, and free tables as they are. -/
def raw : Form := ⟨some .null, id⟩

/-- Every field, in terms that plain data formats share. -/
def full : Form := ⟨some .null, Value.plain⟩

/-- The fields that are set, in terms that plain data formats share. -/
def wire : Form := ⟨none, Value.plain⟩

/-- The entries of a model out of all its fields. -/
def record (form : Form) (fields : List (String × Option Value)) : Value :=
  .table (fields.filterMap fun (key, value) => (value.or form.unset).map (key, ·))

def freeTable (form : Form) (entries : Entries) : Value := form.free (.table entries)

end Form

/-- A collection whose items are written one by one. -/
def listValue {α : Type} (write : α → Value) (items : List α) : Value := .list (items.map write)

/-- A table whose values are written one by one. -/
def tableValue {α : Type} (write : α → Value) (entries : List (String × α)) : Value :=
  .table (entries.map fun (key, a) => (key, write a))

end Workflow
