import Workflow.Calendar.Basic

/-!
Document values: what a JSON or TOML text can hold. The entries of a table keep their order, and
integers and doubles are told apart.
-/

namespace Workflow

inductive Value where
  | null
  | bool (b : Bool)
  | int (n : Int)
  | real (x : Binary64)
  | text (s : String)
  | moment (m : Moment)
  | list (items : List Value)
  | table (entries : List (String × Value))
  deriving Inhabited

/-- The entries of a table, in order. -/
abbrev Entries := List (String × Value)

/-- Writes `value` at `key`: a key that is there keeps its place, a new one comes last. -/
def Entries.put : Entries → String → Value → Entries
  | [], key, value => [(key, value)]
  | (k, v) :: rest, key, value =>
    if k = key then (key, value) :: rest else (k, v) :: Entries.put rest key value

def Entries.hasKey (entries : Entries) (key : String) : Bool :=
  entries.any (·.1 == key)

def Entries.keys (entries : Entries) : List String := entries.map (·.1)

namespace Value

def texts (items : List String) : Value := .list (items.map .text)

/-- Empty texts and collections, zeros and `false` count as nothing, as does `null`. -/
def isVacant : Value → Bool
  | .null => true
  | .bool b => !b
  | .int n => n == 0
  | .real x => x.isInt 0
  | .text s => s == ""
  | .moment _ => false
  | .list items => items.isEmpty
  | .table entries => entries.isEmpty

mutual
/-- Nesting levels of a value, itself included. -/
def levels : Value → Nat
  | .list items => levelsOfItems items + 1
  | .table entries => levelsOfEntries entries + 1
  | _ => 1
def levelsOfItems : List Value → Nat
  | [] => 0
  | item :: rest => max item.levels (levelsOfItems rest)
def levelsOfEntries : List (String × Value) → Nat
  | [] => 0
  | (_, value) :: rest => max value.levels (levelsOfEntries rest)
end

mutual
/-- The value in terms that plain data formats share: moments as text, and `null` for a double
that is not finite. -/
def plain : Value → Value
  | .real x => if x.isFinite then .real x else .null
  | .moment m => .text (String.ofList m.isoText)
  | .list items => .list (plainItems items)
  | .table entries => .table (plainEntries entries)
  | scalar => scalar
def plainItems : List Value → List Value
  | [] => []
  | item :: rest => item.plain :: plainItems rest
def plainEntries : List (String × Value) → List (String × Value)
  | [] => []
  | (key, value) :: rest => (key, value.plain) :: plainEntries rest
end

mutual
/-- The value without the `null` entries of its tables, at any depth. Nulls in lists stay. -/
def dropNulls : Value → Value
  | .list items => .list (dropNullsItems items)
  | .table entries => .table (dropNullsEntries entries)
  | scalar => scalar
def dropNullsItems : List Value → List Value
  | [] => []
  | item :: rest => item.dropNulls :: dropNullsItems rest
def dropNullsEntries : List (String × Value) → List (String × Value)
  | [] => []
  | (key, value) :: rest =>
    match value with
    | .null => dropNullsEntries rest
    | value => (key, value.dropNulls) :: dropNullsEntries rest
end

/-- Tables in ascending order of their keys. -/
def sortEntries (entries : Entries) : Entries :=
  entries.mergeSort (fun a b => decide (a.1 ≤ b.1))

mutual
/-- The value with the entries of every table in ascending order of keys. -/
def sorted : Value → Value
  | .list items => .list (sortedItems items)
  | .table entries => .table (sortEntries (sortedEntries entries))
  | scalar => scalar
def sortedItems : List Value → List Value
  | [] => []
  | item :: rest => item.sorted :: sortedItems rest
def sortedEntries : List (String × Value) → List (String × Value)
  | [] => []
  | (key, value) :: rest => (key, value.sorted) :: sortedEntries rest
end

end Value

end Workflow
