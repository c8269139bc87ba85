import Workflow.Toml.Printer
import Workflow.Value.Digits

/-!
What keeps a table from being written as TOML: a null in a list, or an integer with too many digits.
The writer stops at the first that it comes to. It lays a table out before it writes it, for which
it writes the tables of its lists on trial, so what it comes to first need not be what stands first.
-/

namespace Workflow.Toml

/-- A value that has no text. -/
inductive Obstacle where
  | nullItem
  | longInteger
  deriving DecidableEq, Repr

mutual
/-- What the writer of a value on the right of an equals sign comes to, in order. -/
def obstacles : Value → List Obstacle
  | .null => [.nullItem]
  | .int n => if (Value.int n).digitsFit then [] else [.longInteger]
  | .list items => obstaclesAmong items
  | .table entries => obstaclesBelow entries
  | _ => []
def obstaclesAmong : List Value → List Obstacle
  | [] => []
  | item :: rest => obstacles item ++ obstaclesAmong rest
def obstaclesBelow : List (String × Value) → List Obstacle
  | [] => []
  | (_, value) :: rest => obstacles value ++ obstaclesBelow rest
end

/-! ## Layout -/

/-- The tables of a list that are written on trial: no more of them once one does not fit. -/
def trials : List Value → List Value
  | [] => []
  | item :: rest => if fitsLine (printValue 0 item) then item :: trials rest else [item]

/-- The values that are written on trial to see whether an entry is a section. -/
def trialsOf : Value → List Value
  | .list items => if items.all isTable then trials items else []
  | _ => []

def layoutObstacles (entries : Entries) : List Obstacle :=
  entries.flatMap fun (_, value) => (trialsOf value).flatMap obstacles

/-! ## Tables under headers -/

def lineObstacles (entries : Entries) : List Obstacle :=
  (entries.filter (!isSection ·.2)).flatMap fun (_, value) => obstacles value

mutual
/-- What the writer of a table under a header comes to, in order. -/
def tableObstacles : Value → List Obstacle
  | .table entries => layoutObstacles entries ++ lineObstacles entries ++ sectionObstacles entries
  | _ => []
def sectionObstacles : List (String × Value) → List Obstacle
  | [] => []
  | (_, value) :: rest =>
    (match value with
      | .table entries => tableObstacles (.table entries)
      | .list items => if isSection (.list items) then arrayObstacles items else []
      | _ => []) ++ sectionObstacles rest
def arrayObstacles : List Value → List Obstacle
  | [] => []
  | item :: rest => tableObstacles item ++ arrayObstacles rest
end

/-- The document of a table, or what comes first of all that has no text. -/
def write (entries : Entries) : Except Obstacle String :=
  match tableObstacles (.table entries) with
  | [] => .ok (text entries)
  | first :: _ => .error first

end Workflow.Toml
