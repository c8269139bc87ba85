import Workflow.Json.Token

/-! Integers of a value that have too many decimal digits to be written out or read. -/

namespace Workflow

namespace Value

mutual
/-- No integer in the value has more digits than a document may give it. -/
def digitsFit : Value → Bool
  | .int n => (decimalDigits n.natAbs).length ≤ Json.digitLimit
  | .list items => digitsFitItems items
  | .table entries => digitsFitEntries entries
  | _ => true
def digitsFitItems : List Value → Bool
  | [] => true
  | item :: rest => item.digitsFit && digitsFitItems rest
def digitsFitEntries : List (String × Value) → Bool
  | [] => true
  | (_, value) :: rest => value.digitsFit && digitsFitEntries rest
end

end Value

end Workflow
