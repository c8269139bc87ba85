import Workflow.Value.Basic

/-!
When two document values are the same: numbers by their value, whatever their kind, lists item by
item, and tables by what each key holds, whatever the order of the keys.
-/

namespace Workflow

namespace Value

/-- A truth value counts as one or zero among the numbers. -/
def asNumber : Value → Option (Int ⊕ Binary64)
  | .bool b => some (.inl (if b then 1 else 0))
  | .int n => some (.inl n)
  | .real x => some (.inr x)
  | _ => none

def sameNumber : Int ⊕ Binary64 → Int ⊕ Binary64 → Bool
  | .inl n, .inl m => n == m
  | .inl n, .inr y => y.isInt n
  | .inr x, .inl m => x.isInt m
  | .inr x, .inr y => x.same y

mutual
def same : Value → Value → Bool
  | .null, .null => true
  | .text s, .text t => s == t
  | .moment m, .moment n => m.same n
  | .list items, .list others => sameItems items others
  | .table entries, .table others => entries.length == others.length && sameEntries entries others
  | v, w =>
    match v.asNumber, w.asNumber with
    | some n, some m => sameNumber n m
    | _, _ => false
def sameItems : List Value → List Value → Bool
  | [], [] => true
  | item :: rest, other :: others => item.same other && sameItems rest others
  | _, _ => false
/-- Every key holds the same among `others`. -/
def sameEntries : List (String × Value) → Entries → Bool
  | [], _ => true
  | (key, value) :: rest, others =>
    (match others.lookup key with
      | some other => value.same other
      | none => false) && sameEntries rest others
end

end Value

end Workflow
