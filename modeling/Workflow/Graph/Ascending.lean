/-!
Lists of texts in ascending order, which is the order of their code points, with and without
repeats.
-/

namespace Workflow

/-- The texts in ascending order, as often as they occur. -/
def ascending (texts : List String) : List String :=
  texts.mergeSort fun a b => decide (a ≤ b)

/-- The list without an item that equals the item before it. -/
def dropRepeats {α : Type} [DecidableEq α] : List α → List α
  | [] => []
  | [a] => [a]
  | a :: b :: rest => if a = b then dropRepeats (b :: rest) else a :: dropRepeats (b :: rest)

/-- The distinct texts in ascending order. -/
def ascendingSet (texts : List String) : List String := dropRepeats (ascending texts)

/-- The items in ascending order of their keys, which are compared part by part. Items with equal
keys keep their order. -/
def sortByKey {α : Type} (key : α → String × String) (items : List α) : List α :=
  items.mergeSort fun a b =>
    decide ((key a).1 < (key b).1 ∨ ((key a).1 = (key b).1 ∧ (key a).2 ≤ (key b).2))

end Workflow
