import Workflow.Value.Basic
import Workflow.Text.Quoted

/-!
A value as it is shown inside a message: quoted texts, brackets and braces, and one word for each
of the three constants.
-/

namespace Workflow

namespace Value

/-- Items with a comma and a blank between them. -/
def joinItems (items : List (List Char)) : List Char :=
  (items.intersperse [',', ' ']).flatten

mutual
def literal : Value → List Char
  | .null => "None".toList
  | .bool b => (if b then "True" else "False").toList
  | .int n => intText n
  | .real x => plainNumberStyle.text x
  | .text s => Quoted.encode s.toList
  | .moment m => Quoted.encode m.isoText
  | .list items => '[' :: joinItems (literalItems items) ++ [']']
  | .table entries => '{' :: joinItems (literalEntries entries) ++ ['}']
def literalItems : List Value → List (List Char)
  | [] => []
  | item :: rest => item.literal :: literalItems rest
def literalEntries : List (String × Value) → List (List Char)
  | [] => []
  | (key, value) :: rest =>
    (Quoted.encode key.toList ++ ':' :: ' ' :: value.literal) :: literalEntries rest
end

end Value

/-- A sequence of texts as it is shown inside a message; one that is alone has a comma. -/
def literalSequence : List String → String
  | [text] => "(" ++ quoted text ++ ",)"
  | texts => "(" ++ ", ".intercalate (texts.map quoted) ++ ")"

end Workflow
