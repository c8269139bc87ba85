import Workflow.Text.Quoted
import Workflow.Value.Basic

/-!
TOML text of a table. Entries that fit on the right of an equals sign come first, then the tables,
each under a header of its own. A list of tables has a header for each table, unless every table of
it fits on one line.
-/

namespace Workflow.Toml

/-! ## Texts and keys -/

def escapeChar (c : Char) : List Char :=
  if c = '"' then ['\\', '"']
  else if c = '\\' then ['\\', '\\']
  else if c = '\n' then ['\\', 'n']
  else if c = '\r' then ['\\', 'r']
  else if c = '\x0c' then ['\\', 'f']
  else if c = '\x08' then ['\\', 'b']
  else if (c.toNat < 0x20 ∧ c ≠ '\t') ∨ c.toNat = 0x7f then '\\' :: 'u' :: hexDigits 4 c.toNat
  else [c]

def printText (cs : List Char) : List Char := '"' :: cs.flatMap escapeChar ++ ['"']

def isBareChar (c : Char) : Bool := c.isAlphanum || c == '-' || c == '_'

/-- A key stands without quotes where letters, digits, dashes and underscores are all it has. -/
def printKey (key : String) : List Char :=
  let cs := key.toList
  if cs ≠ [] ∧ cs.all isBareChar then cs else printText cs

/-! ## Values on the right of an equals sign -/

/-- The indentation of the items of an array inside so many others. -/
def indentation (level : Nat) : List Char := List.replicate (4 * level) ' '

/-- Every item of an array stands on a line of its own and has a comma. -/
def encloseItems (level : Nat) (items : List (List Char)) : List Char :=
  if items = [] then ['[', ']']
  else
    '[' :: '\n' :: items.flatMap (fun item => indentation (level + 1) ++ item ++ [',', '\n']) ++
      indentation level ++ [']']

def encloseEntries (entries : List (List Char)) : List Char :=
  if entries = [] then ['\x7b', '\x7d']
  else '\x7b' :: ' ' :: (entries.intersperse [',', ' ']).flatten ++ [' ', '\x7d']

/-- A key with its value. -/
def equation (key : String) (value : List Char) : List Char :=
  printKey key ++ ' ' :: '=' :: ' ' :: value

mutual
/-- TOML has no text for `null`. -/
def printValue (level : Nat) : Value → List Char
  | .null => []
  | .bool b => (if b then "true" else "false").toList
  | .int n => intText n
  | .real x => plainNumberStyle.text x
  | .text s => printText s.toList
  | .moment m => m.isoText
  | .list items => encloseItems level (printItems (level + 1) items)
  | .table entries => encloseEntries (printEntries entries)
def printItems (level : Nat) : List Value → List (List Char)
  | [] => []
  | item :: rest => printValue level item :: printItems level rest
def printEntries : List (String × Value) → List (List Char)
  | [] => []
  | (key, value) :: rest => equation key (printValue 0 value) :: printEntries rest
end

/-! ## Tables under headers -/

/-- The longest line of a table that stands as an item of an array. -/
def lineLimit : Nat := 100

/-- The text fits on a line with an indentation and a comma. -/
def fitsLine (text : List Char) : Bool := text.length + 5 ≤ lineLimit && !text.contains '\n'

def isTable : Value → Bool
  | .table _ => true
  | _ => false

/-- The value stands under headers of its own. -/
def isSection : Value → Bool
  | .table _ => true
  | .list items =>
    !items.isEmpty && items.all isTable && !items.all (fun item => fitsLine (printValue 0 item))
  | _ => false

/-- The entries of a table that do not stand under headers, each on a line. -/
def printLines (entries : Entries) : List Char :=
  (entries.filter (!isSection ·.2)).flatMap fun (key, value) =>
    equation key (printValue 0 value) ++ ['\n']

/-- The header of a table, or of a table of an array. A table that holds only tables has none. -/
def printHeader (name : List Char) (array : Bool) (entries : Entries) : List Char :=
  if array then '[' :: '[' :: name ++ [']', ']', '\n']
  else if name ≠ [] ∧ (entries = [] ∨ entries.any (!isSection ·.2)) then '[' :: name ++ [']', '\n']
  else []

/-- The dotted name of a table inside another one. -/
def subName (name : List Char) (key : String) : List Char :=
  if name = [] then printKey key else name ++ '.' :: printKey key

/-- Blocks of lines with an empty line between them; an empty block does not count. -/
def joinBlocks (head : List Char) (blocks : List (List Char)) : List Char :=
  ((if head = [] then blocks else head :: blocks).intersperse ['\n']).flatten

mutual
/-- A table with its header and the tables below it. -/
def printTable (name : List Char) (array : Bool) : Value → List Char
  | .table entries =>
    joinBlocks (printHeader name array entries ++ printLines entries) (printSections name entries)
  | _ => []
/-- A block for each table that stands under a header of its own. -/
def printSections (name : List Char) : List (String × Value) → List (List Char)
  | [] => []
  | (key, value) :: rest =>
    (match value with
      | .table entries => [printTable (subName name key) false (.table entries)]
      | .list items =>
        if isSection (.list items) then printArray (subName name key) items else []
      | _ => []) ++ printSections name rest
def printArray (name : List Char) : List Value → List (List Char)
  | [] => []
  | item :: rest => printTable name true item :: printArray name rest
end

/-- The document of a table. -/
def text (entries : Entries) : String := String.ofList (printTable [] false (.table entries))

end Workflow.Toml
