import Workflow.Value.Basic
import Workflow.Text.Quoted

/-!
JSON text of a value. A style fixes the separators, the indentation, and whether characters
outside ASCII are escaped. Keys are written in the order of the value's tables.
-/

namespace Workflow.Json

structure Style where
  comma : List Char
  colon : List Char
  /-- Blanks for each level, each item on a line of its own; without it all is on one line. -/
  indent : Option Int
  /-- Escape all characters that are not printable ASCII. -/
  ascii : Bool
  deriving DecidableEq

/-- No blanks at all, and characters as they are. -/
def compactStyle : Style := ⟨[','], [':'], none, false⟩

/-- One line with a blank after each separator, in ASCII. -/
def lineStyle : Style := ⟨[',', ' '], [':', ' '], none, true⟩

/-- A line for each item; an indentation of zero or less only breaks lines. -/
def indentedStyle (indent : Int) (ascii : Bool) : Style := ⟨[','], [':', ' '], some indent, ascii⟩

def unicodeEscape (unit : Nat) : List Char := '\\' :: 'u' :: hexDigits 4 unit

/-- A code point beyond the first plane is written as two surrogates. -/
def codePointEscape (n : Nat) : List Char :=
  if n < 0x10000 then unicodeEscape n
  else
    let offset := n - 0x10000
    unicodeEscape (0xd800 + offset / 0x400) ++ unicodeEscape (0xdc00 + offset % 0x400)

def escapeChar (ascii : Bool) (c : Char) : List Char :=
  if c = '"' then ['\\', '"']
  else if c = '\\' then ['\\', '\\']
  else if c = '\n' then ['\\', 'n']
  else if c = '\r' then ['\\', 'r']
  else if c = '\t' then ['\\', 't']
  else if c = '\x0c' then ['\\', 'f']
  else if c = '\x08' then ['\\', 'b']
  else if c.toNat < 0x20 then unicodeEscape c.toNat
  else if ascii && 0x7f ≤ c.toNat then codePointEscape c.toNat
  else [c]

def printText (ascii : Bool) (s : String) : List Char :=
  '"' :: s.toList.flatMap (escapeChar ascii) ++ ['"']

namespace Style

/-- A line break and the indentation of a level. -/
def lineBreak (style : Style) (level : Nat) : List Char :=
  match style.indent with
  | none => []
  | some width => '\n' :: List.replicate (width.toNat * level) ' '

/-- Items between two brackets; nothing stands between the brackets of an empty collection. -/
def enclose (style : Style) (level : Nat) (opening closing : Char) (items : List (List Char)) :
    List Char :=
  match items with
  | [] => [opening, closing]
  | items =>
    opening :: style.lineBreak (level + 1) ++
      (items.intersperse (style.comma ++ style.lineBreak (level + 1))).flatten ++
      style.lineBreak level ++ [closing]

end Style

mutual
def print (style : Style) (level : Nat) : Value → List Char
  | .null => "null".toList
  | .bool b => (if b then "true" else "false").toList
  | .int n => intText n
  | .real x => jsonNumberStyle.text x
  | .text s => printText style.ascii s
  | .moment m => printText style.ascii (String.ofList m.isoText)
  | .list items => style.enclose level '[' ']' (printItems style (level + 1) items)
  | .table entries => style.enclose level '{' '}' (printEntries style (level + 1) entries)
def printItems (style : Style) (level : Nat) : List Value → List (List Char)
  | [] => []
  | item :: rest => print style level item :: printItems style level rest
def printEntries (style : Style) (level : Nat) : List (String × Value) → List (List Char)
  | [] => []
  | (key, value) :: rest =>
    (printText style.ascii key ++ style.colon ++ print style level value) ::
      printEntries style level rest
end

def text (style : Style) (v : Value) : String := String.ofList (print style 0 v)

/-- Compact text with the keys of every table in ascending order. -/
def canonical (v : Value) : String := text compactStyle v.sorted

end Workflow.Json
