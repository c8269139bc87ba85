import Workflow.Disk.Basic
import Workflow.Json.Reader
import Workflow.Text.Utf8
import Workflow.Toml.Reader

/-!
Documents on a disk: a file that holds one table, as JSON or as TOML. The suffix of the file's name
says which, in small or capital letters.
-/

namespace Workflow

inductive Format where
  | json | toml
  deriving DecidableEq, Repr

namespace Format

def ofSuffix? (suffix : String) : Option Format :=
  if suffix.toLower = ".json" then some .json
  else if suffix.toLower = ".toml" then some .toml
  else none

end Format

def Path.format? (p : Path) : Option Format := Format.ofSuffix? p.suffix

/-- Why a file does not give a table. -/
inductive DocumentFault where
  | disk (fault : DiskFault)
  | encoding (refusal : Utf8.Refusal)
  | json (refusal : Json.Refusal)
  | toml (refusal : Toml.Refusal)
  | format (path : Path)
  | notTable (path : Path) (found : Value)

namespace Value

/-- The kind of a value, by the name it has in messages. -/
def kindName : Value → String
  | .null => "NoneType"
  | .bool _ => "bool"
  | .int _ => "int"
  | .real _ => "float"
  | .text _ => "str"
  | .moment (.date _) => "date"
  | .moment (.clock _) => "time"
  | .moment (.stamp _) => "datetime"
  | .list _ => "list"
  | .table _ => "dict"

end Value

/-- What is said of a path whose suffix names no format. -/
def Path.formatMessage (p : Path) : String :=
  s!"Unsupported file type '{p.suffix}' for {p.text}; expected .json or .toml"

namespace DocumentFault

def message : DocumentFault → String
  | .disk fault => fault.message
  | .encoding refusal => refusal.message
  | .json refusal => refusal.message
  | .toml refusal => refusal.message
  | .format path => path.formatMessage
  | .notTable path found =>
    s!"Expected an object at the top level of {path.text}, got {found.kindName}"

/-- The document is nested too deeply to be read at all. -/
def isTooDeep : DocumentFault → Bool
  | .json refusal => refusal.problem = .tooDeep
  | .toml refusal => refusal.problem = .tooDeep
  | _ => false

end DocumentFault

/-- Every line break of a text is a line feed, whether it is one, a carriage return or both. -/
def unifyBreaks : List Char → List Char
  | '\r' :: '\n' :: rest => '\n' :: unifyBreaks rest
  | '\r' :: rest => '\n' :: unifyBreaks rest
  | c :: rest => c :: unifyBreaks rest
  | [] => []

namespace Document

/-- The table of a text in a format. -/
def parse (path : Path) (format : Format) (text : String) : Except DocumentFault Entries :=
  match format with
  | .toml => (Toml.read text).mapError .toml
  | .json =>
    match Json.read (String.ofList (unifyBreaks text.toList)) with
    | .error refusal => .error (.json refusal)
    | .ok (.table entries) => .ok entries
    | .ok other => .error (.notTable path other)

/-- The table of a file. -/
def load (d : Disk) (path : Path) : Except DocumentFault Entries :=
  match path.format? with
  | none => .error (.format path)
  | some format => do
    let content ← (d.read path).mapError .disk
    let text ← (Utf8.decode content).mapError .encoding
    parse path format text

end Document

end Workflow
