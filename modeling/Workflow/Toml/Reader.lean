import Workflow.Json.Reader
import Workflow.Toml.Namespace
import Workflow.Toml.Scalar

/-!
Reading a TOML document: one statement after the other, each a table header or an entry, with the
tables so far and the marks on their keys.
-/

namespace Workflow.Toml

/-! ## Keys and comments -/

def isBareKeyChar (c : Char) : Bool := c.isAlphanum || c == '-' || c == '_'

def startsKey (c : Char) : Bool := isBareKeyChar c || c == '"' || c == '\''

def readKeyPart (cs : List Char) : Except Fault (String × List Char) :=
  match cs with
  | [] => refuse .keyStart []
  | c :: rest =>
    if isBareKeyChar c then
      .ok (String.ofList (cs.takeWhile isBareKeyChar), cs.dropWhile isBareKeyChar)
    else if c = '"' ∨ c = '\'' then
      (readLine c rest).map fun (content, after) => (String.ofList content, after)
    else refuse .keyStart cs

/-- The parts of a key after the first one, and blanks after each; a round takes at least the
point, so `fuel` characters are enough. -/
def readKeyParts : Nat → List Char → Except Fault (Key × List Char)
  | 0, cs => .ok ([], cs)
  | fuel + 1, cs =>
    match cs with
    | '.' :: rest => do
      let (part, rest) ← readKeyPart (skipBlanks rest)
      let (parts, rest) ← readKeyParts fuel (skipBlanks rest)
      .ok (part :: parts, rest)
    | cs => .ok ([], cs)

def readKey (cs : List Char) : Except Fault (Key × List Char) := do
  let (part, rest) ← readKeyPart cs
  let rest := skipBlanks rest
  let (parts, rest) ← readKeyParts rest.length rest
  .ok (part :: parts, rest)

/-- A comment up to the end of its line. -/
def skipComment : List Char → Except Fault (List Char)
  | '#' :: rest => do
    let after := rest.dropWhile (· != '\n')
    refuseFirst isControl (rest.takeWhile (· != '\n')) after
    .ok after
  | cs => .ok cs

/-- Blanks, line breaks and comments; a round takes at least one character. -/
def skipFiller : Nat → List Char → Except Fault (List Char)
  | 0, cs => .ok cs
  | fuel + 1, cs => do
    let rest ← skipComment (cs.dropWhile isBlankOrBreak)
    if rest.length < cs.length then skipFiller fuel rest else .ok rest

def skipAllFiller (cs : List Char) : Except Fault (List Char) := skipFiller cs.length cs

/-! ## Values -/

/-- Reads a value from the start of a text, and gives it with what follows. -/
abbrev ValueReader := List Char → Except Fault (Value × List Char)

def readEntry (readValue : ValueReader) (cs : List Char) :
    Except Fault ((Key × Value) × List Char) := do
  let (key, rest) ← readKey cs
  match rest with
  | '=' :: rest =>
    let (v, rest) ← readValue (skipBlanks rest)
    .ok ((key, v), rest)
  | rest => refuse .equalsSign rest

/-- The items of an array from the first one on. A comma may follow the last item. -/
def readItems (readValue : ValueReader) (before : List Value) :
    Nat → List Char → Except Fault (Value × List Char)
  | 0, cs => refuse .unclosedArray cs
  | fuel + 1, cs => do
    let (v, rest) ← readValue cs
    let items := v :: before
    match ← skipAllFiller rest with
    | ']' :: rest => .ok (.list items.reverse, rest)
    | ',' :: rest =>
      match ← skipAllFiller rest with
      | ']' :: rest => .ok (.list items.reverse, rest)
      | rest => readItems readValue items fuel rest
    | rest => refuse .unclosedArray rest

/-- An array after its opening bracket. -/
def readArray (readValue : ValueReader) (cs : List Char) : Except Fault (Value × List Char) := do
  match ← skipAllFiller cs with
  | ']' :: rest => .ok (.list [], rest)
  | rest => readItems readValue [] (cs.length + 1) rest

def holdsMore : Value → Bool
  | .list _ | .table _ => true
  | _ => false

/-- Puts an entry into an inline table; an array or an inline table in it may not be added to. -/
def addInline (marks : Marks) (key : Key) (v : Value) (entries : Entries) :
    Except Problem Entries :=
  let name := key.getLastD ""
  if marks.isFrozen key then .error (.immutable key)
  else changeAt false (addEntry name v (.duplicateKey name)) key.dropLast entries

/-- The entries of an inline table from the first one on. -/
def readInlineEntries (readValue : ValueReader) (marks : Marks) (entries : Entries) :
    Nat → List Char → Except Fault (Value × List Char)
  | 0, cs => refuse .unclosedTable cs
  | fuel + 1, cs => do
    let ((key, v), rest) ← readEntry readValue cs
    match addInline marks key v entries with
    | .error problem => refuse problem rest
    | .ok entries =>
      match skipBlanks rest with
      | '\x7d' :: rest => .ok (.table entries, rest)
      | ',' :: rest =>
        let marks := if holdsMore v then marks.freeze key else marks
        readInlineEntries readValue marks entries fuel (skipBlanks rest)
      | rest => refuse .unclosedTable rest

/-- An inline table after its opening brace. -/
def readInlineTable (readValue : ValueReader) (cs : List Char) : Except Fault (Value × List Char) :=
  match skipBlanks cs with
  | '\x7d' :: rest => .ok (.table [], rest)
  | rest => readInlineEntries readValue .none [] (cs.length + 1) rest

/-- A value inside at most `depth` arrays and inline tables. -/
def readValue : Nat → List Char → Except Fault (Value × List Char)
  | depth, '[' :: rest =>
    match depth with
    | 0 => refuse .tooDeep rest
    | depth + 1 => readArray (readValue depth) rest
  | depth, '\x7b' :: rest =>
    match depth with
    | 0 => refuse .tooDeep rest
    | depth + 1 => readInlineTable (readValue depth) rest
  | _, cs => readScalar cs

/-- How many arrays and inline tables may lie in one another. -/
def nestingLimit : Nat := 1000

/-! ## Statements -/

/-- A document under construction; entries go into the table at the header. -/
structure Draft where
  root : Entries
  marks : Marks
  header : Key

namespace Draft

def empty : Draft := ⟨[], .none, []⟩

/-- Opens a table by its header. -/
def openTable (d : Draft) (key : Key) : Except Problem Draft :=
  let marks := d.marks.settle
  if marks.isExplicit key || marks.isFrozen key then .error (.declaredTwice key)
  else do
    let root ← changeAt true .ok key d.root
    .ok ⟨root, marks.opened key, key⟩

/-- Adds a table to an array of tables by its header. -/
def openArrayTable (d : Draft) (key : Key) : Except Problem Draft :=
  let marks := d.marks.settle
  if marks.isFrozen key then .error (.immutable key)
  else do
    let root ← changeAt true (appendTable (key.getLastD "")) key.dropLast d.root
    .ok ⟨root, (marks.clear key).opened key, key⟩

/-- The keys of the tables on the way of a dotted key, in full. -/
def parents (d : Draft) (key : Key) : List Key :=
  (List.range' 1 (key.length - 1)).map fun n => d.header ++ key.take n

/-- Adds an entry under a dotted key. -/
def add (d : Draft) (key : Key) (v : Value) : Except Problem Draft :=
  let table := d.header ++ key.dropLast
  match (d.parents key).find? d.marks.isExplicit with
  | some parent => .error (.redefined parent)
  | none =>
    let marks := d.marks.defer (d.parents key)
    if marks.isFrozen table then .error (.immutable table)
    else do
      let root ← changeAt true (addEntry (key.getLastD "") v .overwritten) table d.root
      let marks := if holdsMore v then marks.freeze (d.header ++ key) else marks
      .ok ⟨root, marks, d.header⟩

end Draft

/-- A step of the draft, whose problem lies where `rest` starts. -/
def placed (outcome : Except Problem Draft) (rest : List Char) : Except Fault Draft :=
  outcome.mapError fun problem => ⟨problem, rest.length⟩

/-- A table header after its bracket or brackets. -/
def readHeader (array : Bool) (d : Draft) (cs : List Char) : Except Fault (Draft × List Char) := do
  let (key, rest) ← readKey (skipBlanks cs)
  let d ← placed (if array then d.openArrayTable key else d.openTable key) rest
  match array, rest with
  | false, ']' :: rest => .ok (d, rest)
  | true, ']' :: ']' :: rest => .ok (d, rest)
  | false, rest => refuse .tableEnd rest
  | true, rest => refuse .arrayTableEnd rest

/-- A statement, which may be nothing before a comment. -/
def readStatement (d : Draft) (cs : List Char) : Except Fault (Draft × List Char) :=
  match cs with
  | '[' :: '[' :: rest => readHeader true d rest
  | '[' :: rest => readHeader false d rest
  | '#' :: _ => .ok (d, cs)
  | c :: _ =>
    if startsKey c then do
      let ((key, v), rest) ← readEntry (readValue nestingLimit) cs
      let d ← placed (d.add key v) rest
      .ok (d, rest)
    else refuse .statement cs
  | [] => .ok (d, [])

/-- All statements, each on a line of its own; a round takes at least one character. -/
def readStatements : Nat → Draft → List Char → Except Fault Entries
  | 0, d, _ => .ok d.root
  | fuel + 1, d, cs =>
    match skipBlanks cs with
    | [] => .ok d.root
    | '\n' :: rest => readStatements fuel d rest
    | cs => do
      let (d, rest) ← readStatement d cs
      match ← skipComment (skipBlanks rest) with
      | [] => .ok d.root
      | '\n' :: rest => readStatements fuel d rest
      | rest => refuse .lineEnd rest

/-- Pairs of carriage return and line feed count as a line feed. -/
def joinBreaks : List Char → List Char
  | '\r' :: '\n' :: rest => '\n' :: joinBreaks rest
  | c :: rest => c :: joinBreaks rest
  | [] => []

/-! ## Messages -/

def Problem.text : Problem → String
  | .statement => "Invalid statement"
  | .lineEnd => "Expected newline or end of document after a statement"
  | .keyStart => "Invalid initial character for a key part"
  | .equalsSign => "Expected '=' after a key in a key/value pair"
  | .declaredTwice key => s!"Cannot declare {literalSequence key} twice"
  | .immutable key => s!"Cannot mutate immutable namespace {literalSequence key}"
  | .redefined key => s!"Cannot redefine namespace {literalSequence key}"
  | .overwritten => "Cannot overwrite a value"
  | .tableEnd => "Expected ']' at the end of a table declaration"
  | .arrayTableEnd => "Expected ']]' at the end of an array declaration"
  | .unclosedArray => "Unclosed array"
  | .unclosedTable => "Unclosed inline table"
  | .duplicateKey name => s!"Duplicate inline table key {quoted name}"
  | .escape => "Unescaped '\\' in a string"
  | .hexValue => "Invalid hex value"
  | .scalarValue => "Escaped character is not a Unicode scalar value"
  | .unterminated => "Unterminated string"
  | .illegal c => s!"Illegal character {quoted (String.singleton c)}"
  | .invalid c => s!"Found invalid character {quoted (String.singleton c)}"
  | .delimiter text => s!"Expected {quoted text}"
  | .dateTime => "Invalid date or datetime"
  | .value => "Invalid value"
  | .tooManyDigits count => (Json.Problem.tooManyDigits count).text
  | .tooDeep => "Too many open arrays"

/-- A refused document: what is wrong and the line and column where, unless it is at the end. -/
structure Refusal where
  problem : Problem
  place : Option (Nat × Nat)
  deriving DecidableEq, Repr

def Refusal.message (r : Refusal) : String :=
  match r.problem, r.place with
  | .tooManyDigits count, _ => (Problem.tooManyDigits count).text
  | problem, none => s!"{problem.text} (at end of document)"
  | problem, some (line, column) => s!"{problem.text} (at line {line}, column {column})"

def Refusal.ofFault (cs : List Char) (fault : Fault) : Refusal :=
  ⟨fault.problem,
    if fault.left = 0 then none
    else some (Json.lineAndColumn (cs.take (cs.length - fault.left)))⟩

def read (text : String) : Except Refusal Entries :=
  let cs := joinBreaks text.toList
  (readStatements (cs.length + 1) .empty cs).mapError (Refusal.ofFault cs)

end Workflow.Toml
