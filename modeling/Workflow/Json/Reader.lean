import Workflow.Json.Token

/-!
Reading a JSON text. The reader goes through the tokens once, with a stack of the collections that
are open, and says which problem lies where. A key that is written again keeps its place and gets
the later value.
-/

namespace Workflow.Json

/-- A collection that is open: the items so far, last first, or the entries so far and the key
whose value is being read. -/
inductive Frame where
  | list (before : List Value)
  | table (before : Entries) (key : String)

/-- What the reader wants next. -/
inductive Wanted where
  | value
  | firstItem
  | firstKey
  | key (before : Entries)
  | colon (before : Entries) (key : String)
  | afterItem (before : List Value)
  | afterEntry (before : Entries)
  | nothing (v : Value)

structure State where
  opened : List Frame
  wanted : Wanted

/-- How many collections may be open at once. -/
def nestingLimit : Nat := 1000

/-- Goes on after a value has been read. -/
def State.give (v : Value) : List Frame → State
  | [] => ⟨[], .nothing v⟩
  | .list before :: rest => ⟨rest, .afterItem (v :: before)⟩
  | .table before key :: rest => ⟨rest, .afterEntry (before.put key v)⟩

/-- What is wrong when the text, or the wanted part of it, is not there. -/
def Wanted.problem : Wanted → Problem
  | .value | .firstItem => .value
  | .firstKey | .key _ => .propertyName
  | .colon .. => .colon
  | .afterItem _ | .afterEntry _ => .comma
  | .nothing _ => .extra

/-- Opens a collection unless too many are open. -/
def enter (left : Nat) (opened : List Frame) (wanted : Wanted) : Except Fault State :=
  if opened.length < nestingLimit then .ok ⟨opened, wanted⟩ else .error ⟨.tooDeep, left⟩

/-- A value starts with the token, or is one. -/
def startValue (opened : List Frame) (refusal : Fault) (placed : Placed) : Except Fault State :=
  match placed.token with
  | .mark '[' => enter placed.left opened .firstItem
  | .mark '{' => enter placed.left opened .firstKey
  | .mark _ => .error refusal
  | .text content => content.map fun s => State.give (.text s) opened
  | .scalar content => content.map fun v => State.give v opened

def readKey (opened : List Frame) (before : Entries) (refusal : Fault) (token : Token) :
    Except Fault State :=
  match token with
  | .text content => content.map fun key => ⟨opened, .colon before key⟩
  | _ => .error refusal

def step (state : State) (placed : Placed) : Except Fault State :=
  let opened := state.opened
  let refusal : Fault := ⟨state.wanted.problem, placed.left⟩
  match state.wanted, placed.token with
  | .firstItem, .mark ']' => .ok (State.give (.list []) opened)
  | .firstKey, .mark '}' => .ok (State.give (.table []) opened)
  | .value, _ => startValue opened refusal placed
  | .firstItem, _ => startValue (.list [] :: opened) refusal placed
  | .firstKey, token => readKey opened [] refusal token
  | .key before, token => readKey opened before refusal token
  | .colon before key, .mark ':' => .ok ⟨.table before key :: opened, .value⟩
  | .afterItem before, .mark ',' => .ok ⟨.list before :: opened, .value⟩
  | .afterItem before, .mark ']' => .ok (State.give (.list before.reverse) opened)
  | .afterEntry before, .mark ',' => .ok ⟨opened, .key before⟩
  | .afterEntry before, .mark '}' => .ok (State.give (.table before) opened)
  | _, _ => .error refusal

def run (state : State) : List Placed → Except Fault Value
  | [] =>
    match state.wanted with
    | .nothing v => .ok v
    | wanted => .error ⟨wanted.problem, 0⟩
  | placed :: rest => (step state placed).bind (run · rest)

/-- The value of a text. A byte order mark at its start is refused. -/
def readChars (cs : List Char) : Except Fault Value :=
  match cs with
  | '\ufeff' :: _ => .error ⟨.byteOrderMark, cs.length⟩
  | cs => run ⟨[], .value⟩ (tokens cs)

/-! ## Messages -/

/-- Line and column, counted from one, after the characters of `before`. -/
def lineAndColumn (before : List Char) : Nat × Nat :=
  (before.count '\n' + 1, (before.reverse.takeWhile (· != '\n')).length + 1)

def Problem.text : Problem → String
  | .value => "Expecting value"
  | .propertyName => "Expecting property name enclosed in double quotes"
  | .colon => "Expecting ':' delimiter"
  | .comma => "Expecting ',' delimiter"
  | .extra => "Extra data"
  | .unterminated => "Unterminated string starting at"
  | .control => "Invalid control character at"
  | .escape => "Invalid \\escape"
  | .unicodeEscape => "Invalid \\uXXXX escape"
  | .byteOrderMark => "Unexpected UTF-8 BOM (decode using utf-8-sig)"
  | .tooManyDigits count =>
    s!"Exceeds the limit ({digitLimit} digits) for integer string conversion: value has {count} " ++
      "digits; use sys.set_int_max_str_digits() to increase the limit"
  | .tooDeep => "Too many open collections"

/-- A refused text: what is wrong and where, in characters from the start. -/
structure Refusal where
  problem : Problem
  line : Nat
  column : Nat
  offset : Nat
  deriving DecidableEq, Repr

def Refusal.message (r : Refusal) : String :=
  match r.problem with
  | .tooManyDigits _ | .tooDeep => r.problem.text
  | problem => s!"{problem.text}: line {r.line} column {r.column} (char {r.offset})"

def Refusal.ofFault (cs : List Char) (fault : Fault) : Refusal :=
  let offset := cs.length - fault.left
  let (line, column) := lineAndColumn (cs.take offset)
  ⟨fault.problem, line, column, offset⟩

def read (text : String) : Except Refusal Value :=
  (readChars text.toList).mapError (Refusal.ofFault text.toList)

end Workflow.Json
