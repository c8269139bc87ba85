import Workflow.Json.Token
import Workflow.Value.Literal

/-!
Texts in a TOML document: literal and basic ones, each on one line or on several. A reader gives
what it has read and the characters after it; what it refuses is a problem and how many characters
are left from where the problem lies.
-/

namespace Workflow.Toml

/-- A dotted key, part by part. -/
abbrev Key := List String

/-- What can be wrong with a TOML document. -/
inductive Problem where
  | statement
  | lineEnd
  | keyStart
  | equalsSign
  | declaredTwice (key : Key)
  | immutable (key : Key)
  | redefined (key : Key)
  | overwritten
  | tableEnd
  | arrayTableEnd
  | unclosedArray
  | unclosedTable
  | duplicateKey (name : String)
  | escape
  | hexValue
  | scalarValue
  | unterminated
  | illegal (c : Char)
  | invalid (c : Char)
  | delimiter (text : String)
  | dateTime
  | value
  | tooManyDigits (count : Nat)
  | tooDeep
  deriving DecidableEq, Repr

structure Fault where
  problem : Problem
  left : Nat
  deriving DecidableEq, Repr

def refuse {α : Type} (problem : Problem) (rest : List Char) : Except Fault α :=
  .error ⟨problem, rest.length⟩

def isBlank (c : Char) : Bool := c == ' ' || c == '\t'

def isBlankOrBreak (c : Char) : Bool := isBlank c || c == '\n'

def skipBlanks (cs : List Char) : List Char := cs.dropWhile isBlank

/-- Control characters other than the tab. -/
def isControl (c : Char) : Bool := (c.toNat < 32 && c != '\t') || c.toNat == 127

/-- Control characters that a text on several lines may not hold. -/
def isControlOnLine (multiline : Bool) (c : Char) : Bool :=
  isControl c && !(multiline && c == '\n')

/-! ## Literal texts -/

/-- The characters before the first place where `mark` stands, and those from there on. -/
def splitAt? (mark : List Char) : List Char → Option (List Char × List Char)
  | [] => if mark.isEmpty then some ([], []) else none
  | c :: rest =>
    if mark.isPrefixOf (c :: rest) then some ([], c :: rest)
    else (splitAt? mark rest).map fun (before, after) => (c :: before, after)

/-- The first character that is refused, in a part of the text that `after` follows. -/
def refuseFirst (refused : Char → Bool) (part after : List Char) : Except Fault Unit :=
  match part.dropWhile (!refused ·) with
  | [] => .ok ()
  | c :: rest => .error ⟨.invalid c, (c :: rest).length + after.length⟩

/-- The rest of a literal text, up to `mark` and without it. -/
def readLiteral (multiline : Bool) (mark cs : List Char) : Except Fault (List Char × List Char) :=
  match splitAt? mark cs with
  | none => refuse (.delimiter (String.ofList mark)) []
  | some (content, after) => do
    refuseFirst (isControlOnLine multiline) content after
    .ok (content, after.drop mark.length)

/-! ## Basic texts -/

def simpleEscape? : Char → Option Char
  | 'b' => some '\x08'
  | 't' => some '\t'
  | 'n' => some '\n'
  | 'f' => some '\x0c'
  | 'r' => some '\r'
  | '"' => some '"'
  | '\\' => some '\\'
  | _ => none

def hexNumber? (cs : List Char) : Option Nat :=
  cs.foldlM (fun n c => (Json.hexValue? c).map (16 * n + ·)) 0

/-- A character given by `count` hexadecimal digits. -/
def readHex (count : Nat) (cs : List Char) : Except Fault (List Char × Nat) :=
  match hexNumber? (cs.take count) with
  | some n =>
    if cs.length < count then refuse .hexValue cs
    else if n.isValidChar then .ok ([Char.ofNat n], count + 1)
    else refuse .scalarValue (cs.drop count)
  | none => refuse .hexValue cs

/-- The characters that an escape stands for, and how many characters it takes after the
backslash. On several lines a backslash before a line break joins the lines. -/
def readEscape (multiline : Bool) (cs : List Char) : Except Fault (List Char × Nat) :=
  match cs with
  | [] => refuse .escape []
  | c :: rest =>
    if multiline && c == '\n' then .ok ([], 1 + (rest.takeWhile isBlankOrBreak).length)
    else if multiline && isBlank c then
      let blanks := (rest.takeWhile isBlank).length
      match rest.drop blanks with
      | [] => .ok ([], 1 + blanks)
      | '\n' :: more => .ok ([], 2 + blanks + (more.takeWhile isBlankOrBreak).length)
      | other => refuse .escape other
    else if c == 'u' then readHex 4 rest
    else if c == 'U' then readHex 8 rest
    else
      match simpleEscape? c with
      | some plain => .ok ([plain], 1)
      | none => refuse .escape rest

/-- The rest of a basic text; `before` is what has been read, last character first. -/
def readBasic (multiline : Bool) (before : List Char) :
    List Char → Except Fault (List Char × List Char)
  | [] => refuse .unterminated []
  | c :: rest =>
    if c = '"' then
      if !multiline then .ok (before.reverse, rest)
      else if ['"', '"'].isPrefixOf rest then .ok (before.reverse, rest.drop 2)
      else readBasic multiline ('"' :: before) rest
    else if c = '\\' then
      match readEscape multiline rest with
      | .error fault => .error fault
      | .ok (plain, taken) => readBasic multiline (plain.reverse ++ before) (rest.drop taken)
    else if isControlOnLine multiline c then refuse (.illegal c) (c :: rest)
    else readBasic multiline (c :: before) rest
termination_by cs => cs.length
decreasing_by all_goals grind

/-! ## Texts as values -/

/-- Up to two more quotes right after the closing ones belong to the text. -/
def takeQuotes (quote : Char) (content rest : List Char) : List Char × List Char :=
  let more := ((rest.take 2).takeWhile (· == quote)).length
  (content ++ List.replicate more quote, rest.drop more)

/-- A line break right after the opening quotes does not belong to the text. -/
def dropBreak : List Char → List Char
  | '\n' :: rest => rest
  | cs => cs

def readMultiline (quote : Char) (cs : List Char) : Except Fault (List Char × List Char) := do
  let cs := dropBreak cs
  let (content, rest) ←
    if quote = '"' then readBasic true [] cs else readLiteral true ['\'', '\'', '\''] cs
  .ok (takeQuotes quote content rest)

def readLine (quote : Char) (cs : List Char) : Except Fault (List Char × List Char) :=
  if quote = '"' then readBasic false [] cs else readLiteral false ['\''] cs

/-- A text after its first quote. -/
def readText (quote : Char) (cs : List Char) : Except Fault (String × List Char) := do
  let (content, rest) ←
    if [quote, quote].isPrefixOf cs then readMultiline quote (cs.drop 2) else readLine quote cs
  .ok (String.ofList content, rest)

end Workflow.Toml
