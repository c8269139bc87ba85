import Workflow.Value.Basic

/-!
The tokens of a JSON text. A character that starts no token is a token of its own, so every text
has tokens; a text or number that is not in order carries what is wrong with it, which matters only
where a reader wants that token.
-/

namespace Workflow.Json

/-- What can be wrong with a JSON text. -/
inductive Problem where
  | value
  | propertyName
  | colon
  | comma
  | extra
  | unterminated
  | control
  | escape
  | unicodeEscape
  | byteOrderMark
  | tooManyDigits (count : Nat)
  | tooDeep
  deriving DecidableEq, Repr

/-- A problem and how many characters are left from where it lies. -/
structure Fault where
  problem : Problem
  left : Nat
  deriving DecidableEq, Repr

inductive Token where
  | mark (c : Char)
  | text (content : Except Fault String)
  | scalar (content : Except Fault Value)

/-- A token and how many characters are left from its start. -/
structure Placed where
  token : Token
  left : Nat

def isBlank (c : Char) : Bool := c == ' ' || c == '\t' || c == '\n' || c == '\r'

/-! ## Texts -/

def hexValue? (c : Char) : Option Nat :=
  if '0' ≤ c ∧ c ≤ '9' then some (c.toNat - '0'.toNat)
  else if 'a' ≤ c ∧ c ≤ 'f' then some (c.toNat - 'a'.toNat + 10)
  else if 'A' ≤ c ∧ c ≤ 'F' then some (c.toNat - 'A'.toNat + 10)
  else none

/-- The number that four hexadecimal digits stand for. -/
def hexUnit? (a b c d : Char) : Option Nat := do
  some ((((← hexValue? a) * 16 + (← hexValue? b)) * 16 + (← hexValue? c)) * 16 + (← hexValue? d))

def isHighSurrogate (unit : Nat) : Bool := 0xd800 ≤ unit && unit < 0xdc00

def isLowSurrogate (unit : Nat) : Bool := 0xdc00 ≤ unit && unit < 0xe000

/-- A surrogate that is alone stands for the replacement character. -/
def ofUnit (unit : Nat) : Char :=
  if isHighSurrogate unit || isLowSurrogate unit then '\ufffd' else Char.ofNat unit

def ofSurrogates (high low : Nat) : Char :=
  Char.ofNat (0x10000 + (high - 0xd800) * 0x400 + (low - 0xdc00))

def simpleEscape? : Char → Option Char
  | '"' => some '"'
  | '\\' => some '\\'
  | '/' => some '/'
  | 'b' => some '\x08'
  | 'f' => some '\x0c'
  | 'n' => some '\n'
  | 'r' => some '\r'
  | 't' => some '\t'
  | _ => none

/-- A scanned text: its content, or what is wrong with it, and the characters after it. -/
abbrev Scanned := Except Fault String × List Char

/-- Reads on after the opening quote; `start` is how many characters are left from there, and
`before` what has been read, last character first. -/
def scanText (start : Nat) (before : List Char) : List Char → Scanned
  | [] => (.error ⟨.unterminated, start⟩, [])
  | '"' :: rest => (.ok (String.ofList before.reverse), rest)
  | '\\' :: [] => (.error ⟨.unterminated, start⟩, [])
  | '\\' :: 'u' :: a :: b :: c :: d :: '\\' :: 'u' :: e :: f :: g :: h :: next :: rest =>
    let left := rest.length
    match hexUnit? a b c d with
    | none => (.error ⟨.unicodeEscape, left + 12⟩, [])
    | some high =>
      if isHighSurrogate high then
        match hexUnit? e f g h with
        | none => (.error ⟨.unicodeEscape, left + 6⟩, [])
        | some low =>
          if isLowSurrogate low then
            scanText start (ofSurrogates high low :: before) (next :: rest)
          else
            scanText start (ofUnit high :: before) ('\\' :: 'u' :: e :: f :: g :: h :: next :: rest)
      else
        scanText start (ofUnit high :: before) ('\\' :: 'u' :: e :: f :: g :: h :: next :: rest)
  | '\\' :: 'u' :: a :: b :: c :: d :: next :: rest =>
    match hexUnit? a b c d with
    | none => (.error ⟨.unicodeEscape, rest.length + 6⟩, [])
    | some unit => scanText start (ofUnit unit :: before) (next :: rest)
  | '\\' :: 'u' :: rest => (.error ⟨.unicodeEscape, rest.length + 1⟩, [])
  | '\\' :: c :: rest =>
    match simpleEscape? c with
    | none => (.error ⟨.escape, rest.length + 2⟩, [])
    | some plain => scanText start (plain :: before) rest
  | c :: rest =>
    if c.toNat < 0x20 then (.error ⟨.control, rest.length + 1⟩, [])
    else scanText start (c :: before) rest
termination_by cs => cs.length
decreasing_by all_goals (simp only [List.length_cons]; omega)

/-! ## Numbers and constants -/

/-- An integer of more digits is refused. -/
def digitLimit : Nat := 4300

/-- A point and digits after it, and what follows; nothing where there is no digit. -/
def scanFraction : List Char → List Char × List Char
  | '.' :: rest =>
    match rest.takeWhile Char.isDigit with
    | [] => ([], '.' :: rest)
    | digits => (digits, rest.dropWhile Char.isDigit)
  | cs => ([], cs)

/-- A power of ten after the letter `e`, and what follows. -/
def scanExponent : List Char → Option Int × List Char
  | e :: rest =>
    if e = 'e' ∨ e = 'E' then
      let (negative, digitsOn) := match rest with
        | '-' :: tail => (true, tail)
        | '+' :: tail => (false, tail)
        | tail => (false, tail)
      match digitsOn.takeWhile Char.isDigit with
      | [] => (none, e :: rest)
      | digits =>
        let n : Int := ofDigits digits
        (some (if negative then -n else n), digitsOn.dropWhile Char.isDigit)
    else (none, e :: rest)
  | [] => (none, [])

/-- The digits of the whole part; a leading zero stands alone. -/
def scanWhole : List Char → List Char × List Char
  | '0' :: rest => (['0'], rest)
  | cs => (cs.takeWhile Char.isDigit, cs.dropWhile Char.isDigit)

def scanUnsigned (negative : Bool) (left : Nat) (cs : List Char) :
    Option (Except Fault Value × List Char) :=
  match scanWhole cs with
  | ([], _) => none
  | (whole, rest) =>
    let (fraction, afterFraction) := scanFraction rest
    let (exponent, rest) := scanExponent afterFraction
    if fraction.isEmpty && exponent.isNone then
      if digitLimit < whole.length then some (.error ⟨.tooManyDigits whole.length, left⟩, rest)
      else
        let n : Int := ofDigits whole
        some (.ok (.int (if negative then -n else n)), rest)
    else
      let decimal : Decimal := ⟨ofDigits (whole ++ fraction), exponent.getD 0 - fraction.length⟩
      some (.ok (.real (decimal.toBinary64 negative)), rest)

def constants : List (List Char × Value) :=
  [("null".toList, .null), ("true".toList, .bool true), ("false".toList, .bool false),
    ("NaN".toList, .real .nan), ("Infinity".toList, .real (.infinity false)),
    ("-Infinity".toList, .real (.infinity true))]

def scanConstant (cs : List Char) : Option (Value × List Char) :=
  (constants.find? (·.1.isPrefixOf cs)).map fun (word, v) => (v, cs.drop word.length)

def scanNumber (cs : List Char) : Option (Except Fault Value × List Char) :=
  match cs with
  | '-' :: rest => scanUnsigned true cs.length rest
  | cs => scanUnsigned false cs.length cs

/-! ## The tokens of a text -/

/-- The first token of a text that starts with `c`, and the characters after it. -/
def firstToken (c : Char) (rest : List Char) : Token × List Char :=
  if c = '"' then
    let (content, after) := scanText (rest.length + 1) [] rest
    (.text content, after)
  else
    match scanConstant (c :: rest) with
    | some (v, after) => (.scalar (.ok v), after)
    | none =>
      match scanNumber (c :: rest) with
      | some (v, after) => (.scalar v, after)
      | none => (.mark c, rest)

/-- Each round takes at least one character, so `fuel` characters are enough. -/
def tokensFrom : Nat → List Char → List Placed
  | 0, _ => []
  | _ + 1, [] => []
  | fuel + 1, c :: rest =>
    if isBlank c then tokensFrom fuel rest
    else
      let (token, after) := firstToken c rest
      ⟨token, rest.length + 1⟩ :: tokensFrom fuel after

def tokens (cs : List Char) : List Placed := tokensFrom cs.length cs

end Workflow.Json
