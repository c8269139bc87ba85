import Workflow.Toml.Text

/-!
Numbers, dates and times in a TOML document. Each reader is `none` where the text does not start
with what it reads, and takes as much as it can.
-/

namespace Workflow.Toml

/-! ## Digits -/

/-- Digits after the first one; an underscore may stand between two digits. -/
def moreDigits (isDigit : Char → Bool) : List Char → List Char × List Char
  | '_' :: d :: rest =>
    if isDigit d then
      let (digits, after) := moreDigits isDigit rest
      (d :: digits, after)
    else ([], '_' :: d :: rest)
  | d :: rest =>
    if isDigit d then
      let (digits, after) := moreDigits isDigit rest
      (d :: digits, after)
    else ([], d :: rest)
  | [] => ([], [])

def digitRun (isDigit : Char → Bool) : List Char → Option (List Char × List Char)
  | d :: rest =>
    if isDigit d then
      let (digits, after) := moreDigits isDigit rest
      some (d :: digits, after)
    else none
  | [] => none

/-- Exactly `count` decimal digits as a number. -/
def fixedDigits (count : Nat) (cs : List Char) : Option (Nat × List Char) := takeNumber count 0 cs

def mark (c : Char) : List Char → Option (List Char)
  | d :: rest => if d = c then some rest else none
  | [] => none

/-! ## Numbers -/

def isHexDigit (c : Char) : Bool := (Json.hexValue? c).isSome

/-- The digits of each base that a prefix names. -/
def baseOf? : Char → Option (Nat × (Char → Bool))
  | 'x' => some (16, isHexDigit)
  | 'b' => some (2, fun c => c == '0' || c == '1')
  | 'o' => some (8, fun c => '0' ≤ c && c ≤ '7')
  | _ => none

def prefixedInt : List Char → Option (Value × List Char)
  | '0' :: letter :: rest => do
    let (base, isDigit) ← baseOf? letter
    let (digits, after) ← digitRun isDigit rest
    some (.int (digits.foldl (fun n c => base * n + (Json.hexValue? c).getD 0) (0 : Nat)), after)
  | _ => none

def wholeDigits : List Char → Option (List Char × List Char)
  | '0' :: rest => some (['0'], rest)
  | cs => digitRun Char.isDigit cs

def fraction (cs : List Char) : Option (List Char × List Char) :=
  (mark '.' cs).bind (digitRun Char.isDigit)

/-- Whether a minus sign stands in front, and what follows a sign. -/
def afterSign : List Char → Bool × List Char
  | '-' :: tail => (true, tail)
  | '+' :: tail => (false, tail)
  | tail => (false, tail)

def exponent (cs : List Char) : Option (Int × List Char) := do
  let rest ← mark 'e' cs <|> mark 'E' cs
  let (negative, rest) := afterSign rest
  let (digits, after) ← digitRun Char.isDigit rest
  let n : Int := ofDigits digits
  some (if negative then -n else n, after)

/-- A number in decimal digits: a double where there is a fraction or an exponent. An integer of
too many digits is refused. -/
def decimalNumber (cs : List Char) : Option (Except Fault (Value × List Char)) := do
  let (negative, unsigned) := afterSign cs
  let (whole, afterWhole) ← wholeDigits unsigned
  let (places, afterPlaces) := (fraction afterWhole).elim (none, afterWhole)
    fun (digits, rest) => (some digits, rest)
  let (power, rest) := (exponent afterPlaces).elim (none, afterPlaces)
    fun (n, rest) => (some n, rest)
  if places.isNone && power.isNone then
    if Json.digitLimit < whole.length then some (refuse (.tooManyDigits whole.length) cs)
    else
      let n : Int := ofDigits whole
      some (.ok (.int (if negative then -n else n), rest))
  else
    let decimals := places.getD []
    let decimal : Decimal := ⟨ofDigits (whole ++ decimals), power.getD 0 - decimals.length⟩
    some (.ok (.real (decimal.toBinary64 negative), rest))

def number (cs : List Char) : Option (Except Fault (Value × List Char)) :=
  match prefixedInt cs with
  | some found => some (.ok found)
  | none => decimalNumber cs

def specialNumbers : List (List Char × Binary64) :=
  [("inf".toList, .infinity false), ("nan".toList, .nan), ("-inf".toList, .infinity true),
    ("+inf".toList, .infinity false), ("-nan".toList, .nan), ("+nan".toList, .nan)]

def specialNumber (cs : List Char) : Option (Value × List Char) :=
  (specialNumbers.find? (·.1.isPrefixOf cs)).map fun (word, x) => (.real x, cs.drop word.length)

/-! ## Dates and times -/

/-- Digits of a second after the point: six count, and more are passed over. -/
def secondFraction (cs : List Char) : Nat × List Char :=
  match mark '.' cs with
  | none => (0, cs)
  | some rest =>
    match rest.takeWhile Char.isDigit with
    | [] => (0, cs)
    | digits =>
      let kept := digits.take 6
      (ofDigits kept * tenTo (6 - kept.length), rest.drop digits.length)

def clock (cs : List Char) : Option (Clock × List Char) := do
  let (hour, rest) ← fixedDigits 2 cs
  let (minute, rest) ← fixedDigits 2 (← mark ':' rest)
  let (second, rest) ← fixedDigits 2 (← mark ':' rest)
  if hour < 24 ∧ minute < 60 ∧ second < 60 then
    let (micro, rest) := secondFraction rest
    some (⟨hour, minute, second, micro⟩, rest)
  else none

def date (cs : List Char) : Option (Date × List Char) := do
  let (year, rest) ← fixedDigits 4 cs
  let (month, rest) ← fixedDigits 2 (← mark '-' rest)
  let (day, rest) ← fixedDigits 2 (← mark '-' rest)
  if 1 ≤ month ∧ month ≤ 12 ∧ 1 ≤ day ∧ day ≤ 31 then some (⟨year, month, day⟩, rest) else none

/-- An offset from UTC in minutes. -/
def offset (cs : List Char) : Option (Int × List Char) :=
  match cs with
  | 'Z' :: rest | 'z' :: rest => some (0, rest)
  | sign :: rest => do
    if sign ≠ '+' ∧ sign ≠ '-' then none
    else
      let (hours, rest) ← fixedDigits 2 rest
      let (minutes, rest) ← fixedDigits 2 (← mark ':' rest)
      if hours < 24 ∧ minutes < 60 then
        let size : Int := (60 * hours + minutes : Nat)
        some (if sign = '-' then -size else size, rest)
      else none
  | [] => none

/-- A time after the letter or the blank that may follow a date. -/
def clockAfterDate : List Char → Option (Clock × List Char)
  | c :: rest => if c = 'T' ∨ c = 't' ∨ c = ' ' then clock rest else none
  | [] => none

/-- A date, with a time and an offset where they follow; a day that the calendar does not have is
refused. -/
def dateTime (cs : List Char) : Option (Except Fault (Value × List Char)) := do
  let (day, rest) ← date cs
  if !day.isValid then some (refuse .dateTime cs)
  else
    match clockAfterDate rest with
    | none => some (.ok (.moment (.date day), rest))
    | some (time, rest) =>
      let (minutes, rest) := (offset rest).elim (none, rest) fun (n, rest) => (some n, rest)
      some (.ok (.moment (.stamp ⟨day, time, minutes⟩), rest))

/-! ## All scalars -/

/-- The first kind of scalar that fits. -/
def readScalar (cs : List Char) : Except Fault (Value × List Char) :=
  match cs with
  | '"' :: rest => (readText '"' rest).map fun (s, after) => (.text s, after)
  | '\'' :: rest => (readText '\'' rest).map fun (s, after) => (.text s, after)
  | cs =>
    if "true".toList.isPrefixOf cs then .ok (.bool true, cs.drop 4)
    else if "false".toList.isPrefixOf cs then .ok (.bool false, cs.drop 5)
    else
      match dateTime cs, clock cs, number cs, specialNumber cs with
      | some found, _, _, _ => found
      | none, some (c, rest), _, _ => .ok (.moment (.clock c), rest)
      | none, none, some found, _ => found
      | none, none, none, some found => .ok found
      | none, none, none, none => refuse .value cs

end Workflow.Toml
