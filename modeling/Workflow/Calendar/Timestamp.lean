import Workflow.Calendar.Basic

/-!
Reading a timestamp: a calendar or week date, any one separator character, a time with as many
units as are given, and an offset from UTC. `read?` is `none` where the text is no timestamp, and
its answer says whether there is an offset.
-/

namespace Workflow

/-- A day number, a time of day and the offset from UTC in microseconds. -/
structure Timestamp where
  day : Nat
  clock : Clock
  offset : Option Int
  deriving DecidableEq, Repr

namespace Timestamp

/-- Texts end in a NUL character, as it were. -/
def headOrNul (text : List Char) : Char := text.head?.getD '\x00'

/-! ## The date -/

/-- Years that start on a Thursday, and leap years that start on a Wednesday, have week 53. -/
def hasWeek53 (year : Nat) : Bool :=
  let weekday := (Date.ordinal ⟨year, 1, 1⟩ + 6) % 7
  weekday == 3 || (weekday == 2 && Date.isLeap year)

/-- The Monday of the week that holds the first Thursday of the year. -/
def firstMonday (year : Nat) : Nat :=
  let first := Date.ordinal ⟨year, 1, 1⟩
  let weekday := (first + 6) % 7
  if 3 < weekday then first + 7 - weekday else first - weekday

def ofWeek (year week weekday : Nat) : Option Nat :=
  if year < 1 ∨ week < 1 ∨ 53 < week ∨ (week = 53 ∧ !hasWeek53 year) ∨ weekday < 1 ∨ 7 < weekday
  then none
  else
    let day := firstMonday year + (week - 1) * 7 + weekday - 1
    if day ≤ Date.lastOrdinal then some day else none

/-- What separates the parts of a date: a hyphen everywhere or nowhere. -/
def skipHyphen (hyphens : Bool) (text : List Char) : Option (List Char) :=
  if hyphens then
    match text with
    | '-' :: rest => some rest
    | _ => none
  else some text

def readWeekDate (hyphens : Bool) (year : Nat) (text : List Char) : Option Nat := do
  let (week, rest) ← takeNumber 2 0 text
  if rest.isEmpty then ofWeek year week 1
  else
    let rest ← skipHyphen hyphens rest
    let (weekday, _) ← takeNumber 1 0 rest
    ofWeek year week weekday

/-- The day number of a date text that has been cut off from its time. -/
def readDate (text : List Char) : Option Nat := do
  let (year, rest) ← takeNumber 4 0 text
  let hyphens := headOrNul rest == '-'
  let rest := if hyphens then rest.drop 1 else rest
  if headOrNul rest == 'W' then readWeekDate hyphens year (rest.drop 1)
  else
    let (month, rest) ← takeNumber 2 0 rest
    let rest ← skipHyphen hyphens rest
    let (day, _) ← takeNumber 2 0 rest
    let date : Date := ⟨year, month, day⟩
    if date.isValid then some date.ordinal else none

/-- How many characters belong to the date. The fifth and sixth character tell the form of the
date. A week date with hyphens before a digit is taken to end with its week; one without hyphens
has a weekday if an even number of digits follows it. -/
def dateLength (text : List Char) : Option Nat :=
  let char (i : Nat) : Char := text.getD i '\x00'
  let length := text.length
  if length = 7 then some 7
  else if char 4 == '-' then
    if char 5 == 'W' then
      if 8 < length && char 8 == '-' then
        if length = 9 then none
        else if 10 < length && (char 10).isDigit then some 8
        else some 10
      else some 8
    else some 10
  else if char 4 == 'W' then
    let digitsEnd := 7 + ((text.drop 7).takeWhile Char.isDigit).length
    if digitsEnd < 9 then some digitsEnd
    else if digitsEnd % 2 = 0 then some 7
    else some 8
  else some 8

/-! ## The time -/

/-- Up to six digits of a second; further digits are passed over. The flag says whether text is
left. -/
def readFraction (text : List Char) : Option (Nat × Bool) := do
  let count := min 6 text.length
  let (value, rest) ← takeNumber count 0 text
  let rest := rest.dropWhile Char.isDigit
  some (value * tenTo (6 - count), headOrNul rest != '\x00')

/-- Units of two digits, either all separated by colons or none, as the mark after the first unit
tells, and a fraction after any of them. The answer holds the units that are there, the
microseconds, and whether text is left. -/
def readUnits : Nat → Option Bool → List Char → Option (List Nat × Nat × Bool)
  | 0, _, text => do
    let (micro, left) ← readFraction text
    some ([], micro, left)
  | more + 1, colons, text => do
    let (value, rest) ← takeNumber 2 0 text
    let mark := headOrNul rest
    let colons := colons.getD (mark == ':')
    let beyond := rest.drop 1
    if beyond.isEmpty then some ([value], 0, mark != '\x00')
    else if colons && mark == ':' then
      let (units, micro, left) ← readUnits more (some colons) beyond
      some (value :: units, micro, left)
    else if mark == '.' || mark == ',' then
      let (micro, left) ← readFraction beyond
      some ([value], micro, left)
    else if !colons then
      let (units, micro, left) ← readUnits more (some colons) rest
      some (value :: units, micro, left)
    else none

/-- A time of day and whether text is left after it. -/
def readClock (text : List Char) : Option (Clock × Bool) := do
  let (units, micro, left) ← readUnits 3 none text
  some (⟨units.getD 0 0, units.getD 1 0, units.getD 2 0, micro⟩, left)

/-- The microseconds of a signed offset, which is shorter than a day. An offset of zero seconds is
UTC whatever its fraction. -/
def offsetOf (sign : Int) (clock : Clock) : Option Int :=
  let seconds := clock.hour * 3600 + clock.minute * 60 + clock.second
  if seconds = 0 then some 0
  else if seconds * 1000000 + clock.micro < 86400000000 then
    some (sign * (seconds * 1000000 + clock.micro : Nat))
  else none

def isOffsetMark (c : Char) : Bool := c == '+' || c == '-' || c == 'Z'

/-- The time and the offset. Text between the fraction and an offset is passed over. -/
def readTime (text : List Char) : Option (Clock × Option Int) := do
  let before := text.takeWhile (!isOffsetMark ·)
  let (clock, left) ← readClock before
  match text.drop before.length with
  | [] => if left then none else some (clock, none)
  | 'Z' :: rest => if headOrNul rest == '\x00' then some (clock, some 0) else none
  | mark :: rest =>
    let (size, left) ← readClock rest
    if left then none
    else do
      let offset ← offsetOf (if mark == '-' then -1 else 1) size
      some (clock, some offset)

/-- The text holds a date alone, or a date, any one character and a time. -/
def read? (text : String) : Option Timestamp := do
  let text := text.toList
  if text.length < 7 then none
  else
    let length ← dateLength text
    let day ← readDate (text.take length)
    match text.drop length with
    | [] => some ⟨day, ⟨0, 0, 0, 0⟩, none⟩
    | _ :: time =>
      let (clock, offset) ← readTime time
      if clock.isValid then some ⟨day, clock, offset⟩ else none

end Timestamp

end Workflow
