import Workflow.Number.Decimal

/-!
Dates, times of day and stamps of the proleptic Gregorian calendar from year 1 to year 9999, and
their ISO 8601 text.
-/

namespace Workflow

structure Date where
  year : Nat
  month : Nat
  day : Nat
  deriving DecidableEq, Repr

namespace Date

def isLeap (year : Nat) : Bool :=
  year % 4 == 0 && (year % 100 != 0 || year % 400 == 0)

def daysInMonth (year month : Nat) : Nat :=
  match month with
  | 2 => if isLeap year then 29 else 28
  | 4 | 6 | 9 | 11 => 30
  | _ => 31

def isValid (d : Date) : Bool :=
  1 ≤ d.year && d.year ≤ 9999 && 1 ≤ d.month && d.month ≤ 12 &&
    1 ≤ d.day && d.day ≤ daysInMonth d.year d.month

def daysBeforeYear (year : Nat) : Nat :=
  let y := year - 1
  y * 365 + y / 4 - y / 100 + y / 400

def daysBeforeMonth (year month : Nat) : Nat :=
  (List.range' 1 (month - 1)).foldr (fun m days => daysInMonth year m + days) 0

/-- The number of the day, the first of January of year 1 being day 1, a Monday. -/
def ordinal (d : Date) : Nat :=
  daysBeforeYear d.year + daysBeforeMonth d.year d.month + d.day

/-- The day number of the last day of year 9999. -/
def lastOrdinal : Nat := 3652059

def isoText (d : Date) : List Char :=
  paddedDigits 4 d.year ++ '-' :: paddedDigits 2 d.month ++ '-' :: paddedDigits 2 d.day

end Date

/-- A time of day down to the microsecond. -/
structure Clock where
  hour : Nat
  minute : Nat
  second : Nat
  micro : Nat
  deriving DecidableEq, Repr

namespace Clock

def isValid (c : Clock) : Bool :=
  c.hour < 24 && c.minute < 60 && c.second < 60 && c.micro < 1000000

/-- Microseconds since midnight. -/
def micros (c : Clock) : Nat :=
  ((c.hour * 60 + c.minute) * 60 + c.second) * 1000000 + c.micro

/-- Six digits of a second are written where they are not all zero. -/
def isoText (c : Clock) : List Char :=
  paddedDigits 2 c.hour ++ ':' :: paddedDigits 2 c.minute ++ ':' :: paddedDigits 2 c.second ++
    (if c.micro = 0 then [] else '.' :: paddedDigits 6 c.micro)

end Clock

/-- A date and time, with the offset from UTC in minutes where it has one. -/
structure Stamp where
  date : Date
  clock : Clock
  offset : Option Int
  deriving DecidableEq, Repr

namespace Stamp

def offsetText (minutes : Int) : List Char :=
  (if minutes < 0 then '-' else '+') ::
    (paddedDigits 2 (minutes.natAbs / 60) ++ ':' :: paddedDigits 2 (minutes.natAbs % 60))

/-- The text of a stamp; `utc` is the text of a zero offset. -/
def isoText (utc : List Char) (s : Stamp) : List Char :=
  s.date.isoText ++ 'T' :: s.clock.isoText ++
    match s.offset with
    | none => []
    | some 0 => utc
    | some minutes => offsetText minutes

/-- Microseconds on the time line of UTC for a stamp with an offset, else on a time line of its
own. -/
def instant (s : Stamp) : Int :=
  (s.date.ordinal : Int) * 86400000000 + s.clock.micros - s.offset.getD 0 * 60000000

/-- The same instant; a stamp without offset is never the same as one with an offset. -/
def same (s t : Stamp) : Bool :=
  s.offset.isSome == t.offset.isSome && s.instant == t.instant

end Stamp

/-- What a document may hold of the calendar. -/
inductive Moment where
  | date (d : Date)
  | clock (c : Clock)
  | stamp (s : Stamp)
  deriving DecidableEq, Repr

namespace Moment

/-- ISO text with `Z` for a zero offset. -/
def isoText : Moment → List Char
  | .date d => d.isoText
  | .clock c => c.isoText
  | .stamp s => s.isoText ['Z']

def same : Moment → Moment → Bool
  | .date d, .date e => d == e
  | .clock c, .clock d => c == d
  | .stamp s, .stamp t => s.same t
  | _, _ => false

end Moment

end Workflow
