import Workflow.Number.Binary64

/-!
Decimal text of integers and doubles. A double is written with the fewest digits that read back
as the same double, the nearest such digits to its value; `NumberStyle` says how digits and exponent
are laid out.
-/

namespace Workflow

def digitChar (d : Nat) : Char := Char.ofNat ('0'.toNat + d)

def digitValue (c : Char) : Nat := c.toNat - '0'.toNat

/-- Decimal digits, most significant first. -/
def decimalDigits (n : Nat) : List Char :=
  if n < 10 then [digitChar n]
  else decimalDigits (n / 10) ++ [digitChar (n % 10)]
termination_by n

def ofDigits (digits : List Char) : Nat :=
  digits.foldl (fun n c => 10 * n + digitValue c) 0

/-- Decimal digits after a minus sign where there is one. -/
def intText (n : Int) : List Char :=
  if n < 0 then '-' :: decimalDigits n.natAbs else decimalDigits n.natAbs

/-- At least two digits. -/
def twoDigits (n : Nat) : List Char :=
  if n < 10 then '0' :: decimalDigits n else decimalDigits n

/-- Digits filled with zeros on the left up to `width`. -/
def paddedDigits (width n : Nat) : List Char :=
  let digits := decimalDigits n
  List.replicate (width - digits.length) '0' ++ digits

/-- A number of exactly `count` digits and what follows. -/
def takeNumber : Nat → Nat → List Char → Option (Nat × List Char)
  | 0, value, rest => some (value, rest)
  | count + 1, value, c :: rest =>
    if c.isDigit then takeNumber count (10 * value + digitValue c) rest else none
  | _ + 1, _, [] => none

/-- A positive decimal `digits * 10 ^ exponent`. -/
structure Decimal where
  digits : Nat
  exponent : Int
  deriving DecidableEq, Repr

namespace Decimal

/-- The double nearest to a decimal. A decimal whose size is out of every double's reach is not
expanded. -/
def toBinary64 (negative : Bool) (d : Decimal) : Binary64 :=
  let magnitude := (decimalDigits d.digits).length + d.exponent
  if d.digits = 0 ∨ magnitude < -400 then Binary64.ofParts negative 0 0
  else if 400 < magnitude then .infinity negative
  else if 0 ≤ d.exponent then
    Binary64.ofRatio negative (d.digits * tenTo d.exponent.toNat) 1
  else Binary64.ofRatio negative d.digits (tenTo (-d.exponent).toNat)

/-- The position of the leading decimal digit of `numerator / denominator`: the exponent of ten
below or at it. -/
def leadingPosition (numerator denominator : Nat) : Int :=
  if denominator ≤ numerator then
    (decimalDigits (numerator / denominator)).length - 1
  else
    -((decimalDigits (denominator / numerator)).length : Int) +
      (if denominator = numerator * tenTo ((decimalDigits (denominator / numerator)).length - 1)
        then 1 else 0)

/-- A double's value and the ends of the numbers that round to it, over one denominator. -/
structure Interval where
  value : Nat
  low : Nat
  high : Nat
  closed : Bool
  denominator : Nat

def Interval.holds (r : Interval) (numerator denominator : Nat) : Bool :=
  let x := numerator * r.denominator
  let low := r.low * denominator
  let high := r.high * denominator
  (low < x && x < high) || (r.closed && (x == low || x == high))

/-- What rounds to a positive double. The gap below a power of two is half the gap above it. -/
def Interval.ofParts (significand exponent : Nat) : Interval :=
  let gap := if significand = twoTo 52 ∧ 0 < exponent then 1 else 2
  let unit := twoTo exponent
  { value := 4 * significand * unit
    low := (4 * significand - gap) * unit
    high := (4 * significand + 2) * unit
    closed := significand % 2 == 0
    denominator := 4 * twoTo 1074 }

/-- The neighbour of the value on the grid of step `10 ^ exponent` that rounds to the double; of
two such neighbours the nearer, and the even one if both are as near. -/
def Interval.neighbour? (r : Interval) (exponent : Int) : Option Decimal :=
  let up := tenTo exponent.toNat
  let down := tenTo (-exponent).toNat
  let floor := r.value * down / (r.denominator * up)
  let hits (n : Nat) : Bool := r.holds (n * up) down
  let below := r.value * down - floor * r.denominator * up
  let rest := (floor + 1) * r.denominator * up - r.value * down
  match 0 < floor && hits floor, hits (floor + 1) with
  | true, true =>
    if below < rest ∨ (below = rest ∧ floor % 2 = 0) then some ⟨floor, exponent⟩
    else some ⟨floor + 1, exponent⟩
  | true, false => some ⟨floor, exponent⟩
  | false, true => some ⟨floor + 1, exponent⟩
  | false, false => none

/-- The first grid, from one digit on, that holds a decimal which rounds to the double. -/
def Interval.coarsest (r : Interval) (top : Int) : Nat → Nat → Decimal
  | 0, digits => ⟨r.value / r.denominator, digits⟩
  | fuel + 1, digits =>
    match r.neighbour? (top - digits + 1) with
    | some d => d
    | none => r.coarsest top fuel (digits + 1)

/-- The same decimal without trailing zero digits. -/
def trim (d : Decimal) : Decimal :=
  if h : d.digits ≠ 0 ∧ d.digits % 10 = 0 then trim ⟨d.digits / 10, d.exponent + 1⟩ else d
termination_by d.digits
decreasing_by omega

/-- The fewest digits that read back as the positive double with these parts. -/
def shortest (significand exponent : Nat) : Decimal :=
  let r := Interval.ofParts significand exponent
  (r.coarsest (leadingPosition r.value r.denominator) 17 1).trim

end Decimal

/-- How the digits of a double are laid out. -/
structure NumberStyle where
  /-- The least exponent of ten that is written out in zeros. -/
  least : Int
  /-- The exponent of ten from which on exponent form is used. -/
  limit : Int
  nanText : List Char
  infinityText : List Char

namespace NumberStyle

/-- Digits with a point in the place that the exponent of the leading digit asks for. -/
def positional (digits : List Char) (leading : Int) : List Char :=
  if leading < 0 then
    '0' :: '.' :: (List.replicate (-leading - 1).toNat '0' ++ digits)
  else
    let whole := leading.toNat + 1
    let filled := digits ++ List.replicate (whole + 1 - digits.length) '0'
    filled.take whole ++ '.' :: filled.drop whole

def scientific (digits : List Char) (leading : Int) : List Char :=
  let mantissa := match digits with
    | d :: rest@(_ :: _) => d :: '.' :: rest
    | short => short
  mantissa ++ 'e' :: (if leading < 0 then '-' else '+') :: twoDigits leading.natAbs

def magnitudeText (style : NumberStyle) (significand exponent : Nat) : List Char :=
  if significand = 0 then positional ['0'] 0
  else
    let d := Decimal.shortest significand exponent
    let digits := decimalDigits d.digits
    let leading := d.exponent + digits.length - 1
    if leading < style.least ∨ style.limit ≤ leading then scientific digits leading
    else positional digits leading

def text (style : NumberStyle) : Binary64 → List Char
  | .nan => style.nanText
  | .infinity negative => if negative then '-' :: style.infinityText else style.infinityText
  | .finite negative s e _ =>
    let magnitude := style.magnitudeText s e
    if negative then '-' :: magnitude else magnitude

end NumberStyle

/-- Exponent form below `10 ^ -4` and from `10 ^ 16` on; `nan` and `inf` in small letters. -/
def plainNumberStyle : NumberStyle :=
  ⟨-4, 16, ['n', 'a', 'n'], ['i', 'n', 'f']⟩

/-- The layout of numbers in JSON text, where the special values have capitals. -/
def jsonNumberStyle : NumberStyle :=
  { plainNumberStyle with nanText := "NaN".toList, infinityText := "Infinity".toList }

end Workflow
