import Workflow.Number.Power

/-!
Double precision numbers as data. A finite number is a sign, a significand and an exponent in the
one form that a stored double has, so equal data means the same stored number; there is one NaN.
-/

namespace Workflow

/-- The significand and exponent of a stored double: the hidden bit is set unless the exponent is
the least one, and the exponent is at most the greatest one. -/
def CanonicalParts (significand exponent : Nat) : Prop :=
  significand < twoTo 53 ∧ (exponent = 0 ∨ twoTo 52 ≤ significand) ∧ exponent ≤ 2045

instance (significand exponent : Nat) : Decidable (CanonicalParts significand exponent) :=
  inferInstanceAs (Decidable (_ ∧ _ ∧ _))

/-- A double. `finite negative s e` stands for `± s * 2 ^ (e - 1074)`. -/
inductive Binary64 where
  | nan
  | infinity (negative : Bool)
  | finite (negative : Bool) (significand exponent : Nat)
      (canonical : CanonicalParts significand exponent)
  deriving DecidableEq

namespace Binary64

def zero : Binary64 := .finite false 0 0 (by decide)

instance : Inhabited Binary64 := ⟨zero⟩

/-- Parts beyond the greatest exponent stand for an infinity. -/
def ofParts (negative : Bool) (significand exponent : Nat) : Binary64 :=
  if h : CanonicalParts significand exponent then .finite negative significand exponent h
  else .infinity negative

def isFinite : Binary64 → Bool
  | .finite .. => true
  | _ => false

/-- A finite number times `2 ^ 1074`, which is an integer. -/
def scaled : Binary64 → Option Int
  | .finite negative s e _ =>
    let magnitude : Int := s * twoTo e
    some (if negative then -magnitude else magnitude)
  | _ => none

/-- The number lies above the integer `bound`. -/
def above (x : Binary64) (bound : Int) : Bool :=
  match x with
  | .nan => false
  | .infinity negative => !negative
  | .finite .. => x.scaled.any (bound * twoTo 1074 < ·)

/-- The number is the integer `n`. -/
def isInt (x : Binary64) (n : Int) : Bool :=
  x.scaled == some (n * twoTo 1074)

def atLeast (x : Binary64) (bound : Int) : Bool :=
  x.above bound || x.isInt bound

def atMost (x : Binary64) (bound : Int) : Bool :=
  match x with
  | .nan => false
  | _ => !x.above bound

/-- The same number: zeros of both signs agree, and a NaN agrees with nothing. -/
def same : Binary64 → Binary64 → Bool
  | .infinity n, .infinity m => n == m
  | x@(.finite ..), y@(.finite ..) => x.scaled == y.scaled
  | _, _ => false

/-- Quotient rounded to the nearest integer, a half to the even neighbour. -/
def roundDiv (numerator denominator : Nat) : Nat :=
  let floor := numerator / denominator
  let twice := 2 * (numerator % denominator)
  if twice < denominator then floor
  else if denominator < twice then floor + 1
  else if floor % 2 = 0 then floor else floor + 1

/-- The double nearest to `numerator / denominator`, a half to the even significand. -/
def ofRatio (negative : Bool) (numerator denominator : Nat) : Binary64 :=
  let units := numerator * twoTo 1074
  let exponent := Nat.log2 (units / denominator) - 52
  let significand := roundDiv units (denominator * twoTo exponent)
  if significand = twoTo 53 then ofParts negative (twoTo 52) (exponent + 1)
  else ofParts negative significand exponent

/-- An integer that is at most the greatest double after rounding. -/
def holdsInt (n : Int) : Bool :=
  (ofRatio (n < 0) n.natAbs 1).isFinite

end Binary64

end Workflow
