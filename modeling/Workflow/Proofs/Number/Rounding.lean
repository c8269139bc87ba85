import Workflow.Proofs.Number.Digits
import Mathlib.Tactic.Linarith

/-!
Ratios that round to a double. Main statement: a ratio inside the rounding interval of a positive
double is rounded to that double, so a decimal inside it is read back as that double.
-/

namespace Workflow

namespace Binary64

theorem roundDiv_eq {numerator denominator quotient : Nat} (positive : 0 < denominator)
    (low : 2 * quotient * denominator ≤ 2 * numerator + denominator)
    (high : 2 * numerator ≤ (2 * quotient + 1) * denominator)
    (lowTie : 2 * quotient * denominator = 2 * numerator + denominator → quotient % 2 = 0)
    (highTie : 2 * numerator = (2 * quotient + 1) * denominator → quotient % 2 = 0) :
    roundDiv numerator denominator = quotient := by
  obtain ⟨floor, isFloor⟩ : ∃ floor, numerator / denominator = floor := ⟨_, rfl⟩
  obtain ⟨rest, isRest⟩ : ∃ rest, numerator % denominator = rest := ⟨_, rfl⟩
  have split : numerator = denominator * floor + rest := by
    rw [← isFloor, ← isRest, Nat.div_add_mod]
  have small : rest < denominator := isRest ▸ Nat.mod_lt numerator positive
  have above : floor ≤ quotient := by
    by_contra less
    have step : (quotient + 1) * denominator ≤ floor * denominator :=
      Nat.mul_le_mul_right _ (by omega)
    nlinarith
  have below : quotient ≤ floor + 1 := by
    by_contra more
    have step : (floor + 2) * denominator ≤ quotient * denominator :=
      Nat.mul_le_mul_right _ (by omega)
    nlinarith
  rw [roundDiv, isFloor, isRest]
  rcases Nat.eq_or_lt_of_le above with rfl | less
  · have half : 2 * rest ≤ denominator := by nlinarith
    have tie : 2 * rest = denominator → floor % 2 = 0 := by
      intro same
      exact highTie (by rw [split]; linarith)
    split_ifs <;> omega
  · obtain rfl : quotient = floor + 1 := by omega
    have half : denominator ≤ 2 * rest := by nlinarith
    have tie : 2 * rest = denominator → (floor + 1) % 2 = 0 := by
      intro same
      exact lowTie (by rw [split]; linarith)
    split_ifs <;> omega

/-- The exponent that a ratio is stored with, unless it is rounded up to a power of two. -/
theorem log2_ratio {units denominator exponent : Nat} (positive : 0 < denominator)
    (normal : exponent = 0 ∨ 2 ^ (52 + exponent) * denominator ≤ units)
    (bound : units < 2 ^ (53 + exponent) * denominator) :
    Nat.log2 (units / denominator) - 52 = exponent := by
  have less : units / denominator < 2 ^ (53 + exponent) :=
    (Nat.div_lt_iff_lt_mul positive).mpr bound
  by_cases none : units / denominator = 0
  · have least : exponent = 0 := by
      rcases normal with least | normal
      · exact least
      · have more := (Nat.le_div_iff_mul_le positive).mpr normal
        have some : 0 < 2 ^ (52 + exponent) := Nat.two_pow_pos _
        omega
    rw [none, least]
    rfl
  · have above : Nat.log2 (units / denominator) < 53 + exponent := (Nat.log2_lt none).mpr less
    rcases normal with rfl | normal
    · omega
    · have below : 52 + exponent ≤ Nat.log2 (units / denominator) :=
        (Nat.le_log2 none).mpr ((Nat.le_div_iff_mul_le positive).mpr normal)
      omega

/-- How a number of units between the ends of an interval is rounded. Below the least significand
of an exponent the next lower exponent counts, whose greatest significand is rounded up. -/
theorem round_units {significand exponent gap units denominator : Nat}
    (canonical : CanonicalParts significand exponent) (positive : 0 < significand)
    (divides : 0 < denominator)
    (gaps : gap = 1 ∨ gap = 2) (single : significand = twoTo 52 ∧ 0 < exponent → gap = 1)
    (low : (4 * significand - gap) * twoTo exponent * denominator ≤ 4 * units)
    (high : 4 * units ≤ (4 * significand + 2) * twoTo exponent * denominator)
    (lowTie : (4 * significand - gap) * twoTo exponent * denominator = 4 * units →
      significand % 2 = 0)
    (highTie : 4 * units = (4 * significand + 2) * twoTo exponent * denominator →
      significand % 2 = 0) :
    (Nat.log2 (units / denominator) - 52 = exponent ∧
        roundDiv units (denominator * twoTo exponent) = significand) ∨
      (significand = twoTo 52 ∧ ∃ lower, exponent = lower + 1 ∧
        Nat.log2 (units / denominator) - 52 = lower ∧
          roundDiv units (denominator * twoTo lower) = twoTo 53) := by
  obtain ⟨small, least, -⟩ := canonical
  simp only [twoTo_eq] at *
  obtain ⟨unit, isUnit⟩ : ∃ unit, 2 ^ exponent * denominator = unit := ⟨_, rfl⟩
  have unitPositive : 0 < unit := isUnit ▸ Nat.mul_pos (Nat.two_pow_pos _) divides
  have swap : denominator * 2 ^ exponent = unit := by rw [Nat.mul_comm, isUnit]
  rw [Nat.mul_assoc, isUnit] at low high lowTie highTie
  have lowSum : (4 * significand - gap) * unit + gap * unit = 4 * (significand * unit) := by
    rw [← Nat.add_mul, Nat.sub_add_cancel (by omega), Nat.mul_assoc]
  have highSum : (4 * significand + 2) * unit = 4 * (significand * unit) + 2 * unit := by ring
  by_cases inside : exponent = 0 ∨ 2 ^ 52 * unit ≤ units
  · refine .inl ⟨log2_ratio divides ?_ ?_, ?_⟩
    · rwa [Nat.pow_add, Nat.mul_assoc, isUnit]
    · have below : significand * unit ≤ (2 ^ 53 - 1) * unit := Nat.mul_le_mul_right _ (by omega)
      rw [Nat.pow_add, Nat.mul_assoc, isUnit]
      omega
    · have twice : 2 * significand * unit = 2 * (significand * unit) := Nat.mul_assoc _ _ _
      have odd : (2 * significand + 1) * unit = 2 * (significand * unit) + unit := by ring
      rw [swap]
      apply roundDiv_eq unitPositive
      · rcases gaps with rfl | rfl <;> omega
      · omega
      · intro tie
        rcases gaps with rfl | rfl
        · omega
        · exact lowTie (by omega)
      · intro tie
        exact highTie (by omega)
  · obtain ⟨raised, short⟩ := not_or.mp inside
    obtain ⟨lower, rfl⟩ := Nat.exists_eq_succ_of_ne_zero raised
    have isLeast : significand = 2 ^ 52 := by
      by_contra more
      have above : (2 ^ 52 + 1) * unit ≤ significand * unit :=
        Nat.mul_le_mul_right _ (by omega)
      rcases gaps with rfl | rfl <;> omega
    have single := single ⟨isLeast, Nat.succ_pos lower⟩
    have halves : unit = 2 * (2 ^ lower * denominator) := by rw [← isUnit, Nat.pow_succ]; ring
    obtain ⟨half, isHalf⟩ : ∃ half, 2 ^ lower * denominator = half := ⟨_, rfl⟩
    have halfPositive : 0 < half := isHalf ▸ Nat.mul_pos (Nat.two_pow_pos _) divides
    rw [isHalf] at halves
    subst single isLeast halves
    refine .inr ⟨rfl, lower, rfl, log2_ratio divides (.inr ?_) ?_, ?_⟩
    · rw [Nat.pow_add, Nat.mul_assoc, isHalf]
      omega
    · rw [Nat.pow_add, Nat.mul_assoc, isHalf]
      omega
    · rw [Nat.mul_comm denominator, isHalf]
      apply roundDiv_eq halfPositive
      · omega
      · omega
      · exact fun _ => rfl
      · exact fun _ => rfl

end Binary64

namespace Decimal

open Binary64

namespace Interval

theorem low_le_high (significand exponent : Nat) :
    (ofParts significand exponent).low ≤ (ofParts significand exponent).high :=
  Nat.mul_le_mul_right _ (by omega)

theorem bounds_of_holds {r : Interval} {numerator denominator : Nat} (ordered : r.low ≤ r.high)
    (holds : r.holds numerator denominator = true) :
    r.low * denominator ≤ numerator * r.denominator ∧
      numerator * r.denominator ≤ r.high * denominator ∧
      (r.low * denominator = numerator * r.denominator → r.closed = true) ∧
      (numerator * r.denominator = r.high * denominator → r.closed = true) := by
  have ends : r.low * denominator ≤ r.high * denominator := Nat.mul_le_mul_right _ ordered
  simp only [Interval.holds, Bool.or_eq_true, Bool.and_eq_true, decide_eq_true_eq,
    beq_iff_eq] at holds
  rcases holds with ⟨low, high⟩ | ⟨closed, same⟩
  · exact ⟨low.le, high.le, fun tie => absurd tie low.ne, fun tie => absurd tie high.ne⟩
  · exact ⟨by omega, by omega, fun _ => closed, fun _ => closed⟩

theorem holds_of_between {r : Interval} {numerator denominator : Nat}
    (low : r.low * denominator < numerator * r.denominator)
    (high : numerator * r.denominator < r.high * denominator) :
    r.holds numerator denominator = true := by
  simp only [Interval.holds, Bool.or_eq_true, Bool.and_eq_true, decide_eq_true_eq]
  exact .inl ⟨low, high⟩

/-- Equal ratios are in the same intervals. -/
theorem holds_congr {r : Interval} {numerator denominator numerator' denominator' : Nat}
    (positive : 0 < denominator) (positive' : 0 < denominator')
    (same : numerator * denominator' = numerator' * denominator) :
    r.holds numerator denominator = r.holds numerator' denominator' := by
  have scale (bound : Nat) :
      bound * denominator * denominator' = bound * denominator' * denominator := by ring
  have ratio : numerator * r.denominator * denominator' =
      numerator' * r.denominator * denominator := by
    calc
      numerator * r.denominator * denominator' = numerator * denominator' * r.denominator := by ring
      _ = numerator' * r.denominator * denominator := by rw [same]; ring
  have less (bound : Nat) : bound * denominator < numerator * r.denominator ↔
      bound * denominator' < numerator' * r.denominator := by
    rw [← Nat.mul_lt_mul_right positive', scale, ratio, Nat.mul_lt_mul_right positive]
  have more (bound : Nat) : numerator * r.denominator < bound * denominator ↔
      numerator' * r.denominator < bound * denominator' := by
    rw [← Nat.mul_lt_mul_right positive', scale, ratio, Nat.mul_lt_mul_right positive]
  have equal (bound : Nat) : numerator * r.denominator = bound * denominator ↔
      numerator' * r.denominator = bound * denominator' := by
    rw [← Nat.mul_left_inj positive'.ne', scale, ratio, Nat.mul_left_inj positive.ne']
  rw [Bool.eq_iff_iff]
  simp only [Interval.holds, Bool.or_eq_true, Bool.and_eq_true, decide_eq_true_eq, beq_iff_eq,
    less, more, equal]

end Interval

/-- A ratio inside the interval of a double is rounded to the double. -/
theorem ofRatio_of_holds {significand exponent : Nat}
    (canonical : CanonicalParts significand exponent) (positive : 0 < significand)
    {numerator denominator : Nat} (divides : 0 < denominator)
    (holds : (Interval.ofParts significand exponent).holds numerator denominator = true)
    (negative : Bool) :
    ofRatio negative numerator denominator = .finite negative significand exponent canonical := by
  have bounds := Interval.bounds_of_holds (Interval.low_le_high significand exponent) holds
  have units : numerator * (4 * twoTo 1074) = 4 * (numerator * twoTo 1074) := by ring
  simp only [Interval.ofParts, units, beq_iff_eq] at bounds
  obtain ⟨low, high, lowTie, highTie⟩ := bounds
  have gaps : (if significand = twoTo 52 ∧ 0 < exponent then 1 else 2) = 1 ∨
      (if significand = twoTo 52 ∧ 0 < exponent then 1 else 2) = 2 := by
    split_ifs
    · exact .inl rfl
    · exact .inr rfl
  have rounded := round_units canonical positive divides gaps (fun isLeast => if_pos isLeast)
    low high lowTie highTie
  rcases rounded with ⟨sameExponent, sameSignificand⟩ | ⟨isLeast, lower, rfl, below, raised⟩
  · have notRaised : significand ≠ twoTo 53 := canonical.1.ne
    simp only [ofRatio, sameExponent, sameSignificand]
    rw [if_neg notRaised, ofParts, dif_pos canonical]
  · subst isLeast
    simp only [ofRatio, below, raised]
    rw [if_pos trivial, ofParts, dif_pos canonical]

/-! ## Decimals as ratios -/

def numerator (d : Decimal) : Nat := d.digits * tenTo d.exponent.toNat

def denominator (d : Decimal) : Nat := tenTo (-d.exponent).toNat

theorem denominator_pos (d : Decimal) : 0 < d.denominator := tenTo_pos _

theorem toBinary64_eq_ofRatio {d : Decimal} (nonzero : d.digits ≠ 0)
    (above : -400 ≤ ((decimalDigits d.digits).length : Int) + d.exponent)
    (below : ((decimalDigits d.digits).length : Int) + d.exponent ≤ 400) (negative : Bool) :
    d.toBinary64 negative = ofRatio negative d.numerator d.denominator := by
  rw [toBinary64, numerator, denominator, if_neg (by omega), if_neg (by omega)]
  split
  next whole =>
    have none : (-d.exponent).toNat = 0 := by omega
    rw [none]
    rfl
  next fraction =>
    have none : d.exponent.toNat = 0 := by omega
    rw [none]
    exact congrArg (ofRatio negative · _) (Nat.mul_one _).symm

theorem four_mul_twoTo (n : Nat) : 4 * twoTo n = 2 ^ (2 + n) := (Nat.pow_add 2 2 n).symm

theorem two_pow_lt_ten_pow {exponent times : Nat} (some : times ≠ 0)
    (bound : exponent ≤ 93 * times) : 2 ^ exponent < 10 ^ (28 * times) := by
  calc
    2 ^ exponent ≤ 2 ^ (93 * times) := Nat.pow_le_pow_right (by decide) bound
    _ = (2 ^ 93) ^ times := Nat.pow_mul 2 93 times
    _ < (10 ^ 28) ^ times := Nat.pow_lt_pow_left (by norm_num) some
    _ = 10 ^ (28 * times) := (Nat.pow_mul 10 28 times).symm

theorem down_lt {digits count up down power : Nat} (times : Nat) (some : times ≠ 0)
    (bound : power ≤ 93 * times) (less : digits < 10 ^ count)
    (low : 10 ^ down ≤ digits * 10 ^ up * 2 ^ power) : down < count + up + 28 * times := by
  apply (Nat.pow_lt_pow_iff_right (by decide : 1 < 10)).mp
  calc
    10 ^ down ≤ digits * 10 ^ up * 2 ^ power := low
    _ ≤ 10 ^ count * 10 ^ up * 2 ^ power :=
      Nat.mul_le_mul_right _ (Nat.mul_le_mul_right _ less.le)
    _ < 10 ^ count * 10 ^ up * 10 ^ (28 * times) :=
      Nat.mul_lt_mul_of_pos_left (two_pow_lt_ten_pow some bound) (by positivity)
    _ = 10 ^ (count + up + 28 * times) := by rw [Nat.pow_add, Nat.pow_add]

theorem up_lt {digits count up down power extra : Nat} (times : Nat) (some : times ≠ 0)
    (bound : extra ≤ 93 * times) (first : 10 ^ (count - 1) ≤ digits)
    (high : digits * 10 ^ up * 2 ^ power ≤ 2 ^ (power + extra) * 10 ^ down) :
    count - 1 + up < 28 * times + down := by
  apply (Nat.pow_lt_pow_iff_right (by decide : 1 < 10)).mp
  apply Nat.lt_of_mul_lt_mul_right (a := 2 ^ power)
  calc
    10 ^ (count - 1 + up) * 2 ^ power ≤ digits * 10 ^ up * 2 ^ power := by
      rw [Nat.pow_add]
      exact Nat.mul_le_mul_right _ (Nat.mul_le_mul_right _ first)
    _ ≤ 2 ^ (power + extra) * 10 ^ down := high
    _ = 2 ^ extra * 10 ^ down * 2 ^ power := by rw [Nat.pow_add]; ring
    _ < 10 ^ (28 * times) * 10 ^ down * 2 ^ power :=
      Nat.mul_lt_mul_of_pos_right (Nat.mul_lt_mul_of_pos_right
        (two_pow_lt_ten_pow some bound) (by positivity)) (by positivity)
    _ = 10 ^ (28 * times + down) * 2 ^ power := by rw [Nat.pow_add]

/-- A decimal that is rounded to a positive double is neither too small nor too large to be
expanded. -/
theorem magnitude_of_holds {significand exponent : Nat}
    (canonical : CanonicalParts significand exponent) (positive : 0 < significand) {d : Decimal}
    (holds : (Interval.ofParts significand exponent).holds d.numerator d.denominator = true) :
    d.digits ≠ 0 ∧ -400 ≤ ((decimalDigits d.digits).length : Int) + d.exponent ∧
      ((decimalDigits d.digits).length : Int) + d.exponent ≤ 400 := by
  obtain ⟨low, high, -, -⟩ :=
    Interval.bounds_of_holds (Interval.low_le_high significand exponent) holds
  obtain ⟨small, -, great⟩ := canonical
  simp only [Interval.ofParts, four_mul_twoTo, numerator, denominator, tenTo_eq] at low high
  simp only [twoTo_eq] at small low high
  have gap : 0 < 4 * significand - if significand = 2 ^ 52 ∧ 0 < exponent then 1 else 2 := by
    split_ifs <;> omega
  have least := (Nat.le_mul_of_pos_left _ (Nat.mul_pos gap (Nat.two_pow_pos exponent))).trans low
  have nonzero : d.digits ≠ 0 := by
    intro zero
    rw [zero, Nat.zero_mul, Nat.zero_mul] at least
    exact absurd least (Nat.not_le.mpr (Nat.pow_pos (by decide)))
  have wide : (4 * significand + 2) * 2 ^ exponent ≤ 2 ^ (2 + 1074 + 1024) := by
    calc
      (4 * significand + 2) * 2 ^ exponent ≤ 2 ^ 55 * 2 ^ exponent :=
        Nat.mul_le_mul_right _ (by omega)
      _ = 2 ^ (55 + exponent) := (Nat.pow_add 2 55 exponent).symm
      _ ≤ _ := Nat.pow_le_pow_right (by decide) (by omega)
  have below := down_lt 12 (by decide) (by decide) (lt_pow_length d.digits) least
  have above := up_lt 12 (by decide) (by decide)
    (pow_length_le (Nat.pos_of_ne_zero nonzero)) (high.trans (Nat.mul_le_mul_right _ wide))
  exact ⟨nonzero, by omega, by omega⟩

/-- A decimal that is rounded to a positive double is read as that double. -/
theorem toBinary64_of_holds {significand exponent : Nat}
    (canonical : CanonicalParts significand exponent) (positive : 0 < significand) {d : Decimal}
    (holds : (Interval.ofParts significand exponent).holds d.numerator d.denominator = true)
    (negative : Bool) :
    d.toBinary64 negative = .finite negative significand exponent canonical := by
  obtain ⟨nonzero, above, below⟩ := magnitude_of_holds canonical positive holds
  rw [toBinary64_eq_ofRatio nonzero above below]
  exact ofRatio_of_holds canonical positive d.denominator_pos holds negative

end Decimal

end Workflow
