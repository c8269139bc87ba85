import Workflow.Proofs.Number.Rounding

/-!
The shortest decimal of a double. On the grid of seventeen digits a neighbour of the double's value
is nearer than half the gap to the next double, so the search ends on a decimal that is rounded to
the double. Main statement: the shortest decimal of a positive double is read as that double.
-/

namespace Workflow.Decimal

/-! ## The position of the leading digit -/

theorem leadingPosition_le {numerator denominator : Nat} (some : 0 < numerator)
    (divides : 0 < denominator) :
    10 ^ (leadingPosition numerator denominator).toNat * denominator ≤
      numerator * 10 ^ (-leadingPosition numerator denominator).toNat := by
  rw [leadingPosition]
  split
  next large =>
    obtain ⟨whole, isWhole⟩ : ∃ whole, numerator / denominator = whole := ⟨_, rfl⟩
    have positive : 0 < whole := isWhole ▸ Nat.div_pos large divides
    have digits := length_decimalDigits_pos whole
    have top :
        ((decimalDigits whole).length - 1 : Int).toNat = (decimalDigits whole).length - 1 := by
      omega
    have none : (-((decimalDigits whole).length - 1 : Int)).toNat = 0 := by omega
    rw [isWhole, top, none, Nat.pow_zero, Nat.mul_one]
    calc
      10 ^ ((decimalDigits whole).length - 1) * denominator ≤ whole * denominator :=
        Nat.mul_le_mul_right _ (pow_length_le positive)
      _ ≤ numerator := isWhole ▸ Nat.div_mul_le_self numerator denominator
  next small =>
    obtain ⟨whole, isWhole⟩ : ∃ whole, denominator / numerator = whole := ⟨_, rfl⟩
    have digits := length_decimalDigits_pos whole
    rw [isWhole]
    split
    next exact =>
      have top : (-((decimalDigits whole).length : Int) + 1).toNat = 0 := by omega
      have down : (-(-((decimalDigits whole).length : Int) + 1)).toNat =
          (decimalDigits whole).length - 1 := by omega
      rw [top, down, Nat.pow_zero, Nat.one_mul]
      exact exact.le
    next =>
      have top : (-((decimalDigits whole).length : Int) + 0).toNat = 0 := by omega
      have down : (-(-((decimalDigits whole).length : Int) + 0)).toNat =
          (decimalDigits whole).length := by omega
      rw [top, down, Nat.pow_zero, Nat.one_mul]
      calc
        denominator ≤ numerator * (whole + 1) := by
          rw [← isWhole]
          exact (Nat.lt_mul_div_succ denominator some).le
        _ ≤ numerator * 10 ^ (decimalDigits whole).length :=
          Nat.mul_le_mul_left _ (lt_pow_length whole)

/-! ## Neighbours on a grid -/

namespace Interval

variable {r : Interval} {exponent : Int} {d : Decimal}

theorem holds_of_neighbour (found : r.neighbour? exponent = some d) :
    r.holds d.numerator d.denominator = true := by
  simp only [neighbour?] at found
  split at found
  next both below above =>
    have floorHits := (Bool.and_eq_true _ _ ▸ below).2
    split at found
    · obtain rfl := Option.some_inj.mp found
      exact floorHits
    · obtain rfl := Option.some_inj.mp found
      exact above
  next below _ =>
    obtain rfl := Option.some_inj.mp found
    exact (Bool.and_eq_true _ _ ▸ below).2
  next above =>
    obtain rfl := Option.some_inj.mp found
    exact above
  next => cases found

/-- A grid that is finer than the distance of the value from both ends has a neighbour. -/
theorem exists_neighbour {grid value low high : Nat} (positive : 0 < grid)
    (isGrid : r.denominator * tenTo exponent.toNat = grid)
    (isValue : r.value * tenTo (-exponent).toNat = value)
    (isLow : r.low * tenTo (-exponent).toNat = low)
    (isHigh : r.high * tenTo (-exponent).toNat = high) (reach : grid ≤ value)
    (lowGap : 2 * low + grid < 2 * value) (highGap : 2 * value + grid < 2 * high) :
    ∃ d, r.neighbour? exponent = some d := by
  have onGrid (n : Nat) : n * tenTo exponent.toNat * r.denominator = n * grid := by
    rw [← isGrid]
    ring
  have hits (n : Nat) (above : low < n * grid) (below : n * grid < high) :
      r.holds (n * tenTo exponent.toNat) (tenTo (-exponent).toNat) = true :=
    holds_of_between (by rwa [isLow, onGrid]) (by rwa [isHigh, onGrid])
  obtain ⟨floor, isFloor⟩ : ∃ floor, value / grid = floor := ⟨_, rfl⟩
  have under : floor * grid ≤ value := isFloor ▸ Nat.div_mul_le_self value grid
  have beyond : value < (floor + 1) * grid := by
    rw [← isFloor, Nat.mul_comm]
    exact Nat.lt_mul_div_succ value positive
  have some : 0 < floor := isFloor ▸ Nat.div_pos reach positive
  have next : (floor + 1) * grid = floor * grid + grid := Nat.succ_mul floor grid
  simp only [neighbour?, isGrid, isValue, isFloor]
  by_cases near : 2 * (value - floor * grid) ≤ grid
  · rw [hits floor (by omega) (by omega), Bool.and_true, decide_eq_true some]
    split
    · split
      · exact ⟨_, rfl⟩
      · exact ⟨_, rfl⟩
    · exact ⟨_, rfl⟩
    · contradiction
    · contradiction
  · rw [hits (floor + 1) (by omega) (by omega)]
    split
    · split
      · exact ⟨_, rfl⟩
      · exact ⟨_, rfl⟩
    · contradiction
    · exact ⟨_, rfl⟩
    · contradiction

theorem neighbour_of_coarsest {top : Int} {fuel digits : Nat} :
    ∀ later : Nat, later < fuel →
      (∃ d, r.neighbour? (top - (digits + later : Nat) + 1) = some d) →
      ∃ exponent, r.neighbour? exponent = some (r.coarsest top fuel digits) := by
  induction fuel generalizing digits with
  | zero =>
      intro later bound
      cases bound
  | succ fuel ih =>
      intro later bound found
      rw [coarsest]
      split
      next d here => exact ⟨_, here⟩
      next none =>
        cases later with
        | zero =>
            obtain ⟨d, some⟩ := found
            rw [Nat.add_zero, none] at some
            cases some
        | succ later =>
            apply ih later (Nat.lt_of_succ_lt_succ bound)
            rwa [Nat.add_assoc, Nat.add_comm 1 later]

end Interval

theorem Interval.denominator_pos (significand exponent : Nat) :
    0 < (Interval.ofParts significand exponent).denominator :=
  Nat.mul_pos (by decide) (twoTo_pos 1074)

/-! ## Shortest decimals -/

/-- A grid whose steps are ten to the sixteenth times finer than the leading position. -/
theorem grid_le {denominator value : Nat} {top : Int}
    (leads : 10 ^ top.toNat * denominator ≤ value * 10 ^ (-top).toNat) :
    denominator * 10 ^ (top - 16).toNat * 10 ^ 16 ≤ value * 10 ^ (-(top - 16)).toNat := by
  have exponents : (top - 16).toNat + 16 + (-top).toNat = top.toNat + (-(top - 16)).toNat := by
    omega
  apply Nat.le_of_mul_le_mul_right (c := 10 ^ (-top).toNat) _ (by positivity)
  calc
    denominator * 10 ^ (top - 16).toNat * 10 ^ 16 * 10 ^ (-top).toNat =
        denominator * 10 ^ ((top - 16).toNat + 16 + (-top).toNat) := by
      rw [Nat.pow_add, Nat.pow_add]
      ring
    _ = 10 ^ top.toNat * denominator * 10 ^ (-(top - 16)).toNat := by
      rw [exponents, Nat.pow_add]
      ring
    _ ≤ value * 10 ^ (-top).toNat * 10 ^ (-(top - 16)).toNat := Nat.mul_le_mul_right _ leads
    _ = value * 10 ^ (-(top - 16)).toNat * 10 ^ (-top).toNat := Nat.mul_right_comm _ _ _

/-- The grid of seventeen digits is fine enough. -/
theorem exists_neighbour_ofParts {significand exponent : Nat}
    (canonical : CanonicalParts significand exponent) (positive : 0 < significand) {top : Int}
    (leads : 10 ^ top.toNat * (Interval.ofParts significand exponent).denominator ≤
      (Interval.ofParts significand exponent).value * 10 ^ (-top).toNat) :
    ∃ d, (Interval.ofParts significand exponent).neighbour? (top - 16) = some d := by
  have fine := grid_le leads
  have small : significand < 2 ^ 53 := canonical.1
  obtain ⟨grid, isGrid⟩ : ∃ grid, (Interval.ofParts significand exponent).denominator *
    tenTo (top - 16).toNat = grid := ⟨_, rfl⟩
  obtain ⟨unit, isUnit⟩ : ∃ unit, twoTo exponent * tenTo (-(top - 16)).toNat = unit := ⟨_, rfl⟩
  have unitPositive : 0 < unit := isUnit ▸ Nat.mul_pos (twoTo_pos _) (tenTo_pos _)
  have gridPositive : 0 < grid :=
    isGrid ▸ Nat.mul_pos (Interval.denominator_pos significand exponent) (tenTo_pos _)
  have inUnits (n : Nat) : n * twoTo exponent * tenTo (-(top - 16)).toNat = n * unit := by
    rw [Nat.mul_assoc, isUnit]
  have least : 1 * unit ≤ significand * unit := Nat.mul_le_mul_right _ positive
  have most : significand * unit ≤ (2 ^ 53 - 1) * unit := Nat.mul_le_mul_right _ (by omega)
  have reach : grid * 10 ^ 16 ≤ 4 * (significand * unit) := by
    rw [← Nat.mul_assoc, ← inUnits, ← isGrid]
    exact fine
  apply Interval.exists_neighbour gridPositive isGrid (inUnits _) (inUnits _) (inUnits _)
  · rw [Nat.mul_assoc]
    omega
  · rw [Nat.sub_mul, Nat.mul_assoc 4]
    split
    next isLeast =>
      have exactly : significand * unit = 2 ^ 52 * unit := by rw [isLeast.1, twoTo_eq]
      omega
    next => omega
  · rw [Nat.add_mul, Nat.mul_assoc 4]
    omega

/-- The search for a decimal ends on one that is rounded to the double. -/
theorem holds_coarsest {significand exponent : Nat}
    (canonical : CanonicalParts significand exponent) (positive : 0 < significand) :
    ∃ d, (Interval.ofParts significand exponent).coarsest
        (leadingPosition (Interval.ofParts significand exponent).value
          (Interval.ofParts significand exponent).denominator) 17 1 = d ∧
      (Interval.ofParts significand exponent).holds d.numerator d.denominator = true := by
  have valuePositive : 0 < (Interval.ofParts significand exponent).value :=
    Nat.mul_pos (Nat.mul_pos (by decide) positive) (twoTo_pos exponent)
  have leads := leadingPosition_le valuePositive (Interval.denominator_pos significand exponent)
  generalize leadingPosition _ _ = top at leads
  obtain ⟨d, found⟩ := exists_neighbour_ofParts canonical positive leads
  have place : top - ((1 + 16 : Nat) : Int) + 1 = top - 16 := by omega
  obtain ⟨last, isLast⟩ : ∃ last, (Interval.ofParts significand exponent).neighbour? last =
      some ((Interval.ofParts significand exponent).coarsest top 17 1) :=
    Interval.neighbour_of_coarsest 16 (by decide) ⟨d, place ▸ found⟩
  exact ⟨_, rfl, Interval.holds_of_neighbour isLast⟩

/-- A zero at the end of the digits counts as much as a step of the exponent. -/
theorem ratio_shift (digits count : Nat) (exponent : Int) :
    numerator ⟨digits * 10 ^ count, exponent⟩ * denominator ⟨digits, exponent + count⟩ =
      numerator ⟨digits, exponent + count⟩ * denominator ⟨digits * 10 ^ count, exponent⟩ := by
  have exponents : count + exponent.toNat + (-(exponent + count)).toNat =
      (exponent + count).toNat + (-exponent).toNat := by omega
  simp only [numerator, denominator, tenTo_eq]
  rw [Nat.mul_assoc digits, Nat.mul_assoc digits, ← Nat.pow_add, ← Nat.pow_add, exponents,
    Nat.pow_add, Nat.mul_assoc]

theorem holds_trim (r : Interval) (d : Decimal) :
    r.holds (trim d).numerator (trim d).denominator = r.holds d.numerator d.denominator := by
  induction d using trim.induct with
  | case1 d zero ih =>
      have digits : d.digits / 10 * 10 ^ 1 = d.digits := by omega
      have shift := ratio_shift (d.digits / 10) 1 d.exponent
      rw [digits] at shift
      rw [trim, dif_pos zero, ih]
      exact Interval.holds_congr (denominator_pos _) (denominator_pos _) shift.symm
  | case2 d nonzero => rw [trim, dif_neg nonzero]

theorem holds_shortest {significand exponent : Nat}
    (canonical : CanonicalParts significand exponent) (positive : 0 < significand) :
    (Interval.ofParts significand exponent).holds (shortest significand exponent).numerator
      (shortest significand exponent).denominator = true := by
  obtain ⟨d, isCoarsest, holds⟩ := holds_coarsest canonical positive
  rw [shortest, isCoarsest, holds_trim]
  exact holds

/-- The shortest decimal of a positive double, and every other way to write the same ratio, is read
as that double. -/
theorem toBinary64_of_shortest {significand exponent : Nat}
    (canonical : CanonicalParts significand exponent) (positive : 0 < significand) {d : Decimal}
    (same : d.numerator * (shortest significand exponent).denominator =
      (shortest significand exponent).numerator * d.denominator) (negative : Bool) :
    d.toBinary64 negative = .finite negative significand exponent canonical := by
  apply toBinary64_of_holds canonical positive
  rw [Interval.holds_congr (denominator_pos _) (denominator_pos _) same]
  exact holds_shortest canonical positive

end Workflow.Decimal
