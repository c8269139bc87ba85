import Workflow.Json.Token
import Workflow.Proofs.Number.Shortest

/-!
Numbers that are scanned back. The digits, the point and the exponent of a number's text are taken
apart again, whatever the layout. Main statements: the text of a double is scanned as that double,
and the text of an integer as that integer unless it has too many digits.
-/

namespace Workflow.Json

/-- What follows does not go on with a number. -/
def EndsNumber (rest : List Char) : Prop :=
  ∀ c, rest.head? = some c → c.isDigit = false ∧ c ≠ '.' ∧ c ≠ 'e' ∧ c ≠ 'E'

def EndsDigits (rest : List Char) : Prop := ∀ c, rest.head? = some c → c.isDigit = false

theorem EndsNumber.endsDigits {rest : List Char} (ends : EndsNumber rest) : EndsDigits rest := by
  intro c head
  exact (ends c head).1

theorem endsDigits_cons {c : Char} (rest : List Char) (other : c.isDigit = false) :
    EndsDigits (c :: rest) := by
  intro first head
  rwa [← Option.some_inj.mp head]

/-! ## Parts of a number -/

theorem takeWhile_digits {digits rest : List Char} (all : ∀ c ∈ digits, c.isDigit = true)
    (ends : EndsDigits rest) : (digits ++ rest).takeWhile Char.isDigit = digits := by
  rw [List.takeWhile_append_of_pos all]
  cases rest with
  | nil => rw [List.takeWhile_nil, List.append_nil]
  | cons c rest =>
      rw [List.takeWhile_cons_of_neg (by simp [ends c rfl]), List.append_nil]

theorem dropWhile_digits {digits rest : List Char} (all : ∀ c ∈ digits, c.isDigit = true)
    (ends : EndsDigits rest) : (digits ++ rest).dropWhile Char.isDigit = rest := by
  have whole := List.takeWhile_append_dropWhile (p := Char.isDigit) (l := digits ++ rest)
  rw [takeWhile_digits all ends] at whole
  exact List.append_cancel_left whole

theorem scanWhole_digits {first : Char} {digits rest : List Char}
    (all : ∀ c ∈ first :: digits, c.isDigit = true) (nonzero : first ≠ '0')
    (ends : EndsDigits rest) :
    scanWhole (first :: digits ++ rest) = (first :: digits, rest) := by
  rw [scanWhole, takeWhile_digits all ends, dropWhile_digits all ends]
  intro rest' same
  exact nonzero (List.cons.inj same).1

theorem scanFraction_digits {digits rest : List Char} (some : digits ≠ [])
    (all : ∀ c ∈ digits, c.isDigit = true) (ends : EndsDigits rest) :
    scanFraction ('.' :: (digits ++ rest)) = (digits, rest) := by
  rw [scanFraction, takeWhile_digits all ends, dropWhile_digits all ends]
  cases digits with
  | nil => contradiction
  | cons c digits => rfl

theorem scanFraction_none {rest : List Char} (ends : ∀ c, rest.head? = some c → c ≠ '.') :
    scanFraction rest = ([], rest) := by
  rw [scanFraction]
  intro rest' same
  exact ends '.' (by rw [same]; rfl) rfl

theorem scanExponent_none {rest : List Char} (ends : EndsNumber rest) :
    scanExponent rest = (none, rest) := by
  cases rest with
  | nil => rfl
  | cons c rest =>
      obtain ⟨-, -, small, capital⟩ := ends c rfl
      unfold scanExponent
      exact if_neg (not_or.mpr ⟨small, capital⟩)

/-! ## Two digits -/

theorem isDigit_of_mem_twoDigits {n : Nat} {c : Char} (member : c ∈ twoDigits n) :
    c.isDigit = true := by
  rw [twoDigits] at member
  split at member
  · rcases List.mem_cons.mp member with rfl | later
    · rfl
    · exact isDigit_of_mem_decimalDigits later
  · exact isDigit_of_mem_decimalDigits member

theorem ofDigits_twoDigits (n : Nat) : ofDigits (twoDigits n) = n := by
  rw [twoDigits]
  split
  · have zero := ofDigits_append ['0'] (decimalDigits n)
    rw [List.singleton_append, ofDigits_decimalDigits, ofDigits_singleton] at zero
    rw [zero]
    exact (Nat.zero_mul _).symm ▸ Nat.zero_add n
  · exact ofDigits_decimalDigits n

theorem twoDigits_ne_nil (n : Nat) : twoDigits n ≠ [] := by
  rw [twoDigits]
  split
  · exact List.cons_ne_nil _ _
  · exact decimalDigits_ne_nil n

theorem scanExponent_twoDigits (leading : Int) {rest : List Char} (ends : EndsDigits rest) :
    scanExponent ('e' :: (if leading < 0 then '-' else '+') :: (twoDigits leading.natAbs ++ rest)) =
      (some leading, rest) := by
  have taken := takeWhile_digits (fun c => isDigit_of_mem_twoDigits (n := leading.natAbs)) ends
  have dropped := dropWhile_digits (fun c => isDigit_of_mem_twoDigits (n := leading.natAbs)) ends
  have some := twoDigits_ne_nil leading.natAbs
  have value := ofDigits_twoDigits leading.natAbs
  generalize size : leading.natAbs = magnitude at *
  generalize twoDigits magnitude = digits at *
  obtain ⟨first, digits, rfl⟩ := List.exists_cons_of_ne_nil some
  rw [List.cons_append] at taken dropped
  unfold scanExponent
  by_cases negative : leading < 0
  · have signed : -(magnitude : Int) = leading := by omega
    simp [negative, taken, dropped, value, signed]
  · have unsigned : (magnitude : Int) = leading := by omega
    simp [negative, taken, dropped, value, unsigned]

/-! ## Unsigned numbers -/

theorem scanUnsigned_int {cs rest : List Char} {first : Char} {whole : List Char}
    (scanned : scanWhole cs = (first :: whole, rest)) (ends : EndsNumber rest) (negative : Bool)
    (left : Nat) : scanUnsigned negative left cs =
      some (if digitLimit < (first :: whole).length then
          .error ⟨.tooManyDigits (first :: whole).length, left⟩
        else .ok (.int (if negative then -(ofDigits (first :: whole) : Int)
          else ofDigits (first :: whole))), rest) := by
  have noFraction := scanFraction_none fun c head => (ends c head).2.1
  rw [scanUnsigned, scanned]
  simp only [noFraction, scanExponent_none ends, List.isEmpty_nil, Option.isNone_none,
    Bool.and_self, if_true]
  split <;> rfl

theorem scanUnsigned_decimalDigits (n : Nat) {rest : List Char} (ends : EndsNumber rest)
    (negative : Bool) (left : Nat) : scanUnsigned negative left (decimalDigits n ++ rest) =
      some (if digitLimit < (decimalDigits n).length then
          .error ⟨.tooManyDigits (decimalDigits n).length, left⟩
        else .ok (.int (if negative then -(n : Int) else n)), rest) := by
  have all := fun c => isDigit_of_mem_decimalDigits (n := n) (c := c)
  have value := ofDigits_decimalDigits n
  have scanned : scanWhole (decimalDigits n ++ rest) = (decimalDigits n, rest) := by
    rcases Nat.eq_zero_or_pos n with rfl | positive
    · rw [decimalDigits_of_lt (by decide)]
      rfl
    · obtain ⟨first, digits, isDigits, nonzero⟩ := exists_decimalDigits_eq_cons positive
      rw [isDigits] at all ⊢
      exact scanWhole_digits all nonzero ends.endsDigits
  have nonempty := decimalDigits_ne_nil n
  generalize decimalDigits n = digits at *
  obtain ⟨first, digits, rfl⟩ := List.exists_cons_of_ne_nil nonempty
  rw [scanUnsigned_int scanned ends, value]

theorem scanUnsigned_real {cs after beyond rest : List Char} {first : Char}
    {whole fraction : List Char} {exponent : Option Int}
    (scanned : scanWhole cs = (first :: whole, after))
    (scannedFraction : scanFraction after = (fraction, beyond))
    (scannedExponent : scanExponent beyond = (exponent, rest))
    (real : (fraction.isEmpty && exponent.isNone) = false) (negative : Bool) (left : Nat) :
    scanUnsigned negative left cs = some (.ok (.real (Decimal.toBinary64 negative
      ⟨ofDigits (first :: whole ++ fraction), exponent.getD 0 - fraction.length⟩)), rest) := by
  rw [scanUnsigned, scanned]
  simp only [scannedFraction, scannedExponent, real]
  rfl

/-! ## Layouts -/

variable {rest : List Char} {first : Char} {digits : List Char}

theorem scanUnsigned_scientific (all : ∀ c ∈ first :: digits, c.isDigit = true)
    (nonzero : first ≠ '0') (ends : EndsNumber rest) (leading : Int) (negative : Bool)
    (left : Nat) :
    scanUnsigned negative left (NumberStyle.scientific (first :: digits) leading ++ rest) =
      some (.ok (.real (Decimal.toBinary64 negative
        ⟨ofDigits (first :: digits), leading - digits.length⟩)), rest) := by
  have exponent := scanExponent_twoDigits leading ends.endsDigits
  have firstDigit : ∀ c ∈ [first], c.isDigit = true := by
    intro c member
    exact all c (List.mem_cons.mpr (.inl (List.mem_singleton.mp member)))
  have later : ∀ c ∈ digits, c.isDigit = true := by
    intro c member
    exact all c (List.mem_cons_of_mem first member)
  cases digits with
  | nil =>
      have scanned := scanWhole_digits firstDigit nonzero
        (endsDigits_cons ((if leading < 0 then '-' else '+') ::
          (twoDigits leading.natAbs ++ rest)) (c := 'e') rfl)
      exact scanUnsigned_real scanned (scanFraction_none (by simp)) exponent rfl negative left
  | cons second digits =>
      have scanned := scanWhole_digits firstDigit nonzero
        (endsDigits_cons ((second :: digits) ++ 'e' :: (if leading < 0 then '-' else '+') ::
          (twoDigits leading.natAbs ++ rest)) (c := '.') rfl)
      have fraction := scanFraction_digits (List.cons_ne_nil second digits) later
        (endsDigits_cons ((if leading < 0 then '-' else '+') ::
          (twoDigits leading.natAbs ++ rest)) (c := 'e') rfl)
      have real := scanUnsigned_real scanned fraction exponent rfl negative left
      simpa [NumberStyle.scientific] using real

theorem ofDigits_leadingZeros (zeros : Nat) (digits : List Char) :
    ofDigits (List.replicate zeros '0' ++ digits) = ofDigits digits := by
  rw [ofDigits_append, ofDigits_zeros, Nat.zero_mul, Nat.zero_add]

theorem ofDigits_trailingZeros (digits : List Char) (zeros : Nat) :
    ofDigits (digits ++ List.replicate zeros '0') = ofDigits digits * 10 ^ zeros := by
  rw [ofDigits_append, ofDigits_zeros, List.length_replicate, Nat.add_zero]

theorem isDigit_of_mem_zeros {zeros : Nat} {c : Char} (member : c ∈ List.replicate zeros '0') :
    c.isDigit = true := by
  rw [List.eq_of_mem_replicate member]
  rfl

theorem scanUnsigned_small (all : ∀ c ∈ first :: digits, c.isDigit = true)
    (ends : EndsNumber rest) {leading : Int} (small : leading < 0) (negative : Bool)
    (left : Nat) :
    scanUnsigned negative left (NumberStyle.positional (first :: digits) leading ++ rest) =
      some (.ok (.real (Decimal.toBinary64 negative
        ⟨ofDigits (first :: digits), leading - digits.length⟩)), rest) := by
  obtain ⟨zeros, isZeros⟩ : ∃ zeros, (-leading - 1).toNat = zeros := ⟨_, rfl⟩
  obtain ⟨fraction, isFraction⟩ : ∃ fraction,
    List.replicate zeros '0' ++ first :: digits = fraction := ⟨_, rfl⟩
  have some : fraction ≠ [] := by simp [← isFraction]
  have allDigits : ∀ c ∈ fraction, c.isDigit = true := by
    intro c member
    rw [← isFraction, List.mem_append] at member
    rcases member with zero | digit
    · exact isDigit_of_mem_zeros zero
    · exact all c digit
  have value : ofDigits ('0' :: fraction) = ofDigits (first :: digits) := by
    rw [← isFraction, ← List.cons_append, ← List.replicate_succ, ofDigits_leadingZeros]
  have exponent : (0 : Int) - fraction.length = leading - digits.length := by
    rw [← isFraction, List.length_append, List.length_replicate, List.length_cons]
    omega
  have scanned :
      scanWhole ('0' :: '.' :: (fraction ++ rest)) = (['0'], '.' :: (fraction ++ rest)) :=
    rfl
  have real := scanUnsigned_real scanned (scanFraction_digits some allDigits ends.endsDigits)
    (scanExponent_none ends) (by simp [some]) negative left
  rw [List.singleton_append, value, Option.getD_none, exponent] at real
  rw [NumberStyle.positional, if_pos small, isZeros, isFraction]
  exact real

theorem scanUnsigned_large (all : ∀ c ∈ first :: digits, c.isDigit = true) (nonzero : first ≠ '0')
    (ends : EndsNumber rest) {leading : Int} (large : ¬ leading < 0) (negative : Bool)
    (left : Nat) :
    ∃ zeros : Nat,
      scanUnsigned negative left (NumberStyle.positional (first :: digits) leading ++ rest) =
        some (.ok (.real (Decimal.toBinary64 negative
          ⟨ofDigits (first :: digits) * 10 ^ zeros, leading - digits.length - zeros⟩)), rest) := by
  obtain ⟨zeros, isZeros⟩ : ∃ zeros, leading.toNat + 1 + 1 - (first :: digits).length = zeros :=
    ⟨_, rfl⟩
  obtain ⟨more, isMore⟩ : ∃ more, digits ++ List.replicate zeros '0' = more := ⟨_, rfl⟩
  have size : more.length = digits.length + zeros := by
    rw [← isMore, List.length_append, List.length_replicate]
  rw [List.length_cons] at isZeros
  have allDigits : ∀ c ∈ first :: more, c.isDigit = true := by
    intro c member
    rw [← isMore, ← List.cons_append, List.mem_append] at member
    rcases member with digit | zero
    · exact all c digit
    · exact isDigit_of_mem_zeros zero
  have wholeDigits : ∀ c ∈ first :: more.take leading.toNat, c.isDigit = true := by
    intro c member
    rcases List.mem_cons.mp member with rfl | later
    · exact all c List.mem_cons_self
    · exact allDigits c (List.mem_cons_of_mem first (List.mem_of_mem_take later))
  have fractionDigits : ∀ c ∈ more.drop leading.toNat, c.isDigit = true := by
    intro c member
    exact allDigits c (List.mem_cons_of_mem first (List.mem_of_mem_drop member))
  have some : more.drop leading.toNat ≠ [] := by
    intro none
    have short := List.drop_eq_nil_iff.mp none
    omega
  have value : ofDigits (first :: more.take leading.toNat ++ more.drop leading.toNat) =
      ofDigits (first :: digits) * 10 ^ zeros := by
    rw [List.cons_append, List.take_append_drop, ← isMore, ← List.cons_append,
      ofDigits_trailingZeros]
  have exponent : (0 : Int) - (more.drop leading.toNat).length =
      leading - digits.length - zeros := by
    rw [List.length_drop]
    omega
  have scanned := scanWhole_digits wholeDigits nonzero
    (endsDigits_cons (more.drop leading.toNat ++ rest) (c := '.') rfl)
  have real := scanUnsigned_real scanned (scanFraction_digits some fractionDigits ends.endsDigits)
    (scanExponent_none ends) (by simp [some]) negative left
  rw [value, Option.getD_none, exponent] at real
  refine ⟨zeros, ?_⟩
  simp only [NumberStyle.positional, if_neg large, List.length_cons, isZeros, List.cons_append,
    isMore, List.take_succ_cons, List.drop_succ_cons, List.append_assoc]
  exact real

/-! ## Doubles -/

/-- Whatever the layout, the digits and the exponent are those of the shortest decimal, up to
zeros at its end. -/
theorem scanUnsigned_magnitude {significand exponent : Nat}
    (canonical : CanonicalParts significand exponent) (ends : EndsNumber rest)
    (style : NumberStyle) (negative : Bool) (left : Nat) :
    scanUnsigned negative left (style.magnitudeText significand exponent ++ rest) =
      some (.ok (.real (.finite negative significand exponent canonical)), rest) := by
  by_cases zero : significand = 0
  · obtain rfl : exponent = 0 := by
      rcases canonical.2.1 with least | normal
      · exact least
      · exact absurd (zero ▸ normal) (by decide)
    subst zero
    have fraction := scanFraction_digits (List.cons_ne_nil '0' []) (by simp) ends.endsDigits
    have scanned : scanWhole ('0' :: '.' :: '0' :: rest) = (['0'], '.' :: '0' :: rest) := rfl
    exact scanUnsigned_real scanned fraction (scanExponent_none ends) rfl negative left
  · have positive : 0 < significand := Nat.pos_of_ne_zero zero
    have holds := Decimal.holds_shortest canonical positive
    have nonzero := (Decimal.magnitude_of_holds canonical positive holds).1
    obtain ⟨first, digits, isDigits, firstNonzero⟩ :=
      exists_decimalDigits_eq_cons (Nat.pos_of_ne_zero nonzero)
    have value := ofDigits_decimalDigits (Decimal.shortest significand exponent).digits
    have all : ∀ c ∈ first :: digits, c.isDigit = true := by
      intro c member
      exact isDigit_of_mem_decimalDigits (isDigits ▸ member)
    obtain ⟨leading, isLeading⟩ : ∃ leading, (Decimal.shortest significand exponent).exponent +
      (first :: digits).length - 1 = leading := ⟨_, rfl⟩
    have place : (Decimal.shortest significand exponent).exponent = leading - digits.length := by
      rw [List.length_cons] at isLeading
      omega
    have reads (zeros : Nat) : Decimal.toBinary64 negative
        ⟨ofDigits (first :: digits) * 10 ^ zeros, leading - digits.length - zeros⟩ =
          .finite negative significand exponent canonical := by
      have shift := Decimal.ratio_shift (ofDigits (first :: digits)) zeros
        (leading - digits.length - zeros)
      rw [Int.sub_add_cancel, ← place, ← isDigits, value] at shift
      rw [← place, ← isDigits, value]
      exact Decimal.toBinary64_of_shortest canonical positive shift negative
    have exactly := reads 0
    rw [Nat.pow_zero, Nat.mul_one, Nat.cast_zero, Int.sub_zero] at exactly
    simp only [NumberStyle.magnitudeText, if_neg zero, isDigits, isLeading]
    split
    · rw [scanUnsigned_scientific all firstNonzero ends, exactly]
    · by_cases small : leading < 0
      · rw [scanUnsigned_small all ends small, exactly]
      · obtain ⟨zeros, scanned⟩ := scanUnsigned_large all firstNonzero ends small negative left
        rw [scanned, reads]

end Workflow.Json
