import Workflow.Proofs.Json.Consumption
import Workflow.Proofs.Json.Text
import Workflow.Proofs.Number.Characters
import Workflow.Toml.Printer
import Workflow.Toml.Reader

/-!
Numbers in TOML that are read back. Where no underscore stands between the digits, a number is read
as in JSON, and it is neither a date nor a time.
-/

namespace Workflow.Toml

variable {cs rest : List Char} {negative : Bool} {left : Nat} {x : Except Json.Fault Value}

/-! ## Digits without underscores -/

/-- No underscore stands before the end of what is read or right after it. -/
def Unbroken (cs rest : List Char) : Prop :=
  ∀ more, more <:+ cs → rest.length ≤ more.length → more.head? ≠ some '_'

theorem unbroken_append {text : List Char} (clean : '_' ∉ text) (ends : rest.head? ≠ some '_') :
    Unbroken (text ++ rest) rest := by
  rintro more ⟨before, same⟩ long
  rcases List.append_eq_append_iff.mp same with ⟨middle, isText, isMore⟩ | ⟨middle, -, isRest⟩
  · rw [isMore]
    cases middle with
    | nil => exact ends
    | cons c middle =>
        rw [isText] at clean
        intro head
        obtain rfl := Option.some_inj.mp head
        exact clean (List.mem_append_right before List.mem_cons_self)
  · have short := congrArg List.length isRest
    rw [List.length_append] at short
    obtain rfl : middle = [] := List.length_eq_zero_iff.mp (by omega)
    rwa [isRest] at ends

theorem moreDigits_eq (ends : (cs.dropWhile Char.isDigit).head? ≠ some '_') :
    moreDigits Char.isDigit cs = (cs.takeWhile Char.isDigit, cs.dropWhile Char.isDigit) := by
  fun_induction moreDigits Char.isDigit cs with
  | case1 | case2 => exact absurd rfl ends
  | case3 d rest other digit digits after isMore ih =>
      rw [List.dropWhile_cons_of_pos digit] at ends ⊢
      have later := ih ends
      rw [isMore] at later
      obtain ⟨rfl, rfl⟩ := Prod.mk.inj later
      rw [List.takeWhile_cons_of_pos digit]
  | case4 d rest other none =>
      rw [List.takeWhile_cons_of_neg none, List.dropWhile_cons_of_neg none]
  | case5 => rfl

theorem digitRun_eq (ends : cs.takeWhile Char.isDigit ≠ [] →
      (cs.dropWhile Char.isDigit).head? ≠ some '_') :
    digitRun Char.isDigit cs =
      if cs.takeWhile Char.isDigit = [] then none
      else some (cs.takeWhile Char.isDigit, cs.dropWhile Char.isDigit) := by
  cases cs with
  | nil => rfl
  | cons d cs =>
      rw [digitRun]
      by_cases digit : d.isDigit = true
      · rw [List.takeWhile_cons_of_pos digit, List.dropWhile_cons_of_pos digit] at ends ⊢
        rw [moreDigits_eq (ends (List.cons_ne_nil _ _))]
        simp [digit]
      · simp [digit]

/-! ## Parts of a number -/

theorem wholeDigits_eq (some' : (Json.scanWhole cs).1 ≠ [])
    (ends : (Json.scanWhole cs).2.head? ≠ some '_') :
    wholeDigits cs = some (Json.scanWhole cs) := by
  unfold wholeDigits
  split
  · rfl
  next other =>
    have isWhole : Json.scanWhole cs = (cs.takeWhile Char.isDigit, cs.dropWhile Char.isDigit) := by
      rw [Json.scanWhole]
      exact other
    rw [isWhole] at some' ends ⊢
    rw [digitRun_eq fun _ => ends, if_neg some']

theorem scanFraction_point (cs : List Char) : Json.scanFraction ('.' :: cs) =
    if cs.takeWhile Char.isDigit = [] then ([], '.' :: cs)
    else (cs.takeWhile Char.isDigit, cs.dropWhile Char.isDigit) := by
  rw [Json.scanFraction]
  cases cs.takeWhile Char.isDigit <;> rfl

theorem fraction_eq (ends : (Json.scanFraction cs).1 ≠ [] →
      (Json.scanFraction cs).2.head? ≠ some '_') :
    fraction cs = if (Json.scanFraction cs).1 = [] then none else some (Json.scanFraction cs) := by
  by_cases point : cs.head? = some '.'
  · obtain ⟨tail, rfl⟩ := List.head?_eq_some_iff.mp point
    have digits : fraction ('.' :: tail) = digitRun Char.isDigit tail := rfl
    rw [scanFraction_point] at ends ⊢
    by_cases none : tail.takeWhile Char.isDigit = []
    · rw [digits, digitRun_eq fun some => absurd none some]
      simp only [none, if_true]
    · simp only [none, if_false] at ends ⊢
      rw [digits, digitRun_eq ends, if_neg none]
  · have whole : Json.scanFraction cs = ([], cs) :=
      Json.scanFraction_none fun c head same => point (same ▸ head)
    rw [whole, if_pos rfl, fraction]
    cases cs with
    | nil => rfl
    | cons c cs =>
        rw [mark, if_neg fun same => point (congrArg some same)]
        rfl

theorem scanExponent_cons (e : Char) (cs : List Char) :
    Json.scanExponent (e :: cs) =
      if e = 'e' ∨ e = 'E' then
        match (afterSign cs).2.takeWhile Char.isDigit with
        | [] => (none, e :: cs)
        | digits => (some (if (afterSign cs).1 then -(ofDigits digits : Int) else ofDigits digits),
            (afterSign cs).2.dropWhile Char.isDigit)
      else (none, e :: cs) := rfl

theorem scanExponent_letter {e : Char} (letter : e = 'e' ∨ e = 'E') (cs : List Char) :
    Json.scanExponent (e :: cs) =
      if (afterSign cs).2.takeWhile Char.isDigit = [] then (none, e :: cs)
      else
        (some (if (afterSign cs).1 then -(ofDigits ((afterSign cs).2.takeWhile Char.isDigit) : Int)
            else ofDigits ((afterSign cs).2.takeWhile Char.isDigit)),
          (afterSign cs).2.dropWhile Char.isDigit) := by
  rw [scanExponent_cons, if_pos letter]
  cases (afterSign cs).2.takeWhile Char.isDigit <;> rfl

theorem exponent_letter {e : Char} (letter : e = 'e' ∨ e = 'E') (cs : List Char) :
    exponent (e :: cs) = (digitRun Char.isDigit (afterSign cs).2).map fun run =>
      (if (afterSign cs).1 then -(ofDigits run.1 : Int) else ofDigits run.1, run.2) := by
  have marked : (mark 'e' (e :: cs) <|> mark 'E' (e :: cs)) = some cs := by
    rcases letter with rfl | rfl <;> rfl
  rw [exponent, marked]
  exact (Option.map_eq_bind ..).symm

theorem exponent_eq (ends : (Json.scanExponent cs).1 ≠ none →
      (Json.scanExponent cs).2.head? ≠ some '_') :
    exponent cs = (Json.scanExponent cs).1.map (·, (Json.scanExponent cs).2) := by
  cases cs with
  | nil => rfl
  | cons e tail =>
      by_cases letter : e = 'e' ∨ e = 'E'
      · rw [scanExponent_letter letter] at ends ⊢
        rw [exponent_letter letter]
        by_cases none : (afterSign tail).2.takeWhile Char.isDigit = []
        · rw [digitRun_eq fun some => absurd none some]
          simp only [none, if_true, Option.map_none]
        · simp only [none, if_false] at ends ⊢
          rw [digitRun_eq fun _ => ends (Option.some_ne_none _), if_neg none]
          rfl
      · obtain ⟨small, capital⟩ := not_or.mp letter
        have whole : Json.scanExponent (e :: tail) = (none, e :: tail) := if_neg letter
        rw [whole, exponent]
        simp [mark, small, capital]

/-- What is left of a fraction, all of it where there is no digit. -/
theorem scanFraction_rest (cs : List Char) : (Json.scanFraction cs).2 <:+ cs ∧
    ((Json.scanFraction cs).1 = [] → (Json.scanFraction cs).2 = cs) := by
  by_cases point : cs.head? = some '.'
  · obtain ⟨tail, rfl⟩ := List.head?_eq_some_iff.mp point
    rw [scanFraction_point]
    split
    next => exact ⟨List.suffix_refl _, fun _ => rfl⟩
    next some =>
      exact ⟨(List.dropWhile_suffix _).trans (List.suffix_cons '.' tail),
        fun none => absurd none some⟩
  · rw [Json.scanFraction_none fun c head same => point (same ▸ head)]
    exact ⟨List.suffix_refl _, fun _ => rfl⟩

theorem afterSign_suffix (cs : List Char) : (afterSign cs).2 <:+ cs := by
  unfold afterSign
  split
  · exact List.suffix_cons _ _
  · exact List.suffix_cons _ _
  · exact List.suffix_refl _

theorem scanExponent_rest (cs : List Char) : (Json.scanExponent cs).2 <:+ cs ∧
    ((Json.scanExponent cs).1 = none → (Json.scanExponent cs).2 = cs) := by
  cases cs with
  | nil => exact ⟨List.suffix_refl _, fun _ => rfl⟩
  | cons e tail =>
      by_cases letter : e = 'e' ∨ e = 'E'
      · rw [scanExponent_letter letter]
        split
        next => exact ⟨List.suffix_refl _, fun _ => rfl⟩
        next =>
          exact ⟨((List.dropWhile_suffix _).trans (afterSign_suffix tail)).trans
            (List.suffix_cons e tail), fun none => absurd none (Option.some_ne_none _)⟩
      · have whole : Json.scanExponent (e :: tail) = (none, e :: tail) := if_neg letter
        rw [whole]
        exact ⟨List.suffix_refl _, fun _ => rfl⟩

/-! ## Decimal numbers -/

theorem fraction_elim (ends : (Json.scanFraction cs).1 ≠ [] →
      (Json.scanFraction cs).2.head? ≠ some '_') :
    ((fraction cs).elim (none, cs) fun run => (some run.1, run.2)) =
      (if (Json.scanFraction cs).1 = [] then none else some (Json.scanFraction cs).1,
        (Json.scanFraction cs).2) := by
  rw [fraction_eq ends]
  split
  next none => rw [(scanFraction_rest cs).2 none, Option.elim_none]
  next => rw [Option.elim_some]

theorem exponent_elim (ends : (Json.scanExponent cs).1 ≠ none →
      (Json.scanExponent cs).2.head? ≠ some '_') :
    ((exponent cs).elim (none, cs) fun run => (some run.1, run.2)) = Json.scanExponent cs := by
  have left := (scanExponent_rest cs).2
  rw [exponent_eq ends]
  generalize Json.scanExponent cs = scanned at left ⊢
  obtain ⟨power, rest⟩ := scanned
  cases power with
  | none => rw [Option.map_none, Option.elim_none, show rest = cs from left rfl]
  | some n => rfl

/-- Without underscores a decimal number is what it is in JSON. -/
theorem decimalNumber_eq {text : List Char} {v : Value} (sign : afterSign text = (negative, cs))
    (scanned : Json.scanUnsigned negative left cs = some (.ok v, rest))
    (unbroken : Unbroken cs rest) : decimalNumber text = some (.ok (v, rest)) := by
  obtain ⟨nonempty, isRest⟩ := Json.scanUnsigned_rest scanned
  have wholeSuffix : (Json.scanWhole cs).2 <:+ cs := ⟨_, Json.scanWhole_append cs⟩
  have fractionSuffix := (scanFraction_rest (Json.scanWhole cs).2).1
  have exponentSuffix := (scanExponent_rest (Json.scanFraction (Json.scanWhole cs).2).2).1
  rw [← isRest] at exponentSuffix
  have isWhole := wholeDigits_eq nonempty
    (unbroken _ wholeSuffix (exponentSuffix.trans fractionSuffix).length_le)
  have isFraction := fraction_elim fun _ =>
    unbroken _ (fractionSuffix.trans wholeSuffix) exponentSuffix.length_le
  have isExponent := exponent_elim fun _ => isRest ▸
    unbroken rest ((exponentSuffix.trans fractionSuffix).trans wholeSuffix) (Nat.le_refl _)
  unfold Json.scanUnsigned at scanned
  rw [decimalNumber, sign]
  simp only [isWhole, Option.bind_eq_bind, Option.bind_some, isFraction, isExponent]
  generalize Json.scanWhole cs = whole at *
  obtain ⟨whole, afterWhole⟩ := whole
  dsimp only at *
  obtain ⟨d, whole, rfl⟩ := List.exists_cons_of_ne_nil nonempty
  dsimp only at scanned
  generalize Json.scanFraction afterWhole = places at *
  obtain ⟨places, afterPlaces⟩ := places
  dsimp only at *
  generalize Json.scanExponent afterPlaces = power at *
  obtain ⟨power, rest⟩ := power
  subst isRest
  cases places with
  | cons c places =>
      simp only [List.isEmpty_cons, Bool.false_and, Bool.false_eq_true, if_false, Option.some_inj,
        Prod.mk.injEq, Except.ok.injEq, and_true] at scanned
      obtain rfl := scanned
      rfl
  | nil =>
      cases power with
      | some n =>
          simp only [Option.isNone_some, Bool.and_false, Bool.false_eq_true, if_false,
            Option.some_inj, Prod.mk.injEq, Except.ok.injEq, and_true] at scanned
          obtain rfl := scanned
          rfl
      | none =>
          simp only [List.isEmpty_nil, Option.isNone_none, Bool.and_self, if_true] at scanned ⊢
          split at scanned
          next => cases scanned
          next fits =>
            rw [if_neg fits]
            simp only [Option.some_inj, Prod.mk.injEq, Except.ok.injEq, and_true] at scanned
            obtain rfl := scanned
            rfl

/-! ## What follows -/

/-- A comma, a blank or a line break follows a value. -/
def EndsValue (rest : List Char) : Prop :=
  ∃ c more, rest = c :: more ∧ (c = ',' ∨ c = ' ' ∨ c = '\n')

theorem EndsValue.endsNumber (ends : EndsValue rest) : Json.EndsNumber rest := by
  obtain ⟨c, more, rfl, mark⟩ := ends
  intro first head
  obtain rfl := Option.some_inj.mp head
  rcases mark with rfl | rfl | rfl <;> decide

theorem EndsValue.head?_ne (ends : EndsValue rest) {c : Char}
    (other : c ≠ ',' ∧ c ≠ ' ' ∧ c ≠ '\n') : rest.head? ≠ some c := by
  obtain ⟨first, more, rfl, mark⟩ := ends
  intro head
  obtain rfl := Option.some_inj.mp head
  rcases mark with rfl | rfl | rfl <;> simp at other

/-- After the digits of the whole part stand the other parts of the number, or what follows. -/
theorem afterWhole (scanned : Json.scanUnsigned negative left cs = some (x, rest))
    (ends : EndsValue rest) : ∃ c more, (Json.scanWhole cs).2 = c :: more ∧
      c ∈ ['.', 'e', 'E', ',', ' ', '\n'] := by
  obtain ⟨-, isRest⟩ := Json.scanUnsigned_rest scanned
  generalize (Json.scanWhole cs).2 = after at isRest ⊢
  by_cases other : after.head? ∈ [some '.', some 'e', some 'E']
  · simp only [List.mem_cons, List.not_mem_nil, or_false] at other
    rcases other with head | head | head <;>
      · obtain ⟨more, rfl⟩ := List.head?_eq_some_iff.mp head
        exact ⟨_, more, rfl, by simp⟩
  · simp only [List.mem_cons, List.not_mem_nil, or_false, not_or] at other
    have noFraction : Json.scanFraction after = ([], after) :=
      Json.scanFraction_none fun c head same => other.1 (same ▸ head)
    have noExponent : Json.scanExponent after = (none, after) := by
      cases after with
      | nil => rfl
      | cons e tail =>
          refine if_neg (not_or.mpr ⟨?_, ?_⟩)
          · exact fun same => other.2.1 (congrArg some same)
          · exact fun same => other.2.2 (congrArg some same)
    rw [noFraction, noExponent] at isRest
    obtain ⟨c, more, isCons, mark⟩ := ends
    refine ⟨c, more, isRest.symm.trans isCons, ?_⟩
    rcases mark with rfl | rfl | rfl <;> simp

theorem dropDigits_eq (scanned : Json.scanUnsigned negative left cs = some (x, rest))
    (ends : EndsValue rest) : cs.dropWhile Char.isDigit = (Json.scanWhole cs).2 := by
  obtain ⟨c, more, isAfter, mark⟩ := afterWhole scanned ends
  unfold Json.scanWhole at isAfter ⊢
  split at isAfter
  next tail =>
    obtain rfl : tail = c :: more := isAfter
    have other : c.isDigit = false := by
      simp only [List.mem_cons, List.not_mem_nil, or_false] at mark
      rcases mark with rfl | rfl | rfl | rfl | rfl | rfl <;> rfl
    rw [List.dropWhile_cons_of_pos rfl, List.dropWhile_cons_of_neg (by simp [other])]
  next => rfl

/-! ## Neither dates nor times -/

theorem exists_digits_of_takeNumber {count start n : Nat}
    (taken : takeNumber count start cs = some (n, rest)) :
    ∃ digits, cs = digits ++ rest ∧ digits.length = count ∧ ∀ d ∈ digits, d.isDigit = true := by
  induction count generalizing start cs with
  | zero =>
      obtain ⟨-, rfl⟩ := Prod.mk.inj (Option.some_inj.mp taken)
      exact ⟨[], rfl, rfl, by simp⟩
  | succ count ih =>
      cases cs with
      | nil => cases taken
      | cons c cs =>
          rw [takeNumber] at taken
          split at taken
          next digit =>
            obtain ⟨digits, rfl, rfl, all⟩ := ih taken
            exact ⟨c :: digits, rfl, rfl, List.forall_mem_cons.mpr ⟨digit, all⟩⟩
          next => cases taken

theorem mark_eq_some {c : Char} (marked : mark c cs = some rest) : cs = c :: rest := by
  cases cs with
  | nil => cases marked
  | cons d cs =>
      rw [mark] at marked
      split at marked
      next same => rw [same, Option.some_inj.mp marked]
      next => cases marked

/-- A number does not start like a date or a time: no dash and no colon stands right after its first
digits. -/
def Timeless (cs : List Char) : Prop :=
  ∀ digits c more, cs = digits ++ c :: more → digits ≠ [] → (∀ d ∈ digits, d.isDigit = true) →
    c ≠ '-' ∧ c ≠ ':'

theorem Timeless.dateTime_eq_none (timeless : Timeless cs) : dateTime cs = none := by
  have none : date cs = none := by
    rw [date, Option.bind_eq_bind, Option.bind_eq_none_iff]
    rintro ⟨year, rest⟩ found
    obtain ⟨digits, isText, four, all⟩ := exists_digits_of_takeNumber found
    simp only [Option.bind_eq_bind, Option.bind_eq_none_iff]
    intro tail dash
    rw [mark_eq_some dash] at isText
    have some : digits ≠ [] := List.ne_nil_of_length_pos (by omega)
    exact absurd rfl (timeless digits '-' tail isText some all).1
  rw [dateTime, none]
  rfl

theorem Timeless.clock_eq_none (timeless : Timeless cs) : clock cs = none := by
  rw [clock, Option.bind_eq_bind, Option.bind_eq_none_iff]
  rintro ⟨hour, rest⟩ found
  obtain ⟨digits, isText, two, all⟩ := exists_digits_of_takeNumber found
  simp only [Option.bind_eq_bind, Option.bind_eq_none_iff]
  intro tail colon
  rw [mark_eq_some colon] at isText
  have some : digits ≠ [] := List.ne_nil_of_length_pos (by omega)
  exact absurd rfl (timeless digits ':' tail isText some all).2

theorem timeless_number (scanned : Json.scanUnsigned negative left cs = some (x, rest))
    (ends : EndsValue rest) : Timeless (if negative then '-' :: cs else cs) := by
  intro digits c more isText some all
  obtain ⟨d, digits, rfl⟩ := List.exists_cons_of_ne_nil some
  cases negative with
  | true =>
      obtain ⟨rfl, -⟩ := List.cons.inj isText
      cases all '-' List.mem_cons_self
  | false =>
      obtain ⟨first, tail, isAfter, mark⟩ := afterWhole scanned ends
      rw [← dropDigits_eq scanned ends, show cs = d :: digits ++ c :: more from isText] at isAfter
      by_cases digit : c.isDigit = true
      · constructor <;> rintro rfl <;> cases digit
      · rw [Json.dropWhile_digits all (Json.endsDigits_cons more (by simpa using digit))] at isAfter
        obtain ⟨rfl, -⟩ := List.cons.inj isAfter
        constructor <;> rintro rfl <;> simp at mark

/-! ## Numbers as scalars -/

theorem prefixedInt_eq_none (scanned : Json.scanUnsigned negative left cs = some (x, rest))
    (ends : EndsValue rest) : prefixedInt (if negative then '-' :: cs else cs) = none := by
  cases negative with
  | true => rfl
  | false =>
      obtain ⟨c, more, isAfter, mark⟩ := afterWhole scanned ends
      rw [if_neg (by simp)]
      unfold prefixedInt
      split
      next letter tail =>
        obtain ⟨rfl, -⟩ : letter = c ∧ tail = more := List.cons.inj isAfter
        simp only [List.mem_cons, List.not_mem_nil, or_false] at mark
        rcases mark with rfl | rfl | rfl | rfl | rfl | rfl <;> rfl
      next => rfl

/-- A text that starts with neither a quote nor a letter, and is no date and no time. -/
theorem readScalar_timeless {c : Char} {v : Value} (timeless : Timeless (c :: cs))
    (first : c.isDigit = true ∨ c = '-')
    (read : number (c :: cs) = some (.ok (v, rest))) :
    readScalar (c :: cs) = .ok (v, rest) := by
  have others : c ≠ '"' ∧ c ≠ '\'' ∧ c ≠ 't' ∧ c ≠ 'f' := by
    refine ⟨?_, ?_, ?_, ?_⟩ <;> rintro rfl <;> simp at first
  obtain ⟨double, single, t, f⟩ := others
  have noTrue : "true".toList.isPrefixOf (c :: cs) = false := by
    simp [List.isPrefixOf, t.symm]
  have noFalse : "false".toList.isPrefixOf (c :: cs) = false := by
    simp [List.isPrefixOf, f.symm]
  unfold readScalar
  split
  next same => exact absurd (List.cons.inj same).1 double
  next same => exact absurd (List.cons.inj same).1 single
  next =>
    rw [noTrue, noFalse, timeless.dateTime_eq_none, timeless.clock_eq_none, read]
    rfl

/-- A number is read as in JSON. -/
theorem readScalar_number {v : Value}
    (scanned : Json.scanUnsigned negative left cs = some (.ok v, rest)) (ends : EndsValue rest)
    (unbroken : Unbroken cs rest) :
    readScalar (if negative then '-' :: cs else cs) = .ok (v, rest) := by
  have timeless := timeless_number scanned ends
  have noPrefix := prefixedInt_eq_none scanned ends
  obtain ⟨d, more, rfl, digit⟩ := Json.exists_digit_of_scanUnsigned scanned
  have sign : afterSign (if negative then '-' :: d :: more else d :: more) =
      (negative, d :: more) := by
    cases negative with
    | true => rfl
    | false =>
        have others : d ≠ '-' ∧ d ≠ '+' := by
          constructor <;> rintro rfl <;> cases digit
        unfold afterSign
        split
        next same => exact absurd (List.cons.inj same).1 others.1
        next same => exact absurd (List.cons.inj same).1 others.2
        next => rfl
  have read : number (if negative then '-' :: d :: more else d :: more) = some (.ok (v, rest)) := by
    rw [number, noPrefix]
    exact decimalNumber_eq sign scanned unbroken
  cases negative with
  | true => exact readScalar_timeless timeless (.inr rfl) read
  | false => exact readScalar_timeless timeless (.inl digit) read

/-! ## Printed numbers -/

theorem readScalar_intText {n : Int} (few : (decimalDigits n.natAbs).length ≤ Json.digitLimit)
    (ends : EndsValue rest) : readScalar (intText n ++ rest) = .ok (.int n, rest) := by
  have scanned := Json.scanUnsigned_decimalDigits n.natAbs ends.endsNumber (decide (n < 0)) 0
  rw [if_neg (Nat.not_lt.mpr few)] at scanned
  have clean : '_' ∉ decimalDigits n.natAbs :=
    mt (isNumberChar_of_mem_decimalDigits '_') Bool.false_ne_true
  have read := readScalar_number scanned ends
    (unbroken_append clean (ends.head?_ne (by decide)))
  by_cases negative : n < 0
  · have value : -(n.natAbs : Int) = n := by omega
    rw [intText, if_pos negative]
    simp only [negative, decide_true, if_true, value] at read
    exact read
  · have value : (n.natAbs : Int) = n := by omega
    rw [intText, if_neg negative]
    simp only [negative, decide_false, Bool.false_eq_true, if_false, value] at read
    exact read

theorem readScalar_realText (x : Binary64) (ends : EndsValue rest) :
    readScalar (plainNumberStyle.text x ++ rest) = .ok (.real x, rest) := by
  cases x with
  | nan => rfl
  | infinity negative => cases negative <;> rfl
  | finite negative significand exponent canonical =>
      have scanned := Json.scanUnsigned_magnitude canonical ends.endsNumber plainNumberStyle
        negative 0
      have clean : '_' ∉ plainNumberStyle.magnitudeText significand exponent :=
        mt (NumberStyle.isNumberChar_of_mem_magnitudeText _ _ '_') Bool.false_ne_true
      have read := readScalar_number scanned ends
        (unbroken_append clean (ends.head?_ne (by decide)))
      cases negative with
      | true => exact read
      | false => exact read

end Workflow.Toml
