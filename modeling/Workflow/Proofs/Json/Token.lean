import Workflow.Json.Printer
import Workflow.Proofs.Json.Number

/-!
Tokens that are scanned back: the text of a scalar starts with one token, which holds the scalar,
and ends with it.
-/

namespace Workflow.Json

/-- The first token of a text, and the characters after it. -/
def token? : List Char → Option (Token × List Char)
  | [] => none
  | c :: rest => some (firstToken c rest)

variable {rest : List Char}

theorem exists_digit_of_scanUnsigned {negative : Bool} {left : Nat} {cs : List Char}
    {result : Except Fault Value × List Char}
    (scanned : scanUnsigned negative left cs = some result) :
    ∃ c more, cs = c :: more ∧ c.isDigit = true := by
  cases cs with
  | nil => cases scanned
  | cons c more =>
      refine ⟨c, more, rfl, ?_⟩
      by_contra other
      have whole : scanWhole (c :: more) = ([], c :: more) := by
        rw [scanWhole, List.takeWhile_cons_of_neg other, List.dropWhile_cons_of_neg other]
        intro rest same
        rw [(List.cons.inj same).1] at other
        exact other rfl
      rw [scanUnsigned, whole] at scanned
      cases scanned

theorem scanConstant_digit {c : Char} (digit : c.isDigit = true) :
    scanConstant (c :: rest) = none ∧ scanConstant ('-' :: c :: rest) = none := by
  have others : c ≠ 'n' ∧ c ≠ 't' ∧ c ≠ 'f' ∧ c ≠ 'N' ∧ c ≠ 'I' ∧ c ≠ '-' := by
    refine ⟨?_, ?_, ?_, ?_, ?_, ?_⟩ <;>
      · intro same
        rw [same] at digit
        cases digit
  obtain ⟨n, t, f, N, I, minus⟩ := others
  constructor
  · simp [scanConstant, constants, n.symm, t.symm, f.symm, N.symm, I.symm, minus.symm]
  · simp [scanConstant, constants, I.symm]

theorem firstToken_number {c : Char} {cs : List Char} {scalar : Except Fault Value}
    (quote : c ≠ '"') (constant : scanConstant (c :: cs) = none)
    (number : scanNumber (c :: cs) = some (scalar, rest)) :
    firstToken c cs = (.scalar scalar, rest) := by
  rw [firstToken, if_neg quote, constant, number]

theorem token?_number {cs : List Char} {scalar : Nat → Except Fault Value} (negative : Bool)
    (scanned : ∀ left, scanUnsigned negative left cs = some (scalar left, rest)) :
    token? (if negative then '-' :: cs else cs) =
      some (.scalar (scalar (if negative then '-' :: cs else cs).length), rest) := by
  obtain ⟨c, more, rfl, digit⟩ := exists_digit_of_scanUnsigned (scanned 0)
  obtain ⟨constant, negativeConstant⟩ :
      scanConstant (c :: more) = none ∧ scanConstant ('-' :: c :: more) = none :=
    scanConstant_digit digit
  cases negative with
  | true =>
      exact congrArg some (firstToken_number (by decide) negativeConstant (scanned _))
  | false =>
      have others : c ≠ '-' ∧ c ≠ '"' := by
        refine ⟨?_, ?_⟩ <;>
          · intro same
            rw [same] at digit
            cases digit
      apply congrArg some
      apply firstToken_number others.2 constant
      rw [scanNumber]
      · exact scanned _
      · intro rest same
        exact others.1 (List.cons.inj same).1

theorem token?_int (n : Int) (ends : EndsNumber rest) :
    token? (intText n ++ rest) = some (.scalar
      (if digitLimit < (decimalDigits n.natAbs).length then
        .error ⟨.tooManyDigits (decimalDigits n.natAbs).length, (intText n ++ rest).length⟩
      else .ok (.int n)), rest) := by
  have scanned := token?_number (decide (n < 0))
    (scanUnsigned_decimalDigits n.natAbs ends (decide (n < 0)))
  by_cases negative : n < 0
  · have value : -(n.natAbs : Int) = n := by omega
    simp only [negative, decide_true, if_true, value] at scanned
    rw [intText, if_pos negative]
    exact scanned
  · have value : (n.natAbs : Int) = n := by omega
    simp only [negative, decide_false, Bool.false_eq_true, if_false, value] at scanned
    rw [intText, if_neg negative]
    exact scanned

theorem token?_real (x : Binary64) (ends : EndsNumber rest) :
    token? (jsonNumberStyle.text x ++ rest) = some (.scalar (.ok (.real x)), rest) := by
  cases x with
  | nan => rfl
  | infinity negative => cases negative <;> rfl
  | finite negative significand exponent canonical =>
      have scanned := token?_number negative
        (scanUnsigned_magnitude canonical ends jsonNumberStyle negative)
      rw [NumberStyle.text]
      cases negative with
      | true => exact scanned
      | false => exact scanned

end Workflow.Json
