import Workflow.Number.Decimal
import Mathlib.Tactic.IntervalCases
import Mathlib.Tactic.Ring

/-!
Decimal digits read back: the digits of a number have its value, there are as many of them as its
size asks for, and the first one is not a zero.
-/

namespace Workflow

theorem twoTo_eq (n : Nat) : twoTo n = 2 ^ n := rfl

theorem tenTo_eq (n : Nat) : tenTo n = 10 ^ n := rfl

theorem twoTo_pos (n : Nat) : 0 < twoTo n := Nat.two_pow_pos n

theorem tenTo_pos (n : Nat) : 0 < tenTo n := Nat.pow_pos (by decide)

/-! ## Single digits -/

theorem digitValue_digitChar {d : Nat} (small : d < 10) : digitValue (digitChar d) = d := by
  interval_cases d <;> rfl

theorem isDigit_digitChar {d : Nat} (small : d < 10) : (digitChar d).isDigit = true := by
  interval_cases d <;> rfl

theorem digitChar_ne_zero {d : Nat} (small : d < 10) (positive : 0 < d) : digitChar d ≠ '0' := by
  interval_cases d <;> decide

/-! ## Values of digits -/

theorem foldl_digits (start : Nat) (digits : List Char) :
    digits.foldl (fun n c => 10 * n + digitValue c) start =
      start * 10 ^ digits.length + ofDigits digits := by
  induction digits generalizing start with
  | nil => simp [ofDigits]
  | cons c digits ih =>
      have whole :
          ofDigits (c :: digits) = digitValue c * 10 ^ digits.length + ofDigits digits := by
        rw [ofDigits, List.foldl_cons, ih, Nat.mul_zero, Nat.zero_add]
      rw [List.foldl_cons, ih, whole, List.length_cons, Nat.pow_succ]
      ring

theorem ofDigits_append (digits more : List Char) :
    ofDigits (digits ++ more) = ofDigits digits * 10 ^ more.length + ofDigits more := by
  rw [ofDigits, List.foldl_append, foldl_digits]
  rfl

theorem ofDigits_singleton (c : Char) : ofDigits [c] = digitValue c := by
  simp [ofDigits]

theorem ofDigits_zeros (count : Nat) : ofDigits (List.replicate count '0') = 0 := by
  induction count with
  | zero => rfl
  | succ count ih =>
      rw [List.replicate_succ', ofDigits_append, ih, ofDigits_singleton]
      rfl

/-! ## Digits of a number -/

theorem decimalDigits_of_lt {n : Nat} (small : n < 10) : decimalDigits n = [digitChar n] := by
  rw [decimalDigits, if_pos small]

theorem decimalDigits_of_le {n : Nat} (large : 10 ≤ n) :
    decimalDigits n = decimalDigits (n / 10) ++ [digitChar (n % 10)] := by
  rw [decimalDigits, if_neg (by omega)]

theorem decimalDigits_ne_nil (n : Nat) : decimalDigits n ≠ [] := by
  rw [decimalDigits]
  split <;> simp

theorem length_decimalDigits_pos (n : Nat) : 0 < (decimalDigits n).length :=
  List.length_pos_iff.mpr (decimalDigits_ne_nil n)

theorem isDigit_of_mem_decimalDigits {n : Nat} {c : Char} (member : c ∈ decimalDigits n) :
    c.isDigit = true := by
  induction n using decimalDigits.induct with
  | case1 n small =>
      rw [decimalDigits_of_lt small, List.mem_singleton] at member
      rw [member]
      exact isDigit_digitChar small
  | case2 n large ih =>
      rw [decimalDigits_of_le (by omega), List.mem_append, List.mem_singleton] at member
      rcases member with before | rfl
      · exact ih before
      · exact isDigit_digitChar (Nat.mod_lt n (by omega))

theorem ofDigits_decimalDigits (n : Nat) : ofDigits (decimalDigits n) = n := by
  induction n using decimalDigits.induct with
  | case1 n small =>
      rw [decimalDigits_of_lt small, ofDigits_singleton, digitValue_digitChar small]
  | case2 n large ih =>
      have last := digitValue_digitChar (Nat.mod_lt n (by omega : 0 < 10))
      rw [decimalDigits_of_le (by omega), ofDigits_append, ih, ofDigits_singleton, last,
        List.length_singleton]
      omega

theorem decimalDigits_injective {n m : Nat} (same : decimalDigits n = decimalDigits m) : n = m := by
  rw [← ofDigits_decimalDigits n, same, ofDigits_decimalDigits]

theorem lt_pow_length (n : Nat) : n < 10 ^ (decimalDigits n).length := by
  induction n using decimalDigits.induct with
  | case1 n small => simpa [decimalDigits_of_lt small] using small
  | case2 n large ih =>
      rw [decimalDigits_of_le (by omega), List.length_append, List.length_singleton, Nat.pow_succ]
      omega

theorem pow_length_le {n : Nat} (positive : 0 < n) : 10 ^ ((decimalDigits n).length - 1) ≤ n := by
  induction n using decimalDigits.induct with
  | case1 n small =>
      rw [decimalDigits_of_lt small]
      exact positive
  | case2 n large ih =>
      have shorter := ih (by omega)
      have some := length_decimalDigits_pos (n / 10)
      rw [decimalDigits_of_le (by omega), List.length_append, List.length_singleton,
        Nat.add_sub_cancel]
      calc
        10 ^ (decimalDigits (n / 10)).length =
            10 ^ ((decimalDigits (n / 10)).length - 1) * 10 := by
          rw [← Nat.pow_succ]
          congr 1
          omega
        _ ≤ n := by omega

/-- The first digit of a positive number is not a zero. -/
theorem exists_decimalDigits_eq_cons {n : Nat} (positive : 0 < n) :
    ∃ first rest, decimalDigits n = first :: rest ∧ first ≠ '0' := by
  induction n using decimalDigits.induct with
  | case1 n small =>
      exact ⟨digitChar n, [], decimalDigits_of_lt small, digitChar_ne_zero small positive⟩
  | case2 n large ih =>
      obtain ⟨first, rest, digits, nonzero⟩ := ih (by omega)
      refine ⟨first, rest ++ [digitChar (n % 10)], ?_, nonzero⟩
      rw [decimalDigits_of_le (by omega), digits, List.cons_append]

end Workflow
