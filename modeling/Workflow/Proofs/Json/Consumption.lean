import Workflow.Json.Token
import Workflow.Proofs.Json.Token

/-!
How the tokens of a text come about. Every scanner leaves a shorter text, so there are always enough
rounds, and the tokens of a text are its first token and the tokens of what follows that.
-/

namespace Workflow.Json

variable {cs after : List Char}

/-! ## What scanners leave -/

theorem length_scanText (start : Nat) (before cs : List Char) :
    (scanText start before cs).2.length ≤ cs.length := by
  fun_induction scanText start before cs <;> simp_all <;> omega

theorem length_dropDigits (cs : List Char) : (cs.dropWhile Char.isDigit).length ≤ cs.length :=
  (List.dropWhile_sublist _).length_le

theorem length_scanFraction (cs : List Char) : (scanFraction cs).2.length ≤ cs.length := by
  unfold scanFraction
  split
  next rest =>
    have shorter := length_dropDigits rest
    split
    · exact Nat.le_refl _
    · exact Nat.le_succ_of_le shorter
  next => exact Nat.le_refl _

theorem length_scanExponent (cs : List Char) : (scanExponent cs).2.length ≤ cs.length := by
  unfold scanExponent
  split
  next e rest =>
    have shorter : ∀ tail : List Char, tail.length ≤ rest.length →
        (tail.dropWhile Char.isDigit).length ≤ (e :: rest).length := by
      intro tail unsigned
      have digits := length_dropDigits tail
      rw [List.length_cons]
      omega
    split
    next =>
      dsimp only
      split
      · exact Nat.le_refl _
      · dsimp only
        apply shorter
        split <;> simp
    next => exact Nat.le_refl _
  next => exact Nat.le_refl _

theorem scanWhole_append (cs : List Char) : (scanWhole cs).1 ++ (scanWhole cs).2 = cs := by
  unfold scanWhole
  split
  · rfl
  · exact List.takeWhile_append_dropWhile

/-- The characters after a number, where there is one. -/
theorem scanUnsigned_rest {negative : Bool} {left : Nat} {scalar : Except Fault Value}
    (scanned : scanUnsigned negative left cs = some (scalar, after)) :
    (scanWhole cs).1 ≠ [] ∧ after = (scanExponent (scanFraction (scanWhole cs).2).2).2 := by
  unfold scanUnsigned at scanned
  split at scanned
  · cases scanned
  next whole rest some isWhole =>
    rw [isWhole]
    refine ⟨fun none => some none, ?_⟩
    dsimp only at scanned
    split at scanned
    · split at scanned <;> exact (Prod.mk.inj (Option.some_inj.mp scanned)).2.symm
    · exact (Prod.mk.inj (Option.some_inj.mp scanned)).2.symm

theorem length_scanUnsigned {negative : Bool} {left : Nat} {scalar : Except Fault Value}
    (scanned : scanUnsigned negative left cs = some (scalar, after)) :
    after.length < cs.length := by
  obtain ⟨some, rfl⟩ := scanUnsigned_rest scanned
  have whole := congrArg List.length (scanWhole_append cs)
  have positive := List.length_pos_iff.mpr some
  have fraction := length_scanFraction (scanWhole cs).2
  have exponent := length_scanExponent (scanFraction (scanWhole cs).2).2
  rw [List.length_append] at whole
  omega

theorem length_firstToken (c : Char) (rest : List Char) :
    (firstToken c rest).2.length ≤ rest.length := by
  unfold firstToken
  split
  · exact length_scanText _ _ _
  · split
    next v after constant =>
      obtain ⟨⟨word, v'⟩, found, same⟩ := Option.map_eq_some_iff.mp constant
      obtain ⟨-, rfl⟩ := Prod.mk.inj same
      have member := List.mem_of_find?_eq_some found
      have positive : 0 < word.length := by
        revert member
        simp only [constants, List.mem_cons, Prod.mk.injEq, List.not_mem_nil, or_false]
        rintro (⟨rfl, -⟩ | ⟨rfl, -⟩ | ⟨rfl, -⟩ | ⟨rfl, -⟩ | ⟨rfl, -⟩ | ⟨rfl, -⟩) <;> decide
      simp only [List.length_drop, List.length_cons]
      omega
    · split
      next number =>
        unfold scanNumber at number
        split at number
        next tail same =>
          obtain ⟨-, rfl⟩ := List.cons.inj same
          exact Nat.le_of_lt (length_scanUnsigned number)
        next => exact Nat.le_of_lt_succ (length_scanUnsigned number)
      next => exact Nat.le_refl _

/-! ## Tokens -/

/-- More rounds than there are characters change nothing. -/
theorem tokensFrom_of_le {fuel : Nat} (enough : cs.length ≤ fuel) :
    tokensFrom fuel cs = tokens cs := by
  -- Both take the same first token, and the rest is shorter than either number of rounds.
  have agree : ∀ n m : Nat, ∀ cs : List Char, cs.length ≤ n → cs.length ≤ m →
      tokensFrom n cs = tokensFrom m cs := by
    intro n
    induction n with
    | zero =>
        intro m cs small _
        obtain rfl := List.length_eq_zero_iff.mp (Nat.le_zero.mp small)
        cases m <;> rfl
    | succ n ih =>
        intro m cs small small'
        cases cs with
        | nil => cases m <;> rfl
        | cons c rest =>
            cases m with
            | zero => exact absurd small' (Nat.not_succ_le_zero _)
            | succ m =>
                have left := Nat.le_of_succ_le_succ small
                have left' := Nat.le_of_succ_le_succ small'
                have shorter := length_firstToken c rest
                have later := ih m (firstToken c rest).2 (shorter.trans left) (shorter.trans left')
                rw [tokensFrom, tokensFrom, ih m rest left left']
                generalize firstToken c rest = first at later
                obtain ⟨token, after⟩ := first
                simp only [later]
  exact agree fuel cs.length cs enough (Nat.le_refl _)

@[simp]
theorem tokens_nil : tokens [] = [] := rfl

@[simp]
theorem tokens_blank {c : Char} (blank : isBlank c = true) (rest : List Char) :
    tokens (c :: rest) = tokens rest := by
  rw [tokens, List.length_cons, tokensFrom, if_pos blank, tokens]

theorem tokens_blanks {blanks : List Char} (all : ∀ c ∈ blanks, isBlank c = true)
    (rest : List Char) : tokens (blanks ++ rest) = tokens rest := by
  induction blanks with
  | nil => rfl
  | cons c blanks ih =>
      rw [List.cons_append, tokens_blank (all c List.mem_cons_self)]
      exact ih fun d member => all d (List.mem_cons_of_mem c member)

/-- A text that does not start with a blank has its first token in front. -/
theorem tokens_eq_cons {token : Token} (found : token? cs = some (token, after))
    (visible : ∀ c, cs.head? = some c → isBlank c = false) :
    tokens cs = ⟨token, cs.length⟩ :: tokens after := by
  cases cs with
  | nil => cases found
  | cons c rest =>
      have first := Option.some_inj.mp found
      have shorter := length_firstToken c rest
      rw [tokens, List.length_cons, tokensFrom, if_neg (by simp [visible c rfl])]
      simp only [first] at shorter ⊢
      rw [tokensFrom_of_le shorter]

end Workflow.Json
