import Workflow.Proofs.Json.Number

/-!
The characters of number texts. Main statement: whatever the style, a text of a double has digits,
a point, an exponent and signs, or the name of a special value.
-/

namespace Workflow

/-- The characters of digits, points, exponents and signs. -/
def isNumberChar (c : Char) : Bool := c.isDigit || c == '.' || c == 'e' || c == '+' || c == '-'

theorem isNumberChar_of_isDigit {c : Char} (digit : c.isDigit = true) : isNumberChar c = true := by
  simp [isNumberChar, digit]

theorem isNumberChar_of_mem_decimalDigits {n : Nat} :
    ∀ c ∈ decimalDigits n, isNumberChar c = true :=
  fun _ member => isNumberChar_of_isDigit (isDigit_of_mem_decimalDigits member)

theorem isNumberChar_of_mem_intText {n : Int} : ∀ c ∈ intText n, isNumberChar c = true := by
  rw [intText]
  split
  · exact List.forall_mem_cons.mpr ⟨rfl, isNumberChar_of_mem_decimalDigits⟩
  · exact isNumberChar_of_mem_decimalDigits

namespace NumberStyle

variable {digits : List Char} {style : NumberStyle}

theorem isNumberChar_of_mem_positional (clean : ∀ c ∈ digits, isNumberChar c = true)
    (leading : Int) : ∀ c ∈ positional digits leading, isNumberChar c = true := by
  have zeros (n : Nat) : ∀ c ∈ List.replicate n '0', isNumberChar c = true :=
    fun c member => List.eq_of_mem_replicate member ▸ rfl
  have joined {start : List Char} (starts : ∀ c ∈ start, isNumberChar c = true) {more : List Char}
      (later : ∀ c ∈ more, isNumberChar c = true) : ∀ c ∈ start ++ more, isNumberChar c = true :=
    List.forall_mem_append.mpr ⟨starts, later⟩
  rw [positional]
  split
  · exact List.forall_mem_cons.mpr ⟨rfl, List.forall_mem_cons.mpr ⟨rfl, joined (zeros _) clean⟩⟩
  · dsimp only
    have filled := joined clean (zeros (leading.toNat + 1 + 1 - digits.length))
    refine joined (fun c member => filled c (List.mem_of_mem_take member)) ?_
    exact List.forall_mem_cons.mpr ⟨rfl, fun c member => filled c (List.mem_of_mem_drop member)⟩

theorem isNumberChar_of_mem_scientific (clean : ∀ c ∈ digits, isNumberChar c = true)
    (leading : Int) : ∀ c ∈ scientific digits leading, isNumberChar c = true := by
  have power : ∀ c ∈ 'e' :: (if leading < 0 then '-' else '+') :: twoDigits leading.natAbs,
      isNumberChar c = true := by
    refine List.forall_mem_cons.mpr ⟨rfl, List.forall_mem_cons.mpr ⟨?_, ?_⟩⟩
    · split <;> rfl
    · exact fun c member => isNumberChar_of_isDigit (Json.isDigit_of_mem_twoDigits member)
  unfold scientific
  refine List.forall_mem_append.mpr ⟨?_, power⟩
  split
  next d second rest =>
    rw [List.forall_mem_cons] at clean
    exact List.forall_mem_cons.mpr ⟨clean.1, List.forall_mem_cons.mpr ⟨rfl, clean.2⟩⟩
  next => exact clean

theorem isNumberChar_of_mem_magnitudeText (significand exponent : Nat) :
    ∀ c ∈ style.magnitudeText significand exponent, isNumberChar c = true := by
  rw [magnitudeText]
  split
  · exact isNumberChar_of_mem_positional (List.forall_mem_singleton.mpr rfl) 0
  · dsimp only
    split
    · exact isNumberChar_of_mem_scientific isNumberChar_of_mem_decimalDigits _
    · exact isNumberChar_of_mem_positional isNumberChar_of_mem_decimalDigits _

theorem isNumberChar_or_of_mem_text (x : Binary64) {c : Char} (member : c ∈ style.text x) :
    isNumberChar c = true ∨ c ∈ style.nanText ∨ c ∈ style.infinityText := by
  cases x with
  | nan => exact .inr (.inl member)
  | infinity negative =>
      rw [text] at member
      split at member
      · rcases List.mem_cons.mp member with rfl | named
        · exact .inl rfl
        · exact .inr (.inr named)
      · exact .inr (.inr member)
  | finite negative significand exponent canonical =>
      rw [text] at member
      left
      split at member
      · rcases List.mem_cons.mp member with rfl | inside
        · rfl
        · exact isNumberChar_of_mem_magnitudeText _ _ c inside
      · exact isNumberChar_of_mem_magnitudeText _ _ c member

end NumberStyle

end Workflow
