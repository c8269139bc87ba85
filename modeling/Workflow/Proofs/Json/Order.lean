import Workflow.Proofs.Json.Injective

/-!
Which of two texts comes first. Texts of different entries differ before either of them ends, so the
first entry in which two tables differ decides. Main statement: an entry that two tables share does
not decide, whatever its value.
-/

namespace Workflow.Json

/-! ## Lists of characters -/

/-- The order of texts, on their characters. -/
def Earlier (chars others : List Char) : Prop := List.Lex (· < ·) chars others

theorem earlier_cons_iff {c d : Char} {chars others : List Char} :
    Earlier (c :: chars) (d :: others) ↔ c < d ∨ c = d ∧ Earlier chars others :=
  List.cons_lex_cons_iff

theorem earlier_append_iff (front : List Char) {rest rest' : List Char} :
    Earlier (front ++ rest) (front ++ rest') ↔ Earlier rest rest' := by
  induction front with
  | nil => rfl
  | cons c front ih => simp [earlier_cons_iff, ih]

/-- The lists differ before either of them ends. -/
def Apart (front front' : List Char) : Prop := ∀ rest rest', front ++ rest ≠ front' ++ rest'

/-- What follows after lists that differ does not matter. -/
theorem Apart.earlier_append_iff {front front' : List Char} (apart : Apart front front')
    (rest rest' more more' : List Char) :
    Earlier (front ++ rest) (front' ++ rest') ↔ Earlier (front ++ more) (front' ++ more') := by
  induction front generalizing front' with
  | nil => exact absurd (by simp) (apart front' [])
  | cons c front ih =>
      cases front' with
      | nil => exact absurd (by simp) (apart [] (c :: front))
      | cons c' front' =>
          simp only [List.cons_append, earlier_cons_iff]
          apply or_congr_right
          apply and_congr_right
          intro same
          apply ih
          intro later later' equal
          apply apart later later'
          rw [List.cons_append, List.cons_append, same, equal]

theorem ofList_lt_ofList_iff {chars others : List Char} :
    String.ofList chars < String.ofList others ↔ Earlier chars others := by
  change Earlier (String.ofList chars).toList (String.ofList others).toList ↔ Earlier chars others
  rw [String.toList_ofList, String.toList_ofList]

theorem apart_printText (ascii : Bool) {s t : String} (differ : s ≠ t) :
    Apart (printText ascii s) (printText ascii t) := by
  intro rest rest' same
  have tokens := congrArg token? same
  rw [token?_text, token?_text, Option.some_inj] at tokens
  have contents := (Prod.mk.inj tokens).1
  injection contents with contents
  injection contents with equal
  exact differ equal

/-! ## Tables -/

section

variable {style : Style} {level : Nat}

/-- The entries of a table before another one. -/
def leading (style : Style) (level : Nat) (entries : Entries) : List Char :=
  entries.flatMap fun entry => printEntry style level entry ++ style.comma

theorem leading_nil (rest : List Char) : leading style level [] ++ rest = rest := rfl

theorem leading_cons (entry : String × Value) (entries : Entries) (rest : List Char) :
    leading style level (entry :: entries) ++ rest =
      (printEntry style level entry ++ style.comma) ++ (leading style level entries ++ rest) := by
  rw [leading, List.flatMap_cons, List.append_assoc, leading]

theorem apart_printEntry (oneLine : style.OneLine) {entry other : String × Value}
    (fit : entry.2.Momentless) (fit' : other.2.Momentless) (differ : entry ≠ other) :
    Apart (printEntry style level entry ++ style.comma)
      (printEntry style level other ++ style.comma) := by
  obtain ⟨blanks, isComma⟩ := oneLine.2
  intro rest rest' same
  rw [List.append_assoc, List.append_assoc, isComma] at same
  have recovers := printEntry_recovers (print_recovers oneLine fit level)
  exact differ (recovers other _ _ fit' (endsValue_cons _ (.inl rfl)) (endsValue_cons _ (.inl rfl))
    same).1

theorem printEntry_append (key : String) (value : Value) (rest : List Char) :
    printEntry style level (key, value) ++ rest =
      printText style.ascii key ++ (style.colon ++ (print style level value ++ rest)) := by
  simp [printEntry]

/-- Induction on the entries before the shared one: either the first ones are the same, or they tell
the texts apart. -/
theorem earlier_leading_iff (oneLine : style.OneLine) {key : String} {before before' : Entries}
    (fits : ∀ entry ∈ before, entry.1 ≠ key ∧ entry.2.Momentless)
    (fits' : ∀ entry ∈ before', entry.1 ≠ key ∧ entry.2.Momentless) (value other : Value)
    (rest rest' : List Char) :
    Earlier (leading style level before ++ (printEntry style level (key, value) ++ rest))
        (leading style level before' ++ (printEntry style level (key, value) ++ rest')) ↔
      Earlier (leading style level before ++ (printEntry style level (key, other) ++ rest))
        (leading style level before' ++ (printEntry style level (key, other) ++ rest')) := by
  induction before generalizing before' with
  | nil =>
      cases before' with
      | nil =>
          simp only [leading_nil, earlier_append_iff]
      | cons entry' before' =>
          rcases entry' with ⟨key', value'⟩
          have differ : key ≠ key' := (fits' _ List.mem_cons_self).1.symm
          simp only [leading_nil, leading_cons, printEntry_append, List.append_assoc]
          exact (apart_printText style.ascii differ).earlier_append_iff _ _ _ _
  | cons entry before ih =>
      rw [List.forall_mem_cons] at fits
      cases before' with
      | nil =>
          rcases entry with ⟨key', value'⟩
          simp only [leading_nil, leading_cons, printEntry_append, List.append_assoc]
          exact (apart_printText style.ascii fits.1.1).earlier_append_iff _ _ _ _
      | cons entry' before' =>
          rw [List.forall_mem_cons] at fits'
          simp only [leading_cons]
          by_cases same : entry = entry'
          · subst same
            rw [earlier_append_iff, earlier_append_iff]
            exact ih fits.2 fits'.2
          · exact (apart_printEntry oneLine fits.1.2 fits'.1.2 same).earlier_append_iff _ _ _ _

theorem enclose_leading (oneLine : style.OneLine) (opening closing : Char) (before : Entries)
    (item : List Char) (items : List (List Char)) :
    style.enclose level opening closing
        (before.map (printEntry style (level + 1)) ++ item :: items) =
      opening :: (leading style (level + 1) before ++ (item ++ joined style.comma closing items)) := by
  cases before with
  | nil => exact enclose_cons oneLine level opening closing item items
  | cons entry before =>
      rw [List.map_cons, List.cons_append, enclose_cons oneLine]
      congr 1
      induction before generalizing entry with
      | nil => simp [leading, joined]
      | cons next before ih =>
          rw [leading_cons, ← ih next, List.map_cons, List.cons_append, joined, List.append_assoc]

end

/-- Which of two tables has the earlier text does not depend on the value of an entry that both
have. -/
theorem text_table_lt_iff {style : Style} (oneLine : style.OneLine) {key : String}
    {before before' : Entries} (fits : ∀ entry ∈ before, entry.1 ≠ key ∧ entry.2.Momentless)
    (fits' : ∀ entry ∈ before', entry.1 ≠ key ∧ entry.2.Momentless) (after after' : Entries)
    (value other : Value) :
    text style (.table (before ++ (key, value) :: after)) <
        text style (.table (before' ++ (key, value) :: after')) ↔
      text style (.table (before ++ (key, other) :: after)) <
        text style (.table (before' ++ (key, other) :: after')) := by
  simp only [ofList_lt_ofList_iff, text, print, printEntries_eq_map, List.map_append,
    List.map_cons, enclose_leading oneLine, earlier_cons_iff, Char.lt_irrefl, false_or, true_and]
  exact earlier_leading_iff oneLine fits fits' value other _ _

end Workflow.Json
