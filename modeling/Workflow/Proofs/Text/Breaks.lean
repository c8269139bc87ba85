import Workflow.Document
import Workflow.Proofs.Json.Reading
import Workflow.Proofs.Number.Characters
import Workflow.Proofs.Toml.Value
import Workflow.Toml.Printer

/-!
Line breaks of printed documents. Printed text has no carriage return, since it stands escaped where
a value holds one, so the unification of line breaks that a reader starts with changes nothing.
-/

namespace Workflow

variable {cs : List Char}

theorem unifyBreaks_eq_self (clean : '\r' ∉ cs) : unifyBreaks cs = cs := by
  induction cs with
  | nil => rfl
  | cons c cs ih =>
      rw [List.mem_cons, not_or] at clean
      rw [unifyBreaks, ih clean.2]
      · exact fun _ same => absurd same.symm clean.1
      · exact fun same => absurd same.symm clean.1

theorem Toml.joinBreaks_eq_self (clean : '\r' ∉ cs) : joinBreaks cs = cs := by
  induction cs with
  | nil => rfl
  | cons c cs ih =>
      rw [List.mem_cons, not_or] at clean
      rw [joinBreaks, ih clean.2]
      exact fun _ same => absurd same.symm clean.1

/-! ## Digits and texts -/

theorem notMem_hexDigits (width n : Nat) : '\r' ∉ hexDigits width n := by
  induction width generalizing n with
  | zero => exact List.not_mem_nil
  | succ width ih =>
      have digit (d : Nat) (small : d < 16) : '\r' ≠ hexDigit d := by
        interval_cases d <;> decide
      rw [hexDigits, List.mem_append, List.mem_singleton, not_or]
      exact ⟨ih (n / 16), digit _ (Nat.mod_lt n (by decide))⟩

theorem notMem_intText (n : Int) : '\r' ∉ intText n :=
  mt (isNumberChar_of_mem_intText '\r') Bool.false_ne_true

theorem notMem_numberText {style : NumberStyle}
    (special : '\r' ∉ style.nanText ++ style.infinityText) (x : Binary64) : '\r' ∉ style.text x := by
  intro member
  rw [List.mem_append] at special
  exact special ((NumberStyle.isNumberChar_or_of_mem_text x member).resolve_left
    Bool.false_ne_true)

theorem notMem_flatten_intersperse {separator : List Char} {parts : List (List Char)}
    (clean : '\r' ∉ separator) (each : ∀ part ∈ parts, '\r' ∉ part) :
    '\r' ∉ (parts.intersperse separator).flatten := by
  cases parts with
  | nil => exact List.not_mem_nil
  | cons first parts =>
      rw [List.forall_mem_cons] at each
      rw [Json.flatten_intersperse, List.mem_append, List.mem_flatMap]
      rintro (start | ⟨part, listed, member⟩)
      · exact each.1 start
      · exact (List.mem_append.mp member).elim clean (each.2 part listed)

/-! ## JSON -/

namespace Json

theorem notMem_escapeChar (ascii : Bool) (c : Char) : '\r' ∉ escapeChar ascii c := by
  rcases escapeChar_cases ascii c with ⟨short, simple, escaped⟩ | escaped | ⟨-, -, visible, escaped⟩
  · rw [escaped]
    have other : '\r' ≠ short := by
      rintro rfl
      cases simple
    simp [other]
  · rw [escaped, codePointEscape]
    split <;> simp [unicodeEscape, notMem_hexDigits]
  · rw [escaped, List.mem_singleton]
    rintro rfl
    exact visible (by decide)

theorem notMem_printText (ascii : Bool) (s : String) : '\r' ∉ printText ascii s := by
  simp [printText, notMem_escapeChar]

variable {style : Style}

theorem notMem_lineBreak (level : Nat) : '\r' ∉ style.lineBreak level := by
  rw [Style.lineBreak]
  split <;> simp

theorem notMem_enclose (comma : '\r' ∉ style.comma) (level : Nat) {opening closing : Char}
    (brackets : '\r' ≠ opening ∧ '\r' ≠ closing) {items : List (List Char)}
    (each : ∀ item ∈ items, '\r' ∉ item) : '\r' ∉ style.enclose level opening closing items := by
  have separator : '\r' ∉ style.comma ++ style.lineBreak (level + 1) := by
    simp [comma, notMem_lineBreak]
  have inside := notMem_flatten_intersperse separator each
  cases items with
  | nil => simp [Style.enclose, brackets]
  | cons item items => simp [Style.enclose, brackets, inside, notMem_lineBreak]

theorem notMem_print (comma : '\r' ∉ style.comma) (colon : '\r' ∉ style.colon) (v : Value)
    (level : Nat) : '\r' ∉ print style level v := by
  induction v using Value.induct generalizing level with
  | null => simp [print]
  | bool b => cases b <;> simp [print]
  | int n => exact notMem_intText n
  | real x => exact notMem_numberText (by decide) x
  | text s => exact notMem_printText _ s
  | moment m => exact notMem_printText _ _
  | list items ih =>
      rw [print, printItems_eq_map]
      refine notMem_enclose comma level (by decide) (List.forall_mem_map.mpr ?_)
      exact fun item listed => ih item listed (level + 1)
  | table entries ih =>
      rw [print, printEntries_eq_map]
      refine notMem_enclose comma level (by decide) (List.forall_mem_map.mpr ?_)
      intro entry listed
      have value := ih entry listed (level + 1)
      simp [printEntry, notMem_printText, colon, value]

end Json

/-! ## TOML -/

namespace Toml

theorem notMem_escapeChar (c : Char) : '\r' ∉ escapeChar c := by
  rcases escapeChar_cases c with ⟨short, simple, escaped⟩ | ⟨-, escaped⟩ | ⟨-, -, visible, escaped⟩
  · rw [escaped]
    have other : '\r' ≠ short := by
      rintro rfl
      cases simple
    simp [other]
  · simp [escaped, notMem_hexDigits]
  · rw [escaped, List.mem_singleton]
    rintro rfl
    cases visible

theorem notMem_printText (cs : List Char) : '\r' ∉ printText cs := by
  simp [printText, notMem_escapeChar]

theorem notMem_printKey (key : String) : '\r' ∉ printKey key := by
  rw [printKey]
  split
  next bare =>
    intro member
    cases List.all_eq_true.mp bare.2 '\r' member
  next => exact notMem_printText _

theorem notMem_entryText {value : Value → List Char} {entry : String × Value}
    (clean : '\r' ∉ value entry.2) : '\r' ∉ entryText value entry := by
  simp [entryText, equation, notMem_printKey, clean]

theorem notMem_encloseItems (level : Nat) {items : List (List Char)}
    (each : ∀ item ∈ items, '\r' ∉ item) : '\r' ∉ encloseItems level items := by
  have indented (n : Nat) : '\r' ∉ indentation n := by simp [indentation]
  rw [encloseItems]
  split
  · simp
  · simpa [indented] using each

theorem notMem_encloseEntries {entries : List (List Char)}
    (each : ∀ entry ∈ entries, '\r' ∉ entry) : '\r' ∉ encloseEntries entries := by
  have separator : '\r' ∉ [',', ' '] := by decide
  have inside := notMem_flatten_intersperse separator each
  rw [encloseEntries]
  split <;> simp [inside]

theorem notMem_printValue {v : Value} (momentless : v.Momentless) (level : Nat) :
    '\r' ∉ printValue level v := by
  induction momentless generalizing level with
  | null => exact List.not_mem_nil
  | bool b => cases b <;> simp [printValue]
  | int n => exact notMem_intText n
  | real x => exact notMem_numberText (by decide) x
  | text s => exact notMem_printText _
  | list inside ih =>
      rw [printValue, printItems_eq_map]
      refine notMem_encloseItems level (List.forall_mem_map.mpr ?_)
      exact fun item listed => ih item listed (level + 1)
  | table inside ih =>
      rw [printValue, printEntries_eq_map]
      refine notMem_encloseEntries (List.forall_mem_map.mpr ?_)
      exact fun entry listed => notMem_entryText (ih entry listed 0)

end Toml

end Workflow
