import Workflow.Proofs.Command.Outcome
import Workflow.Proofs.Text.Styled

/-!
What the panels of faults and of verdicts show. Names and messages are escaped, so every panel can
be shown. Main statements: the panel of a fault starts with its code and its message, and the panel
of a verdict has a row for each fault, in order, and then one for each finding.
-/

namespace Workflow

open Markup (IsStyle Quiet Shows Verbatim plain_label plain_verbatim shows_escape shows_label
  shows_styled_escape quiet_append quiet_toString)

/-! ## Shown texts -/

/-- What is shown of an escaped text. -/
def shownText (text : String) : String := (Markup.plain (Markup.escape text)).toOption.getD ""

theorem plain_escape (text : String) :
    Markup.plain (Markup.escape text) = .ok (shownText text) := by
  obtain ⟨shown, found⟩ := shows_escape text
  rw [shownText, found]
  rfl

theorem WarningCode.verbatim_label (code : WarningCode) : Verbatim code.label.toList := by
  cases code <;> decide

/-- The rows of a panel. -/
def Notice.rows : Notice → List (List String)
  | .line _ => []
  | .panel _ rows _ => rows

/-! ## Faults -/

/-- The panel of a fault starts with its code and its message. -/
theorem Fault.exists_panel_eq (fault : Fault) : ∃ title explained, fault.panel = .ok
    (.panel title (["code", fault.code.label] :: ["message", shownText fault.message] :: explained)
      none) := by
  obtain ⟨title, titled⟩ := shows_failed
  obtain ⟨explained, split⟩ : ∃ explained, fault.rows =
      ["code", s!"[red]{fault.code.label}[/red]"] ::
        ["message", Markup.escape fault.message] :: explained := ⟨_, rfl⟩
  have later : ∀ row ∈ explained, ∀ cell ∈ row, Shows cell := by
    intro row listed
    apply fault.shows_cell
    rw [split]
    exact List.mem_cons_of_mem _ (List.mem_cons_of_mem _ listed)
  obtain ⟨shown, others⟩ : ∃ shown, explained.mapM (·.mapM Markup.plain) = .ok shown :=
    Except.exists_mapM_ok fun row listed => Except.exists_mapM_ok (later row listed)
  have code : ["code", s!"[red]{fault.code.label}[/red]"].mapM Markup.plain =
      .ok ["code", fault.code.label] :=
    Except.mapM_eq_ok (.cons (plain_verbatim (by decide)) (.cons fault.code.plain_styled .nil))
  have message : ["message", Markup.escape fault.message].mapM Markup.plain =
      .ok ["message", shownText fault.message] :=
    Except.mapM_eq_ok (.cons (plain_verbatim (by decide)) (.cons (plain_escape _) .nil))
  refine ⟨title, shown, ?_⟩
  rw [panel, Notice.ofMarked, titled, split, List.mapM_cons, code, Except.ok_andThen,
    Except.ok_andThen, List.mapM_cons, message, Except.ok_andThen, others]
  rfl

/-! ## Verdicts -/

namespace Verdict

def faultRow (f : Fault) : List String := ["error", f.code.label, shownText f.message]

def findingRow (f : Finding) : List String := ["warning", f.code.label, shownText f.message]

theorem shows_title (project : String) :
    Shows s!"[bold]Project: {Markup.escape project}[/bold]" := by
  refine shows_styled_escape project (by decide : IsStyle "bold".toList)
    (by decide : Quiet []) (by decide : Quiet "Project: ".toList) (by decide : Quiet []) ?_
  simp [Markup.bracketed, toString]

theorem shows_footer (faults findings : Nat) :
    Shows (s!"[dim]{faults} errors, " ++ s!"{findings} warnings[/dim]") := by
  have quiet : Quiet ((toString faults).toList ++ " errors, ".toList ++
      ((toString findings).toList ++ " warnings".toList)) := by
    have errors : Quiet " errors, ".toList := by decide
    have warnings : Quiet " warnings".toList := by decide
    exact quiet_append (quiet_append (quiet_toString faults) errors)
      (quiet_append (quiet_toString findings) warnings)
  have same (text : String) : toString text = text := rfl
  apply shows_label (by decide : IsStyle "dim".toList) quiet
  simp [Markup.styled, Markup.bracketed, same]

/-- Rows with a severity, a code that shows as it is, and an escaped message. -/
theorem rows_shown {α : Type} {severity shown : String} {code : α → String}
    (marked : Markup.plain severity = .ok shown)
    (labels : ∀ item, Markup.plain (code item) = .ok (code item)) (message : α → String)
    (items : List α) : List.Forall₂ (fun row shown => List.mapM Markup.plain row = .ok shown)
      (items.map fun item => [severity, code item, Markup.escape (message item)])
      (items.map fun item => [shown, code item, shownText (message item)]) := by
  rw [List.forall₂_map_left_iff, List.forall₂_map_right_iff, List.forall₂_same]
  intro item _
  exact Except.mapM_eq_ok (.cons marked (.cons (labels item) (.cons (plain_escape _) .nil)))

theorem exists_panel_eq (verdict : Verdict) (project : String) : ∃ title footer,
    verdict.panel project = .ok (.panel title (["Severity", "Code", "Message"] ::
      verdict.faults.map faultRow ++ verdict.findings.map findingRow) (some footer)) := by
  obtain ⟨title, titled⟩ := shows_title project
  obtain ⟨footer, footed⟩ := shows_footer verdict.faults.length verdict.findings.length
  have header : ["Severity", "Code", "Message"].mapM Markup.plain =
      .ok ["Severity", "Code", "Message"] :=
    Except.mapM_eq_ok (.cons (plain_verbatim (by decide))
      (.cons (plain_verbatim (by decide)) (.cons (plain_verbatim (by decide)) .nil)))
  have error : Markup.plain "[red]error[/red]" = .ok "error" :=
    plain_label (by decide : IsStyle "red".toList) (by decide)
      (by simp [Markup.styled, Markup.bracketed])
  have warning : Markup.plain "[yellow]warning[/yellow]" = .ok "warning" :=
    plain_label (by decide : IsStyle "yellow".toList) (by decide)
      (by simp [Markup.styled, Markup.bracketed])
  have errors := rows_shown error (fun f : Fault => plain_verbatim f.code.verbatim_label)
    Fault.message verdict.faults
  have warnings := rows_shown warning
    (fun f : Finding => plain_verbatim f.code.verbatim_label) Finding.message verdict.findings
  have all : List.Forall₂ (fun row shown => List.mapM Markup.plain row = .ok shown)
      (["Severity", "Code", "Message"] ::
        verdict.faults.map (fun f => ["[red]error[/red]", f.code.label, Markup.escape f.message]) ++
        verdict.findings.map fun f =>
          ["[yellow]warning[/yellow]", f.code.label, Markup.escape f.message])
      (["Severity", "Code", "Message"] ::
        verdict.faults.map faultRow ++ verdict.findings.map findingRow) := by
    refine List.rel_append ?_ warnings
    exact .cons header errors
  refine ⟨title, footer, ?_⟩
  rw [panel, Notice.ofMarked, titled, Except.ok_andThen,
    Except.mapM_eq_ok all, Except.ok_andThen,
    Option.mapM_some, footed]
  rfl

end Verdict

end Workflow
