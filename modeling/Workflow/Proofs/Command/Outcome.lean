import Workflow.Command.Run
import Workflow.Proofs.Text.Markup

/-!
How commands end. A step that shows a text changes neither the ending nor the disk of what comes
after it, if the text can be shown. Main statement: the panel of every fault can be shown.
-/

namespace Workflow

open Markup (IsStyle Quiet Shows Verbatim plain_label shows_escape shows_label shows_of_quiet)

/-! ## Lines -/

namespace Outcome

variable {d : Disk} {marked : String} {rest : Outcome} {panel : Notice}

theorem exists_say_eq (shows : Shows marked) (d : Disk) (rest : Outcome) :
    ∃ shown, rest.say d marked = { rest with notices := .line shown :: rest.notices } := by
  obtain ⟨shown, found⟩ := shows
  exact ⟨shown, by rw [say, found]; rfl⟩

theorem ending_say (shows : Shows marked) : (rest.say d marked).ending = rest.ending := by
  obtain ⟨shown, same⟩ := exists_say_eq shows d rest
  rw [same]

theorem disk_say (shows : Shows marked) : (rest.say d marked).disk = rest.disk := by
  obtain ⟨shown, same⟩ := exists_say_eq shows d rest
  rw [same]

/-- A command that exits with some code has shown its texts. -/
theorem of_ending_say {code : Nat} (exits : (rest.say d marked).ending = .exit code) :
    Shows marked ∧ rest.ending = .exit code := by
  cases found : Markup.plain marked with
  | error fault =>
      rw [say, found] at exits
      cases exits
  | ok shown => exact ⟨⟨shown, found⟩, (ending_say ⟨shown, found⟩).symm.trans exits⟩

theorem ending_fail (d : Disk) (marked : String) : (fail d marked).ending ≠ .exit 0 := by
  intro exits
  cases (of_ending_say exits).2

/-- The command exits with code 1 after a panel, the last that it shows. -/
structure FailsWith (o : Outcome) (panel : Notice) : Prop where
  ending : o.ending = .exit 1
  last : o.notices.getLast? = some panel

theorem FailsWith.say (fails : rest.FailsWith panel) (shows : Shows marked) (d : Disk) :
    (rest.say d marked).FailsWith panel := by
  obtain ⟨shown, same⟩ := exists_say_eq shows d rest
  have last : (Notice.line shown :: rest.notices).getLast? = some panel := by
    rw [List.getLast?_cons, fails.last]
    rfl
  rw [same]
  exact ⟨fails.ending, last⟩

theorem FailsWith.ending_ne {o : Outcome} (fails : o.FailsWith panel) : o.ending ≠ .exit 0 := by
  rw [fails.ending]
  nofun

end Outcome

/-! ## Panels of faults -/

theorem ErrorCode.verbatim_label (code : ErrorCode) : Verbatim code.label.toList := by
  cases code <;> decide

theorem ErrorCode.plain_styled (code : ErrorCode) :
    Markup.plain s!"[red]{code.label}[/red]" = .ok code.label := by
  apply plain_label (by decide : IsStyle "red".toList) code.verbatim_label
  simp [Markup.styled, Markup.bracketed, toString]

/-- Every cell of the panel can be shown: the texts of a fault are escaped. -/
theorem Fault.shows_cell (fault : Fault) : ∀ row ∈ fault.rows, ∀ cell ∈ row, Shows cell := by
  have pair {first second : String} (shows : Shows first) (shows' : Shows second) :
      ∀ cell ∈ [first, second], Shows cell := by simp [shows, shows']
  have label : Shows s!"[red]{fault.code.label}[/red]" := ⟨_, fault.code.plain_styled⟩
  have code := pair (shows_of_quiet (by decide : Quiet "code".toList)) label
  have message := pair (shows_of_quiet (by decide : Quiet "message".toList))
    (shows_escape fault.message)
  unfold rows
  refine List.forall_mem_cons.mpr ⟨code, List.forall_mem_cons.mpr ⟨message, ?_⟩⟩
  intro row listed
  split at listed
  · obtain ⟨violation, -, rfl⟩ := List.mem_map.mp listed
    exact pair (shows_escape _) (shows_escape _)
  · obtain ⟨⟨key, value⟩, -, rfl⟩ := List.mem_map.mp listed
    exact pair (shows_escape _) (shows_escape _)

/-- The panel of a fault. -/
def Fault.panel (fault : Fault) : Except Markup.Fault Notice :=
  Notice.ofMarked "[bold red]Compilation failed[/bold red]" fault.rows none

theorem shows_failed : Shows "[bold red]Compilation failed[/bold red]" :=
  shows_label (by decide : IsStyle "bold red".toList) (by decide : Quiet "Compilation failed".toList)
    (by simp [Markup.styled, Markup.bracketed])

/-- The panel of every fault can be shown. -/
theorem Fault.exists_panel (fault : Fault) : ∃ panel, fault.panel = .ok panel ∧
    ∀ d, (Outcome.failWith d fault).FailsWith panel := by
  obtain ⟨title, titled⟩ := shows_failed
  obtain ⟨rows, shown⟩ : ∃ rows, fault.rows.mapM (·.mapM Markup.plain) = .ok rows :=
    Except.exists_mapM_ok fun row listed => Except.exists_mapM_ok (fault.shows_cell row listed)
  have found : fault.panel = .ok (.panel title rows none) := by
    rw [panel, Notice.ofMarked, titled, shown]
    rfl
  refine ⟨_, found, fun d => ?_⟩
  have failed : Outcome.failWith d fault = (Outcome.exit d 1).showing d fault.panel := rfl
  rw [failed, found]
  exact ⟨rfl, rfl⟩

end Workflow
