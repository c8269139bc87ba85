import Workflow.Proofs.Command.AllOrNothing
import Workflow.Proofs.Command.Panels
import Workflow.Proofs.Lint.Clean

/-!
What `check` says of a project and what `compile` makes of it. Both read the project in the same
way, both look at its graph with the same passes, and once a graph is in order a compilation that
prints its service has nothing left to fail at. Main statement: without strictness `check` exits
with 0 just where `compile` does, both name the same first fault where they do not, and with
strictness `check` also asks that it points nothing out.
-/

namespace Workflow

open Markup (IsStyle Quiet Shows shows_label shows_styled_escape shows_styled_iff quiet_append
  quiet_toString)

variable {d : Disk} {spec : Path} {entries : Entries} {p : Project} {fault : Fault}

/-! ## Reading the project -/

/-- The project at the path is read, after settings and a line of its own. -/
structure Reads (d : Disk) (spec : Path) (entries : Entries) : Prop where
  settings : ∃ settings, Settings.ofDisk d = .ok settings
  line : Shows (loadingLine spec)
  document : Document.load d spec = .ok entries

theorem reads_of_runCheck {strict : Option Bool}
    (exits : (runCheck d (some spec) strict).ending = .exit 0) :
    ∃ entries, Reads d spec entries := by
  rw [runCheck] at exits
  obtain ⟨settings, set, exits⟩ := of_withSettings exits
  dsimp only [withSpecPath, Option.or] at exits
  obtain ⟨entries, loaded, -, line⟩ := of_withDocument exits
  exact ⟨entries, ⟨settings, set⟩, line, loaded⟩

theorem reads_of_runCompile {output : Option Path} {check : Option Bool} {digest : Bool}
    (exits : (runCompile d (some spec) output check digest).ending = .exit 0) :
    ∃ entries, Reads d spec entries := by
  rw [runCompile] at exits
  obtain ⟨settings, set, exits⟩ := of_withSettings exits
  dsimp only [withSpecPath, Option.or] at exits
  split at exits
  next => cases Outcome.ending_fail _ _ exits
  next =>
    obtain ⟨entries, loaded, -, line⟩ := of_withDocument exits
    exact ⟨entries, ⟨settings, set⟩, line, loaded⟩

/-! ## Checks -/

/-- What comes after the project is read. -/
def judging (d : Disk) (p : Project) (strict : Bool) : Outcome :=
  let verdict := p.orchestration.lint
  let ending :=
    if !verdict.faults.isEmpty then Outcome.fail d "[red]✗ Graph is invalid[/red]"
    else if strict && !verdict.findings.isEmpty then
      Outcome.fail d "[red]✗ Warnings present (strict mode)[/red]"
    else (Outcome.exit d 0).say d "[green]✓ Graph is valid[/green]"
  if verdict.faults.isEmpty && verdict.findings.isEmpty then ending
  else ending.showing d (verdict.panel p.name)

theorem runCheck_invalid (reads : Reads d spec entries) {violations : List Violation}
    (refused : Project.read (.table entries) = .error violations) (strict : Bool) :
    runCheck d (some spec) (some strict) =
      (Outcome.failWith d (.invalid violations)).say d (loadingLine spec) := by
  obtain ⟨⟨settings, set⟩, -, loaded⟩ := reads
  simp only [runCheck, withSettings, set, withSpecPath, Option.or, withDocument, loaded, refused]
  rfl

theorem runCheck_read (reads : Reads d spec entries)
    (read : Project.read (.table entries) = .ok p) (strict : Bool) :
    runCheck d (some spec) (some strict) = (judging d p strict).say d (loadingLine spec) := by
  obtain ⟨⟨settings, set⟩, -, loaded⟩ := reads
  simp only [runCheck, withSettings, set, withSpecPath, Option.or, withDocument, loaded, read]
  rfl

/-- A notice of the command has a row of a warning. -/
def Outcome.Warned (o : Outcome) : Prop :=
  ∃ notice ∈ o.notices, ∃ row ∈ notice.rows, row.head? = some "warning"

/-- The first row of an error in one of the command's notices. -/
def Outcome.FirstError (o : Outcome) (row : List String) : Prop :=
  ∃ notice ∈ o.notices, notice.rows.find? (·.head? = some "error") = some row

namespace Outcome

variable {marked : String} {rest : Outcome}

theorem warned_say_iff (shows : Shows marked) : (rest.say d marked).Warned ↔ rest.Warned := by
  obtain ⟨shown, same⟩ := exists_say_eq shows d rest
  rw [same]
  simp [Warned, Notice.rows]

theorem FirstError.say {row : List String} (first : rest.FirstError row) (shows : Shows marked)
    (d : Disk) : (rest.say d marked).FirstError row := by
  obtain ⟨notice, member, found⟩ := first
  obtain ⟨shown, same⟩ := exists_say_eq shows d rest
  rw [same]
  exact ⟨notice, List.mem_cons_of_mem _ member, found⟩

end Outcome

theorem shows_invalid : Shows "[red]✗ Graph is invalid[/red]" :=
  shows_label (by decide : IsStyle "red".toList) (by decide : Quiet "✗ Graph is invalid".toList)
    (by simp [Markup.styled, Markup.bracketed])

theorem shows_valid : Shows "[green]✓ Graph is valid[/green]" :=
  shows_label (by decide : IsStyle "green".toList) (by decide : Quiet "✓ Graph is valid".toList)
    (by simp [Markup.styled, Markup.bracketed])

theorem judging_of_faults (faults : p.orchestration.lint.faults ≠ []) (d : Disk) (strict : Bool) :
    judging d p strict = (Outcome.fail d "[red]✗ Graph is invalid[/red]").showing d
      (p.orchestration.lint.panel p.name) := by
  simp [judging, faults]

theorem judging_of_clear (clear : p.orchestration.lint.faults = [])
    (unremarked : p.orchestration.lint.findings = []) (d : Disk) (strict : Bool) :
    judging d p strict = (Outcome.exit d 0).say d "[green]✓ Graph is valid[/green]" := by
  simp [judging, clear, unremarked]

theorem judging_of_findings (clear : p.orchestration.lint.faults = [])
    (findings : p.orchestration.lint.findings ≠ []) (d : Disk) (strict : Bool) :
    judging d p strict =
      (if strict then Outcome.fail d "[red]✗ Warnings present (strict mode)[/red]"
      else (Outcome.exit d 0).say d "[green]✓ Graph is valid[/green]").showing d
        (p.orchestration.lint.panel p.name) := by
  simp [judging, clear, findings]

/-- The table of a graph with faults has the first of them in its first row. -/
theorem judging_faulty {rest : List Fault} (faults : p.orchestration.lint.faults = fault :: rest)
    (d : Disk) (strict : Bool) : (judging d p strict).ending = .exit 1 ∧
      (judging d p strict).FirstError (Verdict.faultRow fault) := by
  obtain ⟨title, footer, shown⟩ := p.orchestration.lint.exists_panel_eq p.name
  obtain ⟨line, said⟩ := Outcome.exists_say_eq shows_invalid d (.exit d 1)
  rw [judging_of_faults (faults ▸ List.cons_ne_nil fault rest), shown, Outcome.fail, said]
  refine ⟨rfl, _, List.mem_cons_self, ?_⟩
  simp [Notice.rows, faults, Verdict.faultRow]

/-- A graph without faults is invalid only if warnings count and there are some. -/
theorem ending_judging (clear : p.orchestration.lint.faults = []) (d : Disk) (strict : Bool) :
    (judging d p strict).ending = .exit 0 ↔
      (strict = true → p.orchestration.lint.findings = []) := by
  obtain ⟨title, footer, shown⟩ := p.orchestration.lint.exists_panel_eq p.name
  have valid : ((Outcome.exit d 0).say d "[green]✓ Graph is valid[/green]").ending = .exit 0 :=
    Outcome.ending_say shows_valid
  by_cases unremarked : p.orchestration.lint.findings = []
  · rw [judging_of_clear clear unremarked]
    exact iff_of_true valid fun _ => unremarked
  · rw [judging_of_findings clear unremarked, shown]
    cases strict with
    | false => exact iff_of_true valid nofun
    | true => exact iff_of_false (Outcome.ending_fail _ _) fun absent => unremarked (absent rfl)

theorem warned_judging (clear : p.orchestration.lint.faults = []) (d : Disk) :
    (judging d p false).Warned ↔ p.orchestration.lint.findings ≠ [] := by
  obtain ⟨title, footer, shown⟩ := p.orchestration.lint.exists_panel_eq p.name
  obtain ⟨line, said⟩ := Outcome.exists_say_eq shows_valid d (.exit d 0)
  cases findings : p.orchestration.lint.findings with
  | nil =>
      rw [judging_of_clear clear findings, said]
      simp [Outcome.Warned, Outcome.exit, Notice.rows]
  | cons finding rest =>
      rw [judging_of_findings clear (findings ▸ List.cons_ne_nil finding rest), shown,
        if_neg Bool.false_ne_true, said]
      simp [Outcome.Warned, Outcome.showing, Notice.rows, clear, findings, Verdict.findingRow]

/-! ## Compilations -/

theorem runCompile_refused (reads : Reads d spec entries)
    (unset : ∀ settings, Settings.ofDisk d = .ok settings → settings.output = none)
    (refused : Compilation.ofDocument (.table entries) = .refused fault) :
    runCompile d (some spec) none (some false) false =
      (Outcome.failWith d fault).say d (loadingLine spec) := by
  obtain ⟨⟨settings, set⟩, -, loaded⟩ := reads
  simp only [runCompile, withSettings, set, withSpecPath, Option.or, unset settings set,
    Option.filter_none, withDocument, loaded, refused]
  rfl

/-- A name in bold, and a number behind it. -/
theorem shows_counted (name : String) (count : Nat) :
    Shows (" [bold]" ++ Markup.escape name ++ "[/bold] (" ++ toString count ++ " agents)") := by
  have quiet : Quiet (" (".toList ++ ((toString count).toList ++ " agents)".toList)) :=
    quiet_append (by decide) (quiet_append (quiet_toString count) (by decide))
  refine shows_styled_escape name (by decide : IsStyle "bold".toList)
    (by decide : Quiet " ".toList) (by decide : Quiet []) quiet ?_
  simp [Markup.bracketed]

theorem shows_summary (s : Service) : Shows (summaryLine s) := by
  have same (text : String) : toString text = text := rfl
  have parts : (summaryLine s).toList = Markup.styled "cyan".toList "Compiled:".toList
      (" [bold]" ++ Markup.escape s.name ++ "[/bold] (" ++ toString s.agents.length ++
        " agents)").toList := by
    unfold summaryLine
    generalize s.agents.length = count
    generalize Markup.escape s.name = name
    simp [same, Markup.styled, Markup.bracketed]
  exact (shows_styled_iff (by decide : IsStyle "cyan".toList)
    (by decide : Quiet "Compiled:".toList) parts).mpr (shows_counted s.name s.agents.length)

/-- Printing a service that has a canonical text cannot fail. -/
theorem ending_runCompile_done {s : Service} (reads : Reads d spec entries)
    (unset : ∀ settings, Settings.ofDisk d = .ok settings → settings.output = none)
    (made : Compilation.ofDocument (.table entries) = .done s) (written : s.writeFault? = none) :
    (runCompile d (some spec) none (some false) false).ending = .exit 0 := by
  obtain ⟨⟨settings, set⟩, line, loaded⟩ := reads
  have runs : runCompile d (some spec) none (some false) false =
      ((finishCompile d s none).say d (summaryLine s)).say d (loadingLine spec) := by
    simp only [runCompile, withSettings, set, withSpecPath, Option.or, unset settings set,
      Option.filter_none, withDocument, loaded, made]
    rfl
  obtain ⟨shown, finished⟩ := exists_finishCompile_eq d written
  rw [runs, Outcome.ending_say line, Outcome.ending_say (shows_summary s), finished]

/-! ## Agreement -/

/-- Both commands show the panel of the same violations, or the panel of the second one has the code
and the message of the first error in a table of the first one. -/
def Outcome.SameFault (checked compiled : Outcome) : Prop :=
  (∃ violations panel, (Fault.invalid violations).panel = .ok panel ∧
    checked.FailsWith panel ∧ compiled.FailsWith panel) ∨
  ∃ code message title explained, checked.FirstError ["error", code, message] ∧
    compiled.FailsWith
      (.panel title (["code", code] :: ["message", message] :: explained) none)

/-- What the outcomes of a check without strictness, of a compilation and of a strict check have to
do with each other. -/
structure Agree (checked compiled strict : Outcome) : Prop where
  exits : checked.ending = .exit 0 ↔ compiled.ending = .exit 0
  fault : checked.ending ≠ .exit 0 → checked.SameFault compiled
  strictly : strict.ending = .exit 0 ↔ checked.ending = .exit 0 ∧ ¬ checked.Warned

theorem agree_invalid (reads : Reads d spec entries)
    (unset : ∀ settings, Settings.ofDisk d = .ok settings → settings.output = none)
    {violations : List Violation} (refused : Project.read (.table entries) = .error violations) :
    Agree (runCheck d (some spec) (some false)) (runCompile d (some spec) none (some false) false)
      (runCheck d (some spec) (some true)) := by
  obtain ⟨panel, shown, fails⟩ := (Fault.invalid violations).exists_panel
  have checked (strict : Bool) : (runCheck d (some spec) (some strict)).FailsWith panel := by
    rw [runCheck_invalid reads refused]
    exact (fails d).say reads.line d
  have compiled : (runCompile d (some spec) none (some false) false).FailsWith panel := by
    have ended : Compilation.ofDocument (.table entries) = .refused (.invalid violations) := by
      rw [Compilation.ofDocument, refused]
    rw [runCompile_refused reads unset ended]
    exact (fails d).say reads.line d
  exact
    { exits := iff_of_false (checked false).ending_ne compiled.ending_ne
      fault := fun _ => .inl ⟨violations, panel, shown, checked false, compiled⟩
      strictly := iff_of_false (checked true).ending_ne
        fun both => (checked false).ending_ne both.1 }

theorem agree_faulty (reads : Reads d spec entries)
    (unset : ∀ settings, Settings.ofDisk d = .ok settings → settings.output = none)
    (read : Project.read (.table entries) = .ok p) {rest : List Fault}
    (faults : p.orchestration.lint.faults = fault :: rest) :
    Agree (runCheck d (some spec) (some false)) (runCompile d (some spec) none (some false) false)
      (runCheck d (some spec) (some true)) := by
  have ending (strict : Bool) : (runCheck d (some spec) (some strict)).ending ≠ .exit 0 := by
    rw [runCheck_read reads read, Outcome.ending_say reads.line, (judging_faulty faults d strict).1]
    nofun
  have checked : (runCheck d (some spec) (some false)).FirstError
      ["error", fault.code.label, shownText fault.message] := by
    rw [runCheck_read reads read]
    exact (judging_faulty faults d false).2.say reads.line d
  obtain ⟨title, explained, shown⟩ := fault.exists_panel_eq
  obtain ⟨panel, shown', fails⟩ := fault.exists_panel
  obtain rfl := Except.ok.inj (shown'.symm.trans shown)
  have refused : Compilation.ofDocument (.table entries) = .refused fault := by
    rw [Compilation.ofDocument_of_read read, Project.compilation_eq_refused_iff, faults,
      List.head?_cons]
  have failed := runCompile_refused reads unset refused ▸ (fails d).say reads.line d
  exact
    { exits := iff_of_false (ending false) failed.ending_ne
      fault := fun _ => .inr ⟨_, _, title, explained, checked, failed⟩
      strictly := iff_of_false (ending true) fun both => ending false both.1 }

theorem agree_sound (reads : Reads d spec entries)
    (unset : ∀ settings, Settings.ofDisk d = .ok settings → settings.output = none)
    (read : Project.read (.table entries) = .ok p) (printable : p.Printable)
    (clear : p.orchestration.lint.faults = []) :
    Agree (runCheck d (some spec) (some false)) (runCompile d (some spec) none (some false) false)
      (runCheck d (some spec) (some true)) := by
  have checked : (runCheck d (some spec) (some false)).ending = .exit 0 := by
    rw [runCheck_read reads read, Outcome.ending_say reads.line, ending_judging clear]
    nofun
  have warned : (runCheck d (some spec) (some false)).Warned ↔
      p.orchestration.lint.findings ≠ [] := by
    rw [runCheck_read reads read, Outcome.warned_say_iff reads.line, warned_judging clear]
  have strict : (runCheck d (some spec) (some true)).ending = .exit 0 ↔
      p.orchestration.lint.findings = [] := by
    rw [runCheck_read reads read, Outcome.ending_say reads.line, ending_judging clear]
    simp
  have made : Compilation.ofDocument (.table entries) = .done p.build := by
    rw [Compilation.ofDocument_of_read read]
    exact Project.compilation_of_sound (Orchestration.lint_faults_eq_nil_iff.mp clear) printable.1
  exact
    { exits := iff_of_true checked (ending_runCompile_done reads unset made printable.build)
      fault := fun failed => absurd checked failed
      strictly := by rw [strict, warned, not_not, and_iff_right checked] }

namespace Request

end Request

end Workflow
