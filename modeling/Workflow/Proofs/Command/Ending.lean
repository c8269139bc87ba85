import Workflow.Proofs.Command.Agreement

/-!
How commands end, whatever is on the disk. All that reading, checking and writing can come upon ends
a command with code 1 and a line or a panel; what is left are paths that are shown as marked text,
though they are not escaped, and projects and services that cannot be written out. Main statement:
a command that finds nothing of this kind in its way exits with 0 or 1 and shows a notice, and any
other one crashes.
-/

namespace Workflow

open Markup (Bracketless IsStyle Quiet Shows bracketed escape quiet_append quiet_toString
  shows_escape_within shows_label shows_of_quiet shows_styled_iff styled)

/-- The path can be shown after a label, where it counts as marked text. -/
def Path.Shown (path : Path) : Prop := Shows (" " ++ path.text)

theorem Path.shown_of_quiet {path : Path} (quiet : Quiet path.text.toList) : path.Shown := by
  apply shows_of_quiet
  rw [String.toList_append]
  exact quiet_append (by decide) quiet

/-- The document at the path is not nested too deeply to be read. -/
def Disk.Shallow (d : Disk) (path : Path) : Prop :=
  ∀ fault, Document.load d path = .error fault → fault.isTooDeep = false

/-! ## Lines of failures -/

/-- An escaped text can be shown after a red label. -/
theorem shows_reason {marked : String} (label text : String) {rest : List Char}
    (quiet : Quiet label.toList) (free : Bracketless rest)
    (split : marked.toList = styled "red".toList label.toList
      (' ' :: ((escape text).toList ++ rest))) : Shows marked := by
  have parts := String.toList_ofList (l := ' ' :: ((escape text).toList ++ rest))
  have reason := shows_escape_within text (by decide : Quiet [' ']) free parts
  refine (shows_styled_iff (by decide : IsStyle "red".toList) quiet ?_).mpr reason
  rw [parts]
  exact split

theorem shows_unread_spec (text : String) :
    Shows s!"[red]✗ Could not read spec:[/red] {escape text}" := by
  refine shows_reason "✗ Could not read spec:" text (by decide) (by decide : Bracketless []) ?_
  simp [styled, bracketed, toString]

theorem shows_unread_service (text : String) :
    Shows s!"[red]✗ Could not read IR:[/red] {escape text}" := by
  refine shows_reason "✗ Could not read IR:" text (by decide) (by decide : Bracketless []) ?_
  simp [styled, bracketed, toString]

theorem shows_unwritten (text : String) :
    Shows s!"[red]✗ Could not write IR:[/red] {escape text}" := by
  refine shows_reason "✗ Could not write IR:" text (by decide) (by decide : Bracketless []) ?_
  simp [styled, bracketed, toString]

theorem shows_unsupported (text : String) : Shows
    s!"[red]✗ Unsupported output file type:[/red] {escape text} (expected .json or .toml)" := by
  refine shows_reason "✗ Unsupported output file type:" text (by decide)
    (by decide : Bracketless " (expected .json or .toml)".toList) ?_
  simp [styled, bracketed, toString]

namespace Outcome

variable {d : Disk} {o rest : Outcome} {hindered : Prop} {marked : String}

/-- The command crashes if something is in its way, and else it exits with 0 or 1. -/
structure Ends (o : Outcome) (hindered : Prop) : Prop where
  crashes : hindered → ∃ crash, o.ending = .crash crash
  exits : ¬ hindered → o.ending = .exit 0 ∨ o.ending = .exit 1

namespace Ends

theorem congr {hindered' : Prop} (ends : o.Ends hindered) (same : hindered' ↔ hindered) :
    o.Ends hindered' := by
  rwa [propext same]

theorem exit (d : Disk) {code : Nat} (known : code = 0 ∨ code = 1) :
    (Outcome.exit d code).Ends False where
  crashes := False.elim
  exits := fun _ => known.imp (congrArg Ending.exit) (congrArg Ending.exit)

theorem crashed (d : Disk) (crash : Crash) : (Outcome.crashed d crash).Ends True where
  crashes := fun _ => ⟨crash, rfl⟩
  exits := fun free => absurd trivial free

/-! ## Notices -/

theorem say (shows : Shows marked) (ends : rest.Ends hindered) (d : Disk) :
    (rest.say d marked).Ends hindered := by
  have same : (rest.say d marked).ending = rest.ending := ending_say shows
  exact ⟨fun hinders => same ▸ ends.crashes hinders, fun free => same ▸ ends.exits free⟩

/-- A path is shown after a label in cyan, as marked text. -/
theorem sayPath {label : String} (quiet : Quiet label.toList) (path : Path)
    (ends : rest.Ends hindered) (d : Disk) :
    (rest.say d s!"[cyan]{label}[/cyan] {path.text}").Ends (¬ path.Shown ∨ hindered) := by
  have shows_iff : Shows s!"[cyan]{label}[/cyan] {path.text}" ↔ path.Shown :=
    shows_path_iff quiet path
  by_cases shown : path.Shown
  · apply (ends.say (shows_iff.mpr shown) d).congr
    exact or_iff_right (not_not.mpr shown)
  · apply Ends.congr _ (iff_true_intro (.inl shown))
    cases found : Markup.plain s!"[cyan]{label}[/cyan] {path.text}" with
    | ok text => exact absurd (shows_iff.mp ⟨text, found⟩) shown
    | error fault =>
        rw [Outcome.say, found]
        exact crashed d _

theorem fail (shows : Shows marked) (d : Disk) : (Outcome.fail d marked).Ends False :=
  (exit d (.inr rfl)).say shows d

theorem failWith (d : Disk) (fault : Fault) : (Outcome.failWith d fault).Ends False := by
  obtain ⟨panel, -, fails⟩ := fault.exists_panel
  exact ⟨False.elim, fun _ => .inr (fails d).ending⟩

/-! ## Steps -/

theorem specPath {given : Option Path} {settings : Settings} {next : Path → Outcome}
    {hindered : Path → Prop}
    (each : ∀ path, given.or settings.spec = some path → (next path).Ends (hindered path)) :
    (withSpecPath d given settings next).Ends
      (∃ path, given.or settings.spec = some path ∧ hindered path) := by
  have unset : Shows ("[red]No spec file given and no " ++ escape "[tool.agentfactory]" ++
      ".spec configured[/red]") := Except.exists_ok_iff.mpr (by decide +kernel)
  rw [withSpecPath]
  split
  next path named => exact (each path named).congr (by simp [named])
  next none => exact (fail unset d).congr (by simp [none])

theorem document {path : Path} {next : Value → Outcome} {hindered : Entries → Prop}
    (shallow : d.Shallow path)
    (each : ∀ entries, Document.load d path = .ok entries →
      (next (.table entries)).Ends (hindered entries)) :
    (withDocument d path next).Ends
      (¬ path.Shown ∨ ∃ entries, Document.load d path = .ok entries ∧ hindered entries) := by
  refine sayPath (by decide : Quiet "Loading spec from:".toList) path ?_ d
  split
  next entries loaded => exact (each entries loaded).congr (by simp [loaded])
  next fault unread =>
    rw [if_neg (by simp [shallow fault unread])]
    exact (fail (shows_unread_spec _) d).congr (by simp [unread])

/-- After the document is read, nothing is in the way. -/
theorem lastDocument {path : Path} {next : Value → Outcome} (shallow : d.Shallow path)
    (each : ∀ entries, Document.load d path = .ok entries → (next (.table entries)).Ends False) :
    (withDocument d path next).Ends (¬ path.Shown) :=
  (document shallow each).congr (by simp)

theorem consistent (s : Service) (ends : o.Ends hindered) :
    (whenConsistent d s o).Ends (s.fault? = none ∧ hindered) := by
  cases found : s.fault? with
  | none =>
      have same := ending_whenConsistent found d o
      rw [and_iff_right rfl]
      exact ⟨fun hinders => same ▸ ends.crashes hinders, fun free => same ▸ ends.exits free⟩
  | some fault =>
      rw [whenConsistent_eq_failWith found]
      exact (failWith d fault).congr (by simp)

theorem writable (s : Service) (ends : o.Ends hindered) :
    (whenWritable d s o).Ends (s.canonical? = none ∨ hindered) := by
  rw [whenWritable, Service.canonical?_eq_none_iff_writeFault?]
  cases written : s.writeFault? with
  | some fault => exact (crashed d _).congr (by simp)
  | none => exact ends.congr (by simp)

theorem finish (d : Disk) (s : Service) (output : Option Path) :
    (finishCompile d s output).Ends ((output = none ∧ s.canonical? = none) ∨
      ∃ path, output = some path ∧ ¬ path.Shown) := by
  cases output with
  | none =>
      have printed : (((Outcome.exit d 0).say d "[green]✓ Compilation complete[/green]").print
          s.canonical).Ends False := by
        have ends := (exit d (.inl rfl)).say shows_complete d
        exact ⟨ends.crashes, ends.exits⟩
      exact (writable s printed).congr (by simp)
  | some path =>
      have ends : (finishCompile d s (some path)).Ends (¬ path.Shown ∨ False) := by
        refine sayPath (by decide : Quiet "Writing IR to:".toList) path ?_ d
        split
        next d' _ => exact (exit d' (.inl rfl)).say shows_complete d'
        next d' fault _ => exact fail (shows_unwritten _) d'
      exact ends.congr (by simp)

end Ends

/-- A line that is shown stays. -/
theorem notices_say {code : Nat} (exits : (rest.say d marked).ending = .exit code) :
    (rest.say d marked).notices ≠ [] := by
  obtain ⟨shown, same⟩ := exists_say_eq (of_ending_say exits).1 d rest
  rw [same]
  exact List.cons_ne_nil _ _

end Outcome

/-! ## Commands -/

/-- What keeps a command from ending: a path that is shown as marked text has a closing tag that
closes nothing, the parts of a service cannot be put in order, or a service that is printed or has
its digest shown has no canonical text. A command comes upon it only if nothing has ended the
command before. -/
def Request.Hindered (d : Disk) (settings : Settings) : Request → Prop
  | .verify path => ¬ path.Shown
  | .check spec _ => ∃ path, spec.or settings.spec = some path ∧ ¬ path.Shown
  | .compile spec output checkService digest => ∃ path, spec.or settings.spec = some path ∧
      (∀ path, output.or settings.output = some path → path.format?.isSome = true) ∧
      (¬ path.Shown ∨ ∃ entries, Document.load d path = .ok entries ∧
        ((∃ fault, Compilation.ofDocument (.table entries) = .unwritable fault) ∨
          ∃ s, Compilation.ofDocument (.table entries) = .done s ∧
            (checkService.getD settings.checkService = true → s.fault? = none) ∧
            ((digest = true ∨ output.or settings.output = none) ∧ s.canonical? = none ∨
              ∃ path, output.or settings.output = some path ∧ ¬ path.Shown)))
  | .schema .. => False

/-- The path of the document that a request is about. -/
def Request.document? (settings : Settings) : Request → Option Path
  | .verify path => some path
  | .check spec _ => spec.or settings.spec
  | .compile spec .. => spec.or settings.spec
  | .schema .. => none

section

variable {d : Disk} {settings : Settings} {checkService strict : Option Bool} {digest : Bool}
  {spec output : Option Path} {s : Service}

theorem shows_violations (count : Nat) :
    Shows s!"[red]✗ Not a valid compiled service ({count} problems)[/red]" := by
  have quiet : Quiet ("✗ Not a valid compiled service (".toList ++
      ((toString count).toList ++ " problems)".toList)) := by
    have first : Quiet "✗ Not a valid compiled service (".toList := by decide
    have last : Quiet " problems)".toList := by decide
    exact quiet_append first (quiet_append (quiet_toString count) last)
  apply shows_label (by decide : IsStyle "red".toList) quiet
  simp [styled, bracketed, toString]

theorem runVerify_ends {path : Path} (shallow : d.Shallow path) :
    (runVerify d path).Ends (¬ path.Shown) := by
  have ends : (runVerify d path).Ends (¬ path.Shown ∨ False) := by
    refine .sayPath (by decide : Quiet "Loading IR from:".toList) path ?_ d
    rw [Service.load]
    cases loaded : Document.load d path with
    | error fault =>
        dsimp only
        rw [if_neg (by simp [shallow fault loaded])]
        exact .fail (shows_unread_service _) d
    | ok entries =>
        dsimp only
        cases Service.read (.table entries) with
        | error violations => exact .fail (shows_violations violations.length) d
        | ok s =>
            have ends : (whenConsistent d s (.exit d 0)).Ends (s.fault? = none ∧ False) :=
              .consistent s (.exit d (.inl rfl))
            exact ends.congr (and_false _).symm.to_iff
  exact ends.congr (or_false _).symm.to_iff

/-- A verdict is shown in a panel if there is something to show, and then in a line. -/
theorem judging_ends (d : Disk) (p : Project) (strict : Bool) :
    (judging d p strict).Ends False := by
  have remarked : Shows "[red]✗ Warnings present (strict mode)[/red]" :=
    shows_label (by decide : IsStyle "red".toList)
      (by decide : Quiet "✗ Warnings present (strict mode)".toList)
      (by simp [styled, bracketed])
  have ends : (if !p.orchestration.lint.faults.isEmpty then
        Outcome.fail d "[red]✗ Graph is invalid[/red]"
      else if strict && !p.orchestration.lint.findings.isEmpty then
        Outcome.fail d "[red]✗ Warnings present (strict mode)[/red]"
      else (Outcome.exit d 0).say d "[green]✓ Graph is valid[/green]").Ends False := by
    split
    next => exact .fail shows_invalid d
    next =>
      split
      next => exact .fail remarked d
      next => exact (Outcome.Ends.exit d (.inl rfl)).say shows_valid d
  obtain ⟨title, footer, shown⟩ := p.orchestration.lint.exists_panel_eq p.name
  rw [judging]
  split
  next => exact ends
  next =>
    rw [shown]
    exact ⟨ends.crashes, ends.exits⟩

theorem runCheck_ends (set : Settings.ofDisk d = .ok settings)
    (shallow : ∀ path, spec.or settings.spec = some path → d.Shallow path) :
    (runCheck d spec strict).Ends (Request.Hindered d settings (.check spec strict)) := by
  rw [runCheck, withSettings, set]
  refine Outcome.Ends.specPath fun path named => ?_
  refine Outcome.Ends.lastDocument (shallow path named) fun entries _ => ?_
  split
  next violations _ => exact .failWith d _
  next p _ => exact judging_ends d p _

theorem quiet_hexDigits (width n : Nat) : Quiet (hexDigits width n) := by
  have digit (d : Nat) (small : d < 16) : hexDigit d ≠ '[' ∧ hexDigit d ≠ '\\' := by
    interval_cases d <;> decide
  induction width generalizing n with
  | zero => nofun
  | succ width ih =>
      have last : Quiet [hexDigit (n % 16)] := by
        simpa [Quiet] using digit (n % 16) (Nat.mod_lt n (by decide))
      exact quiet_append (ih (n / 16)) last

theorem quiet_digest (message : List UInt8) : Quiet (Sha256.digest message) := by
  intro c member
  obtain ⟨word, -, digit⟩ := List.mem_flatMap.mp member
  exact quiet_hexDigits 8 word.toNat c digit

theorem shows_digest (s : Service) : Shows s!"[cyan]Digest:[/cyan] {s.digest}" := by
  have split : s.digest.toList = "sha256:".toList ++ Sha256.digest (Utf8.encode s.canonical) := by
    rw [Service.digest, String.toList_append]
    exact congrArg _ String.toList_ofList
  have quiet : Quiet s.digest.toList := by
    rw [split]
    exact quiet_append (by decide) (quiet_digest _)
  have shows : Shows (" " ++ s.digest) := by
    apply shows_of_quiet
    rw [String.toList_append]
    exact quiet_append (by decide) quiet
  generalize s.digest = digest at shows ⊢
  refine (shows_styled_iff (by decide : IsStyle "cyan".toList)
    (by decide : Quiet "Digest:".toList) ?_).mpr shows
  simp [styled, bracketed, toString]

theorem digesting_ends (d : Disk) (s : Service) (output : Option Path) (digest : Bool) :
    (digesting d s output digest).Ends ((digest = true ∨ output = none) ∧ s.canonical? = none ∨
      ∃ path, output = some path ∧ ¬ path.Shown) := by
  have finished := Outcome.Ends.finish d s output
  rw [digesting]
  split
  next on =>
    refine (Outcome.Ends.writable s (finished.say (shows_digest s) d)).congr ?_
    rw [iff_true_intro on]
    tauto
  next off => exact finished.congr (by simp [off])

/-- What comes after the document is read. -/
def compiling (d : Disk) (check digest : Bool) (output : Option Path) (document : Value) :
    Outcome :=
  match Compilation.ofDocument document with
  | .refused fault => Outcome.failWith d fault
  | .unwritable fault => Outcome.crashed d (.value fault)
  | .done service =>
    let digested := digesting d service output digest
    let checked := if check then whenConsistent d service digested else digested
    checked.say d (summaryLine service)

theorem compiling_ends (d : Disk) (check digest : Bool) (output : Option Path) (document : Value) :
    (compiling d check digest output document).Ends
      ((∃ fault, Compilation.ofDocument document = .unwritable fault) ∨
        ∃ s, Compilation.ofDocument document = .done s ∧ (check = true → s.fault? = none) ∧
          ((digest = true ∨ output = none) ∧ s.canonical? = none ∨
            ∃ path, output = some path ∧ ¬ path.Shown)) := by
  rw [compiling]
  split
  next fault refused => exact (Outcome.Ends.failWith d fault).congr (by simp [refused])
  next fault unwritable => exact (Outcome.Ends.crashed d _).congr (by simp [unwritable])
  next s made =>
    have digested := digesting_ends d s output digest
    have checked : (if check then whenConsistent d s (digesting d s output digest)
        else digesting d s output digest).Ends ((check = true → s.fault? = none) ∧
          ((digest = true ∨ output = none) ∧ s.canonical? = none ∨
            ∃ path, output = some path ∧ ¬ path.Shown)) := by
      split
      next on => exact (Outcome.Ends.consistent s digested).congr (by simp [on])
      next off => exact digested.congr (by simp [off])
    exact (checked.say (shows_summary s) d).congr (by simp [made])

theorem runCompile_ends (set : Settings.ofDisk d = .ok settings)
    (shallow : ∀ path, spec.or settings.spec = some path → d.Shallow path) :
    (runCompile d spec output checkService digest).Ends
      (Request.Hindered d settings (.compile spec output checkService digest)) := by
  rw [runCompile, withSettings, set]
  refine Outcome.Ends.specPath fun path named => ?_
  dsimp only
  split
  next other unsupported =>
    obtain ⟨exported, unknown⟩ := Option.filter_eq_some_iff.mp unsupported
    refine (Outcome.Ends.fail (shows_unsupported _) d).congr (iff_false_intro ?_)
    intro hinders
    have known := hinders.1 other exported
    rw [← Option.not_isNone, unknown] at known
    cases known
  next supported =>
    rw [Option.filter_eq_none_iff] at supported
    have ends : (withDocument d path
        (compiling d (checkService.getD settings.checkService) digest
          (output.or settings.output))).Ends _ :=
      .document (shallow path named) fun entries _ => compiling_ends d _ digest _ (.table entries)
    refine ends.congr (and_iff_right ?_)
    intro other exported
    apply Option.isSome_iff_ne_none.mpr
    simpa using supported other exported

namespace Request

variable {request : Request}

theorem run_ends (set : Settings.ofDisk d = .ok settings)
    (shallow : ∀ path, request.document? settings = some path → d.Shallow path)
    (other : ∀ output indent, request ≠ .schema output indent) :
    (request.run d).Ends (request.Hindered d settings) := by
  cases request with
  | verify path => exact runVerify_ends (shallow path rfl)
  | check => exact runCheck_ends set shallow
  | compile => exact runCompile_ends set shallow
  | schema output indent => exact absurd rfl (other output indent)

/-- The first thing that a command does is to show a line. -/
theorem exists_run_eq (set : Settings.ofDisk d = .ok settings)
    (other : ∀ output indent, request ≠ .schema output indent) :
    ∃ marked rest, request.run d = Outcome.say d marked rest := by
  have documents (path : Path) (next : Value → Outcome) :
      ∃ marked rest, withDocument d path next = Outcome.say d marked rest := ⟨_, _, rfl⟩
  cases request with
  | verify path => exact ⟨_, _, rfl⟩
  | check spec strict =>
      rw [run, runCheck, withSettings, set]
      dsimp only
      rw [withSpecPath]
      split
      next path _ => exact documents path _
      next => exact ⟨_, _, rfl⟩
  | compile spec output checkService digest =>
      rw [run, runCompile, withSettings, set]
      dsimp only
      rw [withSpecPath]
      split
      next path _ =>
        split
        next => exact ⟨_, _, rfl⟩
        next => exact documents path _
      next => exact ⟨_, _, rfl⟩
  | schema output indent => exact absurd rfl (other output indent)

/-- A path with a closing tag. -/
def closingPath : Path := ⟨.here, ["[", "x].json"]⟩

end Request

end

end Workflow
