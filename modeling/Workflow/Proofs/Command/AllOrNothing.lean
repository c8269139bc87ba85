import Workflow.Proofs.Command.Verify
import Workflow.Proofs.Service.Export

/-!
Compilations that are done as a whole or not at all. A service is written only when all that can
fail before is over, and what fails while a file is written fails before the file is opened; so a
command that does not exit with 0 has shown its notices and nothing else. Main statement: `compile`
either exits with 0 and delivers the service of its project, to its output or to one file, or it
prints nothing and leaves every file as it was.
-/

namespace Workflow

open Markup (IsStyle Quiet Shows shows_label)

variable {d d' : Disk} {done : String → Disk → Prop} {o : Outcome} {s : Service}

/-- What a command leaves that exits with 0 is done; any other one prints nothing and leaves the
files as they were. -/
structure AllOrNothing (d : Disk) (done : String → Disk → Prop) (o : Outcome) : Prop where
  completed : o.ending = .exit 0 → done o.output o.disk
  untouched : o.ending ≠ .exit 0 → o.output = "" ∧ d.SameFiles o.disk

namespace AllOrNothing

/-! ## Notices and failures -/

theorem crashed (same : d.SameFiles d') (crash : Crash) :
    AllOrNothing d done (.crashed d' crash) where
  completed := nofun
  untouched := fun _ => ⟨rfl, same⟩

theorem exit (same : d.SameFiles d') {code : Nat} (failure : code ≠ 0) :
    AllOrNothing d done (.exit d' code) where
  completed := by
    intro exits
    cases exits
    exact absurd rfl failure
  untouched := fun _ => ⟨rfl, same⟩

/-- A notice changes neither output nor disk, and where it cannot be shown the command has done
nothing else so far. -/
theorem showing (same : d.SameFiles d') (notice : Except Markup.Fault Notice)
    (rest : AllOrNothing d done o) : AllOrNothing d done (o.showing d' notice) := by
  cases notice with
  | error fault => exact crashed same _
  | ok notice => exact ⟨rest.completed, rest.untouched⟩

theorem say (same : d.SameFiles d') (marked : String) (rest : AllOrNothing d done o) :
    AllOrNothing d done (o.say d' marked) := showing same _ rest

theorem fail (same : d.SameFiles d') (marked : String) : AllOrNothing d done (.fail d' marked) :=
  say same marked (exit same Nat.one_ne_zero)

theorem failWith (same : d.SameFiles d') (fault : Fault) :
    AllOrNothing d done (.failWith d' fault) := showing same _ (exit same Nat.one_ne_zero)

/-! ## Steps -/

theorem settings {next : Settings → Outcome}
    (each : ∀ settings, Settings.ofDisk d = .ok settings → AllOrNothing d done (next settings)) :
    AllOrNothing d done (withSettings d next) := by
  rw [withSettings]
  split
  next settings found => exact each settings found
  next =>
    split
    next => exact fail (.refl d) _
    next => exact crashed (.refl d) _

theorem specPath {given : Option Path} {settings : Settings} {next : Path → Outcome}
    (each : ∀ path, given.or settings.spec = some path → AllOrNothing d done (next path)) :
    AllOrNothing d done (withSpecPath d given settings next) := by
  rw [withSpecPath]
  split
  next path found => exact each path found
  next => exact fail (.refl d) _

theorem document {path : Path} {next : Value → Outcome}
    (each : ∀ entries, Document.load d path = .ok entries →
      AllOrNothing d done (next (.table entries))) :
    AllOrNothing d done (withDocument d path next) := by
  apply say (.refl d)
  split
  next entries loaded => exact each entries loaded
  next =>
    split
    next => exact crashed (.refl d) _
    next => exact fail (.refl d) _

theorem consistent (s : Service) (rest : AllOrNothing d done o) :
    AllOrNothing d done (whenConsistent d s o) := by
  rw [whenConsistent]
  split
  next fault _ => exact failWith (.refl d) fault
  next => exact say (.refl d) _ rest

theorem writable (s : Service) (rest : s.writeFault? = none → AllOrNothing d done o) :
    AllOrNothing d done (whenWritable d s o) := by
  rw [whenWritable]
  split
  next fault _ => exact crashed (.refl d) _
  next written => exact rest written

end AllOrNothing

/-! ## Delivering a service -/

/-- The canonical text of the service is printed on a line and no file changes, or its exported text
is in the file of a path and no other file changes. -/
def Delivers (d : Disk) (s : Service) : Option Path → String → Disk → Prop
  | none, printed, after =>
      ∃ text, s.canonical? = some text ∧ printed = text ++ "\n" ∧ d.SameFiles after
  | some path, printed, after => printed = "" ∧
      ∃ text, s.exportText path exportIndent = .ok text ∧ d.Rewrites after path (Utf8.encode text)

theorem shows_complete : Shows "[green]✓ Compilation complete[/green]" :=
  shows_label (by decide : IsStyle "green".toList)
    (by decide : Quiet "✓ Compilation complete".toList)
    (by simp [Markup.styled, Markup.bracketed])

theorem exists_finishCompile_eq (d : Disk) {s : Service} (written : s.writeFault? = none) :
    ∃ shown, finishCompile d s none = ⟨.exit 0, s.canonical ++ "\n", [.line shown], d⟩ := by
  obtain ⟨shown, completed⟩ := Outcome.exists_say_eq shows_complete d (.exit d 0)
  refine ⟨shown, ?_⟩
  rw [finishCompile]
  dsimp only
  rw [whenWritable, written, completed]
  simp [Outcome.print, Outcome.exit]

namespace AllOrNothing

/-- The last notice is shown when all is done, so it must not fail. -/
theorem finish (d : Disk) (s : Service) (output : Option Path) :
    AllOrNothing d (Delivers d s output) (finishCompile d s output) := by
  cases output with
  | none =>
      cases written : s.writeFault? with
      | some fault =>
          rw [finishCompile]
          apply writable s
          intro none
          rw [written] at none
          cases none
      | none =>
          obtain ⟨shown, finished⟩ := exists_finishCompile_eq d written
          rw [finished]
          exact ⟨fun _ => ⟨_, Service.canonical?_eq_some_canonical_iff.mpr written, rfl, .refl d⟩,
            fun failed => absurd rfl failed⟩
  | some path =>
      apply say (.refl d)
      split
      next d' stored =>
        obtain ⟨text, exported, stored⟩ := Service.store_eq_none_iff.mp stored
        obtain ⟨shown, completed⟩ := Outcome.exists_say_eq shows_complete d' (.exit d' 0)
        dsimp only
        rw [completed]
        exact ⟨fun _ => ⟨rfl, text, exported, Disk.rewrites_of_store stored⟩,
          fun failed => absurd rfl failed⟩
      next d' fault refused => exact fail (Service.sameFiles_of_store refused) _

end AllOrNothing

/-- The service of the project at the path that is given or set is delivered where the output that
is given or set says. -/
def DeliversProject (d : Disk) (spec output : Option Path) (printed : String) (after : Disk) :
    Prop :=
  ∃ settings path entries s, Settings.ofDisk d = .ok settings ∧
    spec.or settings.spec = some path ∧ Document.load d path = .ok entries ∧
    Compilation.ofDocument (.table entries) = .done s ∧
    Delivers d s (output.or settings.output) printed after

theorem AllOrNothing.mono {done' : String → Disk → Prop} (rest : AllOrNothing d done o)
    (weaker : ∀ printed after, done printed after → done' printed after) :
    AllOrNothing d done' o where
  completed := fun exits => weaker _ _ (rest.completed exits)
  untouched := rest.untouched

theorem runCompile_allOrNothing (d : Disk) (spec output : Option Path) (check : Option Bool)
    (digest : Bool) :
    AllOrNothing d (DeliversProject d spec output) (runCompile d spec output check digest) := by
  apply AllOrNothing.settings
  intro settings set
  apply AllOrNothing.specPath
  intro path given
  dsimp only
  split
  next => exact .fail (.refl d) _
  next =>
    apply AllOrNothing.document
    intro entries loaded
    split
    next fault _ => exact .failWith (.refl d) fault
    next => exact .crashed (.refl d) _
    next s compiled =>
      have finished : AllOrNothing d (DeliversProject d spec output)
          (finishCompile d s (output.or settings.output)) :=
        (AllOrNothing.finish d s _).mono fun _ _ delivered =>
          ⟨settings, path, entries, s, set, given, loaded, compiled, delivered⟩
      have digested : AllOrNothing d (DeliversProject d spec output)
          (digesting d s (output.or settings.output) digest) := by
        rw [digesting]
        split
        next => exact .writable s fun _ => .say (.refl d) _ finished
        next => exact finished
      apply AllOrNothing.say (.refl d)
      split
      next => exact .consistent s digested
      next => exact digested

/-! ## Command lines -/

/-- Whatever the command line asks for is a compilation. -/
def AsksToCompile (args : List String) : Prop :=
  ∀ request, Request.ofArguments? args = some request →
    ∃ spec output check digest, request = .compile spec output check digest

theorem asksToCompile (flags rest : List String)
    (general : ∀ flag ∈ flags, flag = "--verbose" ∨ flag = "--no-verbose") :
    AsksToCompile (flags ++ "compile" :: rest) := by
  induction flags with
  | nil =>
      intro request asked
      have sorted : Request.ofCompile? rest = some request := asked
      simp only [Request.ofCompile?, Option.bind_eq_bind, Option.bind_eq_some_iff,
        Option.some_inj] at sorted
      obtain ⟨arguments, -, spec, -, rfl⟩ := sorted
      exact ⟨_, _, _, _, rfl⟩
  | cons flag flags ih =>
      obtain ⟨first, later⟩ := List.forall_mem_cons.mp general
      rcases first with rfl | rfl
      · exact ih later
      · exact ih later

/-- A command line that breaks a rule exits with 2 and does nothing. -/
def outcomeOf (d : Disk) (args : List String) : Outcome :=
  (runArguments d args).getD (.exit d 2)

theorem ending_runCompile_gate :
    let spec := Service.fileNamed "p.json"
    let output := Service.fileNamed "ir.json"
    (runCompile gateDisk (some spec) (some output) (some false) false).ending = .exit 0 := by
  intro spec output
  have loads : Shows (loadingLine spec) := Except.exists_ok_iff.mpr (by decide +kernel)
  have sums : Shows (summaryLine gateProject.build) := Except.exists_ok_iff.mpr (by decide +kernel)
  have writes : Shows s!"[cyan]Writing IR to:[/cyan] {output.text}" :=
    Except.exists_ok_iff.mpr (by decide +kernel)
  obtain ⟨d', stored⟩ := exists_store_gateDisk
  rw [runCompile_eq compiles_gateDisk, Outcome.ending_say loads, Outcome.ending_say sums]
  exact ending_digesting writes stored

end Workflow
