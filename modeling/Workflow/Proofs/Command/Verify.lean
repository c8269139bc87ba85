import Workflow.Proofs.Command.Outcome
import Workflow.Proofs.Service.Documented
import Workflow.Proofs.Service.Reload

/-!
Compiled services that are verified from their files. Main statement: `verify` finds of an exported
service what the check of `compile` finds of the service itself.
-/

namespace Workflow

open Markup (IsStyle Quiet Shows shows_label shows_styled_iff)

variable {d : Disk} {s : Service} {path : Path}

/-! ## Steps of a command that exits with 0 -/

theorem of_withSettings {next : Settings → Outcome}
    (exits : (withSettings d next).ending = .exit 0) :
    ∃ settings, Settings.ofDisk d = .ok settings ∧ (next settings).ending = .exit 0 := by
  rw [withSettings] at exits
  split at exits
  next settings found => exact ⟨settings, found, exits⟩
  next =>
    split at exits
    next => cases Outcome.ending_fail _ _ exits
    next => cases exits

theorem of_withDocument {next : Value → Outcome}
    (exits : (withDocument d path next).ending = .exit 0) :
    ∃ entries, Document.load d path = .ok entries ∧ (next (.table entries)).ending = .exit 0 ∧
      Shows s!"[cyan]Loading spec from:[/cyan] {path.text}" := by
  obtain ⟨shows, exits⟩ := Outcome.of_ending_say exits
  split at exits
  next entries loaded => exact ⟨entries, loaded, exits, shows⟩
  next =>
    split at exits
    next => cases exits
    next => cases Outcome.ending_fail _ _ exits

/-! ## Checks -/

theorem ending_whenConsistent (sound : s.fault? = none) (d : Disk) (next : Outcome) :
    (whenConsistent d s next).ending = next.ending := by
  have shows : Shows "[green]✓ Compiled IR is consistent[/green]" :=
    shows_label (by decide : IsStyle "green".toList)
      (by decide : Quiet "✓ Compiled IR is consistent".toList)
      (by simp [Markup.styled, Markup.bracketed])
  rw [whenConsistent, sound]
  exact Outcome.ending_say shows

theorem whenConsistent_eq_failWith {fault : Fault} (found : s.fault? = some fault) (d : Disk)
    (next : Outcome) : whenConsistent d s next = Outcome.failWith d fault := by
  rw [whenConsistent, found]

theorem whenWritable_eq {next : Outcome} (exits : (whenWritable d s next).ending = .exit 0) :
    whenWritable d s next = next := by
  rw [whenWritable] at exits ⊢
  cases written : s.writeFault? with
  | none => rfl
  | some fault =>
      rw [written] at exits
      cases exits

/-! ## Compilations -/

/-- The line before the document is read. -/
def loadingLine (spec : Path) : String := s!"[cyan]Loading spec from:[/cyan] {spec.text}"

/-- The line after the service is made. -/
def summaryLine (s : Service) : String :=
  s!"[cyan]Compiled:[/cyan] [bold]{Markup.escape s.name}[/bold] " ++ s!"({s.agents.length} agents)"

/-- What comes after the service is checked or not. -/
def digesting (d : Disk) (s : Service) (output : Option Path) (digest : Bool) : Outcome :=
  let finished := finishCompile d s output
  if digest then whenWritable d s (finished.say d s!"[cyan]Digest:[/cyan] {s.digest}") else finished

/-- The project of a file compiles to the service, and the output's format is supported. -/
structure Compiles (d : Disk) (spec output : Path) (s : Service) : Prop where
  settings : ∃ settings, Settings.ofDisk d = .ok settings
  supported : (some output).filter (·.format?.isNone) = none
  document : ∃ entries, Document.load d spec = .ok entries ∧
    Compilation.ofDocument (.table entries) = .done s

theorem Compiles.validated {spec output : Path} (compiles : Compiles d spec output s) :
    s.Validated := by
  obtain ⟨entries, loaded, compiled⟩ := compiles.document
  exact Compilation.validated_of_ofDocument (Document.load_distinct loaded) compiled

/-- With a check and without one, a compilation shows the same lines before the service is checked
or not. -/
theorem runCompile_eq {spec output : Path} (compiles : Compiles d spec output s)
    (check digest : Bool) : runCompile d (some spec) (some output) (some check) digest =
      ((if check then whenConsistent d s (digesting d s (some output) digest)
        else digesting d s (some output) digest).say d (summaryLine s)).say d (loadingLine spec) := by
  obtain ⟨⟨settings, set⟩, supported, entries, loaded, compiled⟩ := compiles
  simp only [runCompile, withSettings, set, withSpecPath, Option.or, supported, withDocument,
    loaded, compiled, Option.getD_some]
  rfl

theorem of_runCompile {spec output : Path} {check digest : Bool}
    (exits : (runCompile d (some spec) (some output) (some check) digest).ending = .exit 0) :
    ∃ s, Compiles d spec output s ∧ Shows (loadingLine spec) ∧ Shows (summaryLine s) := by
  rw [runCompile] at exits
  obtain ⟨settings, set, exits⟩ := of_withSettings exits
  dsimp only [withSpecPath, Option.or] at exits
  split at exits
  next => cases Outcome.ending_fail _ _ exits
  next supported =>
    obtain ⟨entries, loaded, exits, loading⟩ := of_withDocument exits
    split at exits
    next fault refused =>
      obtain ⟨panel, -, fails⟩ := fault.exists_panel
      cases (fails d).ending_ne exits
    next => cases exits
    next s compiled =>
      obtain ⟨summary, -⟩ := Outcome.of_ending_say exits
      exact ⟨s, ⟨⟨settings, set⟩, supported, entries, loaded, compiled⟩, loading, summary⟩

/-! ## Exports -/

theorem of_finishCompile (exits : (finishCompile d s (some path)).ending = .exit 0) :
    Shows s!"[cyan]Writing IR to:[/cyan] {path.text}" ∧
      s.store d path exportIndent = ((finishCompile d s (some path)).disk, none) := by
  obtain ⟨shows, ends⟩ := Outcome.of_ending_say exits
  refine ⟨shows, ?_⟩
  rw [finishCompile, Outcome.disk_say shows]
  split at ends
  next d' stored =>
    obtain ⟨shows', -⟩ := Outcome.of_ending_say ends
    rw [stored]
    simp only [Outcome.disk_say shows']
    rfl
  next => cases Outcome.ending_fail _ _ ends

theorem of_digesting {output : Path} {digest : Bool}
    (exits : (digesting d s (some output) digest).ending = .exit 0) :
    Shows s!"[cyan]Writing IR to:[/cyan] {output.text}" ∧
      s.store d output exportIndent = ((digesting d s (some output) digest).disk, none) := by
  cases digest with
  | false => exact of_finishCompile exits
  | true =>
      have shown : digesting d s (some output) true = (finishCompile d s (some output)).say d
          s!"[cyan]Digest:[/cyan] {s.digest}" := whenWritable_eq exits
      rw [shown] at exits ⊢
      obtain ⟨shows, finishes⟩ := Outcome.of_ending_say exits
      rw [Outcome.disk_say shows]
      exact of_finishCompile finishes

theorem ending_digesting {output : Path} {d' : Disk}
    (writing : Shows s!"[cyan]Writing IR to:[/cyan] {output.text}")
    (stored : s.store d output exportIndent = (d', none)) :
    (digesting d s (some output) false).ending = .exit 0 := by
  have complete : Shows "[green]✓ Compilation complete[/green]" :=
    shows_label (by decide : IsStyle "green".toList)
      (by decide : Quiet "✓ Compilation complete".toList)
      (by simp [Markup.styled, Markup.bracketed])
  have ends : ((Outcome.exit d' 0).say d' "[green]✓ Compilation complete[/green]").ending =
      .exit 0 := Outcome.ending_say complete
  calc
    (digesting d s (some output) false).ending = (finishCompile d s (some output)).ending := rfl
    _ = .exit 0 := by
      rw [finishCompile, Outcome.ending_say writing, stored]
      exact ends

/-- A path is shown after one label as after another. -/
theorem shows_path_iff {label : String} (quiet : Quiet label.toList) (path : Path) :
    Shows s!"[cyan]{label}[/cyan] {path.text}" ↔ Shows (" " ++ path.text) := by
  refine shows_styled_iff (by decide : IsStyle "cyan".toList) quiet ?_
  simp [Markup.styled, Markup.bracketed, toString]

theorem shows_loading_iff (path : Path) : Shows s!"[cyan]Loading IR from:[/cyan] {path.text}" ↔
    Shows s!"[cyan]Writing IR to:[/cyan] {path.text}" :=
  (shows_path_iff (by decide : Quiet "Loading IR from:".toList) path).trans
    (shows_path_iff (by decide : Quiet "Writing IR to:".toList) path).symm

/-! ## Compiling and verifying -/

namespace Request

/-- Where a service was compiled and exported without a check, `verify` exits with 0 just where the
compilation with the check does, and fails with the same panel where it does not. -/
theorem verify_agrees {d : Disk} {spec output : Path} {digest : Bool}
    (exits : (run d (.compile (some spec) (some output) (some false) digest)).ending = .exit 0) :
    let exported := (run d (.compile (some spec) (some output) (some false) digest)).disk
    let verified := run exported (.verify output)
    let checked := run d (.compile (some spec) (some output) (some true) digest)
    (verified.ending = .exit 0 ↔ checked.ending = .exit 0) ∧
      (verified.ending ≠ .exit 0 → ∃ fault : Fault, ∃ panel, fault.panel = .ok panel ∧
        verified.FailsWith panel ∧ checked.FailsWith panel) := by
  intro exported verified checked
  obtain ⟨s, compiles, loads, sums⟩ := of_runCompile exits
  have runs := runCompile_eq compiles
  have ends : (digesting d s (some output) digest).ending = .exit 0 := by
    have same := exits
    rw [run, runs, Outcome.ending_say loads, Outcome.ending_say sums] at same
    exact same
  obtain ⟨writes, stored⟩ := of_digesting ends
  have disk : exported = (digesting d s (some output) digest).disk := by
    simp only [exported, run, runs, Outcome.disk_say loads, Outcome.disk_say sums]
    rfl
  have checks : checked = ((whenConsistent d s (digesting d s (some output) digest)).say d
      (summaryLine s)).say d (loadingLine spec) := runs true digest
  obtain ⟨t, loaded, verdict⟩ := Service.exists_load_of_store compiles.validated stored
  have reads := (shows_loading_iff output).mpr writes
  have verifies : verified = (whenConsistent exported t (.exit exported 0)).say exported
      s!"[cyan]Loading IR from:[/cyan] {output.text}" := by
    rw [← disk] at loaded
    simp only [verified, run, runVerify, loaded]
  cases found : s.fault? with
  | none =>
      have verified' : verified.ending = .exit 0 := by
        rw [verifies, Outcome.ending_say reads, ending_whenConsistent (verdict.trans found)]
        rfl
      have checked' : checked.ending = .exit 0 := by
        rw [checks, Outcome.ending_say loads, Outcome.ending_say sums, ending_whenConsistent found,
          ends]
      exact ⟨iff_of_true verified' checked', fun refused => absurd verified' refused⟩
  | some fault =>
      obtain ⟨panel, shown, fails⟩ := fault.exists_panel
      rw [whenConsistent_eq_failWith (verdict.trans found)] at verifies
      rw [whenConsistent_eq_failWith found] at checks
      have verified' : verified.FailsWith panel := verifies ▸ (fails exported).say reads exported
      have checked' : checked.FailsWith panel := checks ▸ ((fails d).say sums d).say loads d
      exact ⟨iff_of_false verified'.ending_ne checked'.ending_ne,
        fun _ => ⟨fault, panel, shown, verified', checked'⟩⟩

end Request

/-! ## A project that starts at a gate -/

/-- The graph may start at a gate, and the service then has no start agent. -/
def gateProject : Project :=
  { id := "p", name := "Gate", version := "1", description := none, evaluations := none,
    metadata := none
    orchestration :=
      { id := "o", name := "O", startNode := "approval", outputs := [], agents := [], tools := []
        gates := [⟨"approval", .approval, none, none, none⟩], edges := [] } }

theorem gateProject_sound : gateProject.orchestration.Sound where
  start := by decide
  tools := by decide
  edges := by decide
  acyclic := Orchestration.acyclic_of_rank ["approval"].idxOf (by decide)
  outputs := by decide

theorem gateProject_printable : gateProject.Printable :=
  ⟨Project.not_unwritable_of_parts (by decide) (by decide), nofun⟩

def gateDocument : Value := gateProject.toValue .wire

/-- A disk with one file, named `p.json`. -/
def projectDisk (content : Bytes) : Disk := ⟨[(["p.json"], .file content)], []⟩

theorem read_projectDisk (content : Bytes) :
    (projectDisk content).read (Service.fileNamed "p.json") = .ok content := rfl

theorem settings_projectDisk (content : Bytes) :
    Settings.ofDisk (projectDisk content) = .ok (.empty none) := rfl

theorem accepts_projectDisk (content : Bytes) :
    (projectDisk content).Accepts (Service.fileNamed "ir.json") := ⟨[], _, rfl⟩

def gateDisk : Disk := projectDisk (Utf8.encode (Json.text Json.compactStyle gateDocument))

theorem gateDocument_readable : gateDocument.Readable where
  momentless := by
    simp [gateDocument, gateProject, Project.toValue, Orchestration.toValue, Gate.toValue,
      Labelled.toValue, Form.record, Form.wire, listValue, Value.texts]
  distinct := by
    simp [gateDocument, gateProject, Project.toValue, Orchestration.toValue, Gate.toValue,
      Labelled.toValue, Form.record, Form.wire, listValue, Value.texts]
  digits := by decide

theorem exists_load_gateDisk : ∃ entries, gateDocument = .table entries ∧
    Document.load gateDisk (Service.fileNamed "p.json") = .ok entries := by
  have found := Json.read_text Json.compactStyle_spaced gateDocument_readable (by decide)
  have clean : '\r' ∉ (Json.text Json.compactStyle gateDocument).toList := by
    rw [Json.text, String.toList_ofList]
    exact Json.notMem_print (by decide) (by decide) gateDocument 0
  have suffix : (Service.fileNamed "p.json").format? = some .json := by decide +kernel
  exact ⟨_, rfl, Document.load_json (read_projectDisk _) suffix clean found⟩

theorem compiles_gateDisk :
    Compiles gateDisk (Service.fileNamed "p.json") (Service.fileNamed "ir.json")
      gateProject.build := by
  obtain ⟨entries, isTable, loaded⟩ := exists_load_gateDisk
  refine ⟨⟨_, settings_projectDisk _⟩, by decide +kernel, entries, loaded, ?_⟩
  rw [← isTable]
  exact Project.compilation_of_sound gateProject_sound gateProject_printable.1

theorem exists_store_gateDisk : ∃ d',
    gateProject.build.store gateDisk (Service.fileNamed "ir.json") exportIndent = (d', none) := by
  have suffix : (Service.fileNamed "ir.json").format? = some .json := by decide +kernel
  have writable := Project.isWritable_build gateProject_printable.1
  have digits := (Project.digitsFit_build_iff gateProject_printable.1).mpr gateProject_printable.2
  have exported : gateProject.build.exportText (Service.fileNamed "ir.json") exportIndent =
      .ok (gateProject.build.jsonText exportIndent) := by
    simp [Service.exportText, suffix, writable, Service.ifDigitsFit, digits]
  exact Service.exists_store_of_exportText exported (accepts_projectDisk _)

/-- The service of the gate is exported all the same, and fails both checks. -/
theorem Request.verify_agrees_gate :
    let spec := Service.fileNamed "p.json"
    let output := Service.fileNamed "ir.json"
    let exported := (run gateDisk (.compile (some spec) (some output) (some false) false)).disk
    ∃ fault : Fault, ∃ panel, fault.panel = .ok panel ∧
      (run exported (.verify output)).FailsWith panel ∧
      (run gateDisk (.compile (some spec) (some output) (some true) false)).FailsWith panel := by
  intro spec output exported
  have runs := runCompile_eq compiles_gateDisk
  have loads : Shows (loadingLine spec) := Except.exists_ok_iff.mpr (by decide +kernel)
  have sums : Shows (summaryLine gateProject.build) := Except.exists_ok_iff.mpr (by decide +kernel)
  have writes : Shows s!"[cyan]Writing IR to:[/cyan] {output.text}" :=
    Except.exists_ok_iff.mpr (by decide +kernel)
  obtain ⟨d', stored⟩ := exists_store_gateDisk
  have exits : (run gateDisk (.compile (some spec) (some output) (some false) false)).ending =
      .exit 0 := by
    rw [run, runs, Outcome.ending_say loads, Outcome.ending_say sums]
    exact ending_digesting writes stored
  have agrees := verify_agrees exits
  have missing : gateProject.build.fault? = some (.startAgentMissing "approval") := by cbv
  obtain ⟨panel, -, fails⟩ := (Fault.startAgentMissing "approval").exists_panel
  have checked : (run gateDisk (.compile (some spec) (some output) (some true) false)).ending ≠
      .exit 0 := by
    rw [run, runs, if_pos rfl, whenConsistent_eq_failWith missing, Outcome.ending_say loads,
      Outcome.ending_say sums]
    exact (fails gateDisk).ending_ne
  exact agrees.2 (mt agrees.1.mp checked)

end Workflow
