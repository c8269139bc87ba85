import Workflow.Command.Outcome
import Workflow.Command.Request
import Workflow.Service.Build
import Workflow.Service.Consistency
import Workflow.Service.Store
import Workflow.Spec.JsonSchema

/-!
The commands. `compile` makes a service out of a project, `check` looks at the graph of a project,
`verify` looks at a compiled service, and `schema` gives the JSON schema of project documents. What
is not given on the command line comes from the settings of the current directory.
-/

namespace Workflow

open Markup (escape)

/-! ## Shared steps -/

/-- Ends with a failure after a line of marked text. -/
def Outcome.fail (d : Disk) (marked : String) : Outcome := (Outcome.exit d 1).say d marked

/-- The rows of a fault: code and message, then the violations or the details. -/
def Fault.rows (fault : Fault) : List (List String) :=
  let explained := match fault with
    | .invalid violations => violations.map fun v =>
        [escape (if v.path = "" then "<root>" else v.path), escape v.message]
    | fault => fault.details.map fun (key, value) =>
        [escape key, escape (Json.text Json.lineStyle value)]
  ["code", s!"[red]{fault.code.label}[/red]"] :: ["message", escape fault.message] :: explained

/-- Ends with a failure after the panel of a fault. -/
def Outcome.failWith (d : Disk) (fault : Fault) : Outcome :=
  (Outcome.exit d 1).showing d
    (Notice.ofMarked "[bold red]Compilation failed[/bold red]" fault.rows none)

def withSettings (d : Disk) (next : Settings → Outcome) : Outcome :=
  match Settings.ofDisk d with
  | .ok settings => next settings
  | .error fault =>
    if fault.isConfiguration then
      Outcome.fail d s!"[red]Configuration error:[/red] {escape fault.message}"
    else Outcome.crashed d (.settings fault)

/-- Goes on with the path of the project, given or set. -/
def withSpecPath (d : Disk) (given : Option Path) (settings : Settings) (next : Path → Outcome) :
    Outcome :=
  match given.or settings.spec with
  | some path => next path
  | none =>
    Outcome.fail d
      ("[red]No spec file given and no " ++ escape "[tool.agentfactory]" ++
        ".spec configured[/red]")

/-- Goes on with the document of a project. The path is shown as marked text. -/
def withDocument (d : Disk) (path : Path) (next : Value → Outcome) : Outcome :=
  Outcome.say d s!"[cyan]Loading spec from:[/cyan] {path.text}" <|
    match Document.load d path with
    | .ok entries => next (.table entries)
    | .error fault =>
      if fault.isTooDeep then Outcome.crashed d .document
      else Outcome.fail d s!"[red]✗ Could not read spec:[/red] {escape fault.message}"

/-- Goes on if a service is consistent. -/
def whenConsistent (d : Disk) (service : Service) (next : Outcome) : Outcome :=
  match service.fault? with
  | some fault => Outcome.failWith d fault
  | none => next.say d "[green]✓ Compiled IR is consistent[/green]"

/-- Goes on if a service has a canonical text. -/
def whenWritable (d : Disk) (service : Service) (next : Outcome) : Outcome :=
  match service.writeFault? with
  | some fault => Outcome.crashed d (.value fault)
  | none => next

/-! ## Commands -/

/-- Indentation of exported services. -/
def exportIndent : Int := 2

/-- Ends a compilation by printing the service, or by exporting it to a path. -/
def finishCompile (d : Disk) (service : Service) (output : Option Path) : Outcome :=
  let completed (d : Disk) : Outcome :=
    (Outcome.exit d 0).say d "[green]✓ Compilation complete[/green]"
  match output with
  | none => whenWritable d service ((completed d).print service.canonical)
  | some path =>
    Outcome.say d s!"[cyan]Writing IR to:[/cyan] {path.text}" <|
      match service.store d path exportIndent with
      | (d, none) => completed d
      | (d, some fault) =>
        Outcome.fail d s!"[red]✗ Could not write IR:[/red] {escape fault.message}"

def runCompile (d : Disk) (spec output : Option Path) (checkService : Option Bool) (digest : Bool) :
    Outcome :=
  withSettings d fun settings =>
  withSpecPath d spec settings fun spec =>
  let output := output.or settings.output
  match output.filter (·.format?.isNone) with
  | some path =>
    Outcome.fail d
      s!"[red]✗ Unsupported output file type:[/red] {escape path.text} (expected .json or .toml)"
  | none =>
    withDocument d spec fun document =>
    match Compilation.ofDocument document with
    | .refused fault => Outcome.failWith d fault
    | .unwritable fault => Outcome.crashed d (.value fault)
    | .done service =>
      let finished := finishCompile d service output
      let digested :=
        if digest then
          whenWritable d service (finished.say d s!"[cyan]Digest:[/cyan] {service.digest}")
        else finished
      let checked :=
        if checkService.getD settings.checkService then whenConsistent d service digested
        else digested
      checked.say d (s!"[cyan]Compiled:[/cyan] [bold]{escape service.name}[/bold] " ++
        s!"({service.agents.length} agents)")

/-- The panel of what the checks of a graph find. -/
def Verdict.panel (verdict : Verdict) (project : String) : Except Markup.Fault Notice :=
  let row (severity code message : String) : List String := [severity, code, escape message]
  Notice.ofMarked s!"[bold]Project: {escape project}[/bold]"
    (["Severity", "Code", "Message"] ::
      verdict.faults.map (fun f => row "[red]error[/red]" f.code.label f.message) ++
      verdict.findings.map fun f => row "[yellow]warning[/yellow]" f.code.label f.message)
    (some (s!"[dim]{verdict.faults.length} errors, " ++
      s!"{verdict.findings.length} warnings[/dim]"))

def runCheck (d : Disk) (spec : Option Path) (strict : Option Bool) : Outcome :=
  withSettings d fun settings =>
  withSpecPath d spec settings fun spec =>
  withDocument d spec fun document =>
  match Project.read document with
  | .error violations => Outcome.failWith d (.invalid violations)
  | .ok project =>
    let verdict := project.orchestration.lint
    let ending :=
      if !verdict.faults.isEmpty then Outcome.fail d "[red]✗ Graph is invalid[/red]"
      else if strict.getD settings.strict && !verdict.findings.isEmpty then
        Outcome.fail d "[red]✗ Warnings present (strict mode)[/red]"
      else (Outcome.exit d 0).say d "[green]✓ Graph is valid[/green]"
    if verdict.faults.isEmpty && verdict.findings.isEmpty then ending
    else ending.showing d (verdict.panel project.name)

def runVerify (d : Disk) (path : Path) : Outcome :=
  Outcome.say d s!"[cyan]Loading IR from:[/cyan] {path.text}" <|
    match Service.load d path with
    | .ok service => whenConsistent d service (Outcome.exit d 0)
    | .error (.invalid violations) =>
      Outcome.fail d
        s!"[red]✗ Not a valid compiled service ({violations.length} problems)[/red]"
    | .error (.document fault) =>
      if fault.isTooDeep then Outcome.crashed d .document
      else Outcome.fail d s!"[red]✗ Could not read IR:[/red] {escape fault.message}"

def runSchema (d : Disk) (output : Option Path) (indent : Int) : Outcome :=
  match output with
  | none => (Outcome.exit d 0).print (Project.schemaText indent)
  | some path =>
    Outcome.say d s!"[cyan]Writing schema to:[/cyan] {path.text}" <|
      match d.store path (Utf8.encode (Project.schemaText indent)) with
      | (d, none) => (Outcome.exit d 0).say d "[green]✓ Schema generation complete[/green]"
      | (d, some fault) => Outcome.crashed d (.disk fault)

namespace Request

/-- Carries a request out. -/
def run (d : Disk) : Request → Outcome
  | .compile spec output checkService digest => runCompile d spec output checkService digest
  | .check spec strict => runCheck d spec strict
  | .verify service => runVerify d service
  | .schema output indent => runSchema d output indent

end Request

/-- Runs a command line; there is no outcome where it breaks a rule. -/
def runArguments (d : Disk) (args : List String) : Option Outcome :=
  (Request.ofArguments? args).map fun request =>
    if request.paths.any Path.holdsNull then Outcome.crashed d (.disk .nullCharacter)
    else request.run d

end Workflow
