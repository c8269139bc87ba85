import Workflow.Command.Run

/-!
The command line. The places that a command may look at are read into a disk, the command runs on
that disk, and what it changed is written back.
-/

namespace Workflow

def systemPath (place : Place) : String := "/" ++ "/".intercalate place

/-- What the file system has at a place inside a directory. -/
def nodeAt (place : Place) : IO (Option Node) := do
  try
    let content ← IO.FS.readBinFile (systemPath place)
    return some (.file content.toList)
  catch
    | .inappropriateType .. | .illegalOperation .. => return some .directory
    | _ => return none

/-- Reads what names lead to from a place on, and all on the way. -/
def survey (d : Disk) (place : Place) : List String → IO Disk
  | [] => return d
  | name :: rest => do
    if name = ".." then survey d place.dropLast rest
    else
      let place := place ++ [name]
      match ← nodeAt place with
      | some .directory => survey (d.set place .directory) place rest
      | some node => return d.set place node
      | none => return d

def surveyPath (d : Disk) (path : Path) : IO Disk :=
  survey d [] (if path.isAbsolute then path.names else d.here ++ path.names)

/-- The disk with the current directory and the project files above it. -/
def surveyHere : IO Disk := do
  let here := (Path.ofText (← IO.currentDir).toString).names
  let candidates := (Settings.placesUp here.reverse).map (· ++ [Settings.fileName])
  candidates.foldlM (fun d place => survey d [] place) ⟨[], here⟩

/-- The paths that the settings of a disk name. -/
def settingsPaths (d : Disk) : List Path :=
  match Settings.ofDisk d with
  | .ok settings => settings.spec.toList ++ settings.output.toList
  | .error _ => []

/-- Writes what one disk has and the other one does not. -/
def writeChanges (before after : Disk) : IO Unit :=
  after.nodes.forM fun (place, node) => do
    if before.node? place ≠ some node then
      match node with
      | .directory => IO.FS.createDir (systemPath place)
      | .file content => IO.FS.writeBinFile (systemPath place) ⟨content.toArray⟩

def Crash.message : Crash → String
  | .markup fault => fault.message
  | .settings fault => fault.message
  | .disk fault => fault.message
  | .document => "A document is nested too deeply"
  | .value fault => fault.message

def perform (request : Request) : IO UInt32 := do
  let d ← surveyHere
  let d ← (request.paths ++ settingsPaths d).foldlM surveyPath d
  let outcome := request.run d
  writeChanges d outcome.disk
  IO.print outcome.output
  (outcome.notices.flatMap Notice.lines).forM fun line => IO.eprintln line
  match outcome.ending with
  | .exit code => return code.toUInt32
  | .crash crash =>
    IO.eprintln crash.message
    return 1

end Workflow

def main (args : List String) : IO UInt32 := do
  match Workflow.Request.ofArguments? args with
  | some request => Workflow.perform request
  | none =>
    IO.eprintln "Usage: workflow [compile | check | verify | schema] [OPTIONS] [PATH]"
    return 2
