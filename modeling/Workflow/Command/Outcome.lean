import Workflow.Disk.Basic
import Workflow.Service.Canonical
import Workflow.Settings
import Workflow.Text.Markup

/-!
What a command leaves: its ending, its output, the notices for whoever runs it, and the disk. A
command is put together from its end: each step shows a notice in front of what comes after it.
-/

namespace Workflow

/-- A fault that a command does not expect and that ends it without an exit code. -/
inductive Crash where
  | markup (fault : Markup.Fault)
  | settings (fault : SettingsFault)
  | disk (fault : DiskFault)
  /-- A document is nested too deeply to be read. -/
  | document
  /-- A service, or a part of it, cannot be written out. -/
  | value (fault : WriteFault)

inductive Ending where
  | exit (code : Nat)
  | crash (crash : Crash)

/-- A notice is a line, or a panel with a title, rows of cells and maybe a footer. -/
inductive Notice where
  | line (text : String)
  | panel (title : String) (rows : List (List String)) (footer : Option String)
  deriving DecidableEq, Repr

namespace Notice

/-- The lines of a row, each line of a cell beside the same line of the others. -/
def rowLines (cells : List String) : List String :=
  let columns := cells.map (·.splitOn "\n")
  let height := columns.foldl (fun n column => max n column.length) 0
  (List.range height).map fun i => " ".intercalate (columns.map (·.getD i ""))

/-- A title stands on one line. -/
def oneLine (text : String) : String := text.map fun c => if c = '\n' then ' ' else c

def lines : Notice → List String
  | .line text => text.splitOn "\n"
  | .panel title rows footer =>
    oneLine title :: rows.flatMap rowLines ++ (footer.map oneLine).toList

end Notice

structure Outcome where
  ending : Ending
  output : String
  notices : List Notice
  disk : Disk

namespace Outcome

def exit (d : Disk) (code : Nat) : Outcome := ⟨.exit code, "", [], d⟩

def crashed (d : Disk) (crash : Crash) : Outcome := ⟨.crash crash, "", [], d⟩

/-- Shows a notice before the rest; marked text that cannot be shown ends the command, on the disk
`d` that it has so far. -/
def showing (d : Disk) (notice : Except Markup.Fault Notice) (rest : Outcome) : Outcome :=
  match notice with
  | .ok notice => { rest with notices := notice :: rest.notices }
  | .error fault => crashed d (.markup fault)

/-- Shows a line of marked text before the rest. -/
def say (d : Disk) (marked : String) (rest : Outcome) : Outcome :=
  rest.showing d ((Markup.plain marked).map .line)

/-- Writes a line to the output before the rest. -/
def print (text : String) (rest : Outcome) : Outcome :=
  { rest with output := text ++ "\n" ++ rest.output }

end Outcome

/-- The panel of marked texts. -/
def Notice.ofMarked (title : String) (rows : List (List String)) (footer : Option String) :
    Except Markup.Fault Notice := do
  let title ← Markup.plain title
  let rows ← rows.mapM (·.mapM Markup.plain)
  let footer ← footer.mapM Markup.plain
  .ok (.panel title rows footer)

end Workflow
