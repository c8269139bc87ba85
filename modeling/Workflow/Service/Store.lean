import Workflow.Document
import Workflow.Service.Canonical
import Workflow.Toml.Obstacle

/-!
Services on a disk. A service is exported as its wire form, as indented JSON with ascending keys or
as TOML, which has no nulls: table entries that are `null` are left out. Nothing is written, and no
directory is made, unless the whole text is there.
-/

namespace Workflow

/-- Why a service is not exported. -/
inductive ExportFault where
  | tooDeep
  | tooManyDigits
  | nullItem
  | format (path : Path)
  | disk (fault : DiskFault)
  deriving DecidableEq, Repr

def ExportFault.message : ExportFault → String
  | .tooDeep => WriteFault.message .tooDeep
  | .tooManyDigits => WriteFault.message .tooManyDigits
  | .nullItem => "Object of type 'NoneType' is not TOML serializable"
  | .format path => path.formatMessage
  | .disk fault => fault.message

def ExportFault.ofObstacle : Toml.Obstacle → ExportFault
  | .nullItem => .nullItem
  | .longInteger => .tooManyDigits

/-- Why a file does not give a service. -/
inductive LoadFault where
  | document (fault : DocumentFault)
  | invalid (violations : List Violation)

namespace Service

/-- Indented JSON text with ascending keys and a line break at its end. -/
def jsonText (s : Service) (indent : Int) : String :=
  Json.text (Json.indentedStyle indent false) s.wire.sorted ++ "\n"

/-- TOML text without the nulls of the wire form's tables. -/
def tomlText (s : Service) : Except ExportFault String :=
  match s.wire.dropNulls with
  | .table entries => (Toml.write entries).mapError .ofObstacle
  | _ => .error .nullItem

/-- A text of the service, unless it holds an integer that is too long. -/
def ifDigitsFit (s : Service) (text : String) : Except ExportFault String :=
  if s.wire.digitsFit then .ok text else .error .tooManyDigits

/-- The text that is written to a path. -/
def exportText (s : Service) (path : Path) (indent : Int) : Except ExportFault String :=
  if !s.isWritable then .error .tooDeep
  else
    match path.format? with
    | some .json => s.ifDigitsFit (s.jsonText indent)
    | some .toml => s.tomlText
    | none => .error (.format path)

/-- Writes the service to a path, after making the directories above it. -/
def store (s : Service) (d : Disk) (path : Path) (indent : Int) : Disk × Option ExportFault :=
  match s.exportText path indent with
  | .error fault => (d, some fault)
  | .ok text =>
    let (d, fault) := d.store path (Utf8.encode text)
    (d, fault.map .disk)

/-- The service of a file. -/
def load (d : Disk) (path : Path) : Except LoadFault Service :=
  match Document.load d path with
  | .error fault => .error (.document fault)
  | .ok entries => (Service.read (.table entries)).mapError .invalid

end Service

end Workflow
