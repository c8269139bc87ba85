import Workflow.Document

/-!
Settings of a directory: the `tool.agentfactory` table of the project file that is nearest to it,
in the directory itself or above. Relative paths in the table start at the project file.
-/

namespace Workflow

/-- What a project file may set. Without a project file there is no project root. -/
structure Settings where
  spec : Option Path
  output : Option Path
  strict : Bool
  checkService : Bool
  projectRoot : Option Path
  deriving DecidableEq, Repr

/-- Why a project file gives no settings. -/
inductive SettingsFault where
  | disk (fault : DiskFault)
  | encoding (refusal : Utf8.Refusal)
  | malformed (path : Path) (refusal : Toml.Refusal)
  | toolNotTable (found : Value)
  | sectionNotTable
  | notPath (key : String)
  | notBoolean (key : String)

namespace SettingsFault

/-- The document is refused by a limit of numbers or nesting and not by the rules of TOML. -/
def isLimit (refusal : Toml.Refusal) : Bool :=
  match refusal.problem with
  | .tooManyDigits _ | .tooDeep => true
  | _ => false

/-- The fault is one of the settings and not of the file. -/
def isConfiguration : SettingsFault → Bool
  | .malformed _ refusal => !isLimit refusal
  | .sectionNotTable | .notPath _ | .notBoolean _ => true
  | .disk _ | .encoding _ | .toolNotTable _ => false

def message : SettingsFault → String
  | .disk fault => fault.message
  | .encoding refusal => refusal.message
  | .malformed path refusal =>
    if isLimit refusal then refusal.message
    else s!"Invalid TOML in {path.text}: {refusal.message}"
  | .toolNotTable found => s!"'{found.kindName}' object has no attribute 'get'"
  | .sectionNotTable => "Invalid [tool.agentfactory] configuration: expected a table"
  | .notPath key => s!"Invalid [tool.agentfactory].{key}: expected string path"
  | .notBoolean key => s!"Invalid [tool.agentfactory].{key}: expected boolean"

end SettingsFault

namespace Settings

/-- What holds where nothing is set. -/
def empty (projectRoot : Option Path) : Settings := ⟨none, none, false, false, projectRoot⟩

/-! ## Finding the project file -/

def fileName : String := "pyproject.toml"

/-- The place that names lead to from a place on, by the names alone. -/
def settle : Place → List String → Place
  | place, [] => place
  | place, name :: rest =>
    if name = ".." then settle place.dropLast rest else settle (place ++ [name]) rest

/-- The place of a directory, whether it is there or not. -/
def startPlace (d : Disk) (start : Path) : Place :=
  settle (if start.isAbsolute then [] else d.here) start.names

/-- A place given by reversed names, and all above it, the nearest first. -/
def placesUp : List String → List Place
  | [] => [[]]
  | name :: above => (name :: above).reverse :: placesUp above

/-- The nearest project file, seen from a directory. A directory of that name is passed over. -/
def find? (d : Disk) (start : Path) : Option Path :=
  let candidates := (placesUp (startPlace d start).reverse).map (· ++ [fileName])
  (candidates.find? d.isFileAt).map fun place => ⟨.root, place⟩

/-! ## Reading the project file -/

def path? (root : Path) (table : Entries) (key : String) : Except SettingsFault (Option Path) :=
  match table.lookup key with
  | none => .ok none
  | some (.text s) => .ok (some (root.join (Path.ofText s)))
  | some _ => .error (.notPath key)

def flag (table : Entries) (key : String) : Except SettingsFault Bool :=
  match table.lookup key with
  | none => .ok false
  | some (.bool b) => .ok b
  | some _ => .error (.notBoolean key)

/-- The settings of a section. Of several faults the first one is reported. -/
def ofSection (root : Path) (table : Entries) : Except SettingsFault Settings := do
  let spec ← path? root table "spec"
  let output ← path? root table "output"
  let strict ← flag table "strict"
  let checkService ← flag table "check_ir"
  .ok ⟨spec, output, strict, checkService, some root⟩

/-- The settings of a project document. A section that is vacant sets nothing. -/
def ofDocument (root : Path) (document : Entries) : Except SettingsFault Settings :=
  match document.lookup "tool" with
  | none => .ok (empty (some root))
  | some (.table tools) =>
    match tools.lookup "agentfactory" with
    | none => .ok (empty (some root))
    | some (.table entries) =>
      if entries.isEmpty then .ok (empty (some root)) else ofSection root entries
    | some other => if other.isVacant then .ok (empty (some root)) else .error .sectionNotTable
  | some other => .error (.toolNotTable other)

def load (d : Disk) (path : Path) : Except SettingsFault Settings := do
  let content ← (d.read path).mapError .disk
  let text ← (Utf8.decode content).mapError .encoding
  let document ← (Toml.read text).mapError (.malformed path)
  ofDocument path.parent document

/-- The settings that hold in a disk's current directory. -/
def ofDisk (d : Disk) : Except SettingsFault Settings :=
  match find? d .here with
  | none => .ok (empty none)
  | some path => load d path

end Settings

end Workflow
