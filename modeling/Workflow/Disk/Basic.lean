import Workflow.Disk.Path
import Workflow.Text.Quoted

/-!
A disk: directories and files by their places, and the directory in which a program runs. Paths are
followed name by name, as far as every name before the last leads to a directory. A file is written
as a whole or not at all.
-/

namespace Workflow

/-- The names from the root down. -/
abbrev Place := List String

abbrev Bytes := List UInt8

inductive Node where
  | file (content : Bytes)
  | directory
  deriving DecidableEq, Repr

/-- Every place that holds something; the root is a directory whether listed or not. -/
structure Disk where
  nodes : List (Place × Node)
  here : Place

/-- Why a path cannot be used. -/
inductive DiskProblem where
  | notFound | exists | notDirectory | isDirectory | nameTooLong
  deriving DecidableEq, Repr

namespace DiskProblem

def number : DiskProblem → Nat
  | .notFound => 2
  | .exists => 17
  | .notDirectory => 20
  | .isDirectory => 21
  | .nameTooLong => 36

def text : DiskProblem → String
  | .notFound => "No such file or directory"
  | .exists => "File exists"
  | .notDirectory => "Not a directory"
  | .isDirectory => "Is a directory"
  | .nameTooLong => "File name too long"

end DiskProblem

/-- A problem with a path, or a path that no disk can hold. -/
inductive DiskFault where
  | refused (problem : DiskProblem) (path : Path)
  | nullCharacter
  deriving DecidableEq, Repr

def DiskFault.message : DiskFault → String
  | .refused problem path => s!"[Errno {problem.number}] {problem.text}: {quoted path.text}"
  | .nullCharacter => "embedded null byte"

namespace Disk

def node? (d : Disk) (place : Place) : Option Node :=
  if place = [] then some .directory else d.nodes.lookup place

/-- What is at a place is replaced; a new place comes last. -/
def setNode : List (Place × Node) → Place → Node → List (Place × Node)
  | [], place, node => [(place, node)]
  | (p, n) :: rest, place, node =>
    if p = place then (place, node) :: rest else (p, n) :: setNode rest place node

def set (d : Disk) (place : Place) (node : Node) : Disk :=
  { d with nodes := setNode d.nodes place node }

/-- The longest name of a file, in bytes. -/
def nameLimit : Nat := 255

/-- The place that names lead to from a place on. The place itself may hold nothing. -/
def follow (d : Disk) : Place → List String → Except DiskProblem Place
  | place, [] => .ok place
  | place, name :: rest =>
    match d.node? place with
    | none => .error .notFound
    | some (.file _) => .error .notDirectory
    | some .directory =>
      if name = ".." then d.follow place.dropLast rest
      else if nameLimit < name.utf8ByteSize then .error .nameTooLong
      else d.follow (place ++ [name]) rest

def place (d : Disk) (path : Path) : Except DiskProblem Place :=
  d.follow (if path.isAbsolute then [] else d.here) path.names

/-- A use of the place that a path leads to. A problem names the path. -/
def usePlace {α : Type} (d : Disk) (path : Path)
    (action : Place → Option Node → Except DiskProblem α) : Except DiskFault α :=
  if path.holdsNull then .error .nullCharacter
  else
    ((d.place path).bind fun place => action place (d.node? place)).mapError (.refused · path)

/-! ## Files -/

def read (d : Disk) (path : Path) : Except DiskFault Bytes :=
  d.usePlace path fun _ node =>
    match node with
    | some (.file content) => .ok content
    | some .directory => .error .isDirectory
    | none => .error .notFound

def write (d : Disk) (path : Path) (content : Bytes) : Except DiskFault Disk :=
  d.usePlace path fun place node =>
    match node with
    | some .directory => .error .isDirectory
    | _ => .ok (d.set place (.file content))

def isFileAt (d : Disk) (place : Place) : Bool :=
  match d.node? place with
  | some (.file _) => true
  | _ => false

/-! ## Directories -/

def isDirectory (d : Disk) (path : Path) : Bool :=
  match d.place path with
  | .ok place => d.node? place = some .directory
  | .error _ => false

def makeDirectory (d : Disk) (path : Path) : Except DiskFault Disk :=
  d.usePlace path fun place node =>
    match node with
    | some _ => .error .exists
    | none => .ok (d.set place .directory)

/-- A directory that is there already is no fault. -/
def excuse (d : Disk) (path : Path) : DiskFault → Option DiskFault
  | .nullCharacter => some .nullCharacter
  | .refused problem p =>
    if problem ≠ .notFound ∧ d.isDirectory path then none else some (.refused problem p)

/-- Makes the directory of reversed names from an anchor on, after those above it where they are
missing. Directories that were made stay when a later one cannot be made. -/
def makeReversed (d : Disk) (anchor : Anchor) : List String → Disk × Option DiskFault
  | [] =>
    let path : Path := ⟨anchor, []⟩
    match d.makeDirectory path with
    | .ok d => (d, none)
    | .error fault => (d, d.excuse path fault)
  | name :: above =>
    let path : Path := ⟨anchor, (name :: above).reverse⟩
    match d.makeDirectory path with
    | .ok d => (d, none)
    | .error (.refused .notFound _) =>
      match d.makeReversed anchor above with
      | (d, some fault) => (d, some fault)
      | (d, none) =>
        match d.makeDirectory path with
        | .ok d => (d, none)
        | .error fault => (d, d.excuse path fault)
    | .error fault => (d, d.excuse path fault)

/-- Makes the directory at a path and all that is missing above it. -/
def makeDirectories (d : Disk) (path : Path) : Disk × Option DiskFault :=
  d.makeReversed path.anchor path.names.reverse

/-- Writes a file after making the directories above it. -/
def store (d : Disk) (path : Path) (content : Bytes) : Disk × Option DiskFault :=
  match d.makeDirectories path.parent with
  | (d, some fault) => (d, some fault)
  | (d, none) =>
    match d.write path content with
    | .ok d => (d, none)
    | .error fault => (d, some fault)

end Disk

end Workflow
