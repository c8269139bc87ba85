/-!
Paths: names between slashes, from the current directory or from the root. Empty names and single
dots are left out when a path is read; two dots are kept, since what they lead to is for the disk to
say.
-/

namespace Workflow

/-- Where a path starts. A path with two slashes in front keeps them. -/
inductive Anchor where
  | here | root | doubleRoot
  deriving DecidableEq, Repr

structure Path where
  anchor : Anchor
  names : List String
  deriving DecidableEq, Repr

namespace Anchor

/-- The anchor of a text with so many slashes in front. -/
def ofSlashes : Nat → Anchor
  | 0 => .here
  | 2 => .doubleRoot
  | _ => .root

def text : Anchor → String
  | .here => ""
  | .root => "/"
  | .doubleRoot => "//"

end Anchor

namespace Path

def here : Path := ⟨.here, []⟩

/-- A text between slashes that counts as a name of a path. -/
def isName (name : String) : Bool := name != "" && name != "."

def ofText (text : String) : Path :=
  let cs := text.toList
  { anchor := .ofSlashes (cs.takeWhile (· == '/')).length
    names := ((cs.splitOn '/').map String.ofList).filter isName }

/-- The path without a name is the current directory. -/
def text (p : Path) : String :=
  if p = here then "." else p.anchor.text ++ "/".intercalate p.names

def isAbsolute (p : Path) : Bool := p.anchor != .here

/-- The path of the directory that holds the path's last name. -/
def parent (p : Path) : Path := { p with names := p.names.dropLast }

/-- A relative path from the directory `p` on; an absolute one stands for itself. -/
def join (p other : Path) : Path :=
  if other.isAbsolute then other else { p with names := p.names ++ other.names }

/-- The part of a name from its last point on, unless the point is its first or last character. -/
def suffixOf (name : List Char) : List Char :=
  let after := name.reverse.takeWhile (· != '.')
  if after = [] ∨ name.length ≤ after.length + 1 then []
  else '.' :: after.reverse

/-- The suffix of the last name. -/
def suffix (p : Path) : String := String.ofList (suffixOf (p.names.getLastD "").toList)

/-- No path of a disk holds the null character. -/
def holdsNull (p : Path) : Bool := p.names.any (·.toList.contains '\x00')

end Path

end Workflow
