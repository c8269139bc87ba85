import Workflow.Json.Printer
import Workflow.Service.Basic
import Workflow.Text.Sha256
import Workflow.Text.Utf8
import Workflow.Value.Digits

/-!
The canonical text of a service and its digest. The wire form leaves out fields that are not set;
the canonical text is the wire form as compact JSON with ascending keys. There is no text of what is
nested too deeply, nor of an integer with too many digits.
-/

namespace Workflow

/-- Why a wire form is not written out. -/
inductive WriteFault where
  | tooDeep
  | tooManyDigits
  deriving DecidableEq, Repr

def WriteFault.message : WriteFault → String
  | .tooDeep => "Maximum serialization depth exceeded"
  | .tooManyDigits =>
    s!"Exceeds the limit ({Json.digitLimit} digits) for integer string conversion; " ++
      "use sys.set_int_max_str_digits() to increase the limit"

/-- What keeps a wire form with some free tables from being written out. The levels of the tables
count first, since the text is made of the whole wire form. -/
def writeFault? (freeTables : List Entries) (wire : Value) : Option WriteFault :=
  if !writable freeTables then some .tooDeep
  else if wire.digitsFit then none
  else some .tooManyDigits

namespace Service

def wire (s : Service) : Value := s.toValue .wire

def canonical (s : Service) : String := Json.canonical s.wire

/-- The content address of a service: the SHA-256 digest of the canonical text in UTF-8. -/
def digest (s : Service) : String :=
  "sha256:" ++ String.ofList (Sha256.digest (Utf8.encode s.canonical))

/-- No free table is too deep to be written out. -/
def isWritable (s : Service) : Bool := writable s.freeTables

/-- What keeps the service from having a canonical text. -/
def writeFault? (s : Service) : Option WriteFault := Workflow.writeFault? s.freeTables s.wire

/-- The canonical text, unless a free table is too deep or an integer too long to be written out. -/
def canonical? (s : Service) : Option String :=
  if s.isWritable && s.wire.digitsFit then some s.canonical else none

end Service

end Workflow
