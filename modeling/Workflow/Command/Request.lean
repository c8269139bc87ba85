import Workflow.Disk.Path
import Workflow.Number.Decimal

/-!
What a command line asks for. Options may stand before and after other arguments; two dashes end
them, and of an option that is given several times the last one counts.
-/

namespace Workflow

inductive Request where
  | compile (spec output : Option Path) (checkService : Option Bool) (digest : Bool)
  | check (spec : Option Path) (strict : Option Bool)
  | verify (service : Path)
  | schema (output : Option Path) (indent : Int)
  deriving DecidableEq, Repr

/-! ## Options -/

/-- What an option of a command sets: a flag, or a value that follows. -/
inductive OptionEffect where
  | flag (name : String) (on : Bool)
  | value (name : String)
  deriving DecidableEq, Repr

/-- The options of a command by their spelling. -/
abbrev OptionTable := List (String × OptionEffect)

/-- The arguments of a command, sorted out: the values and flags that are given, the last one
first, and the other arguments in order. -/
structure Arguments where
  values : List (String × String)
  flags : List (String × Bool)
  others : List String
  deriving DecidableEq, Repr

namespace Arguments

def none : Arguments := ⟨[], [], []⟩

def setValue (a : Arguments) (name value : String) : Arguments :=
  { a with values := (name, value) :: a.values }

def setFlag (a : Arguments) (name : String) (on : Bool) : Arguments :=
  { a with flags := (name, on) :: a.flags }

def add (a : Arguments) (arg : String) : Arguments := { a with others := a.others ++ [arg] }

end Arguments

/-- What an argument that starts with a dash turns out to be. -/
inductive Spelling where
  | flag (name : String) (on : Bool)
  | valued (name value : String)
  /-- The value is the next argument. -/
  | awaiting (name : String)
  | unknown
  deriving DecidableEq, Repr

/-- A long option, whose value may follow after an equals sign. A flag takes no value. -/
def spellLong (options : OptionTable) (arg : String) : Spelling :=
  let cs := arg.toList
  let name := String.ofList (cs.takeWhile (· != '='))
  match options.lookup name, cs.dropWhile (· != '=') with
  | some (.flag name on), [] => .flag name on
  | some (.value name), [] => .awaiting name
  | some (.value name), _ :: value => .valued name (String.ofList value)
  | _, _ => .unknown

/-- A short option, whose value may follow directly. -/
def spellShort (options : OptionTable) (letter : Char) (rest : List Char) : Spelling :=
  match options.lookup (String.ofList ['-', letter]), rest with
  | some (.flag name on), [] => .flag name on
  | some (.value name), [] => .awaiting name
  | some (.value name), value => .valued name (String.ofList value)
  | _, _ => .unknown

/-- What an argument is, unless it is none of the options. -/
def spell? (options : OptionTable) (arg : String) : Option Spelling :=
  match arg.toList with
  | '-' :: '-' :: _ => some (spellLong options arg)
  | '-' :: letter :: rest => some (spellShort options letter rest)
  | _ => none

/-- Sorts arguments out; there is nothing to give where an option is not known, has a value that it
does not take or has none that it takes. -/
def sortArguments (options : OptionTable) (a : Arguments) : List String → Option Arguments
  | [] => some a
  | "--" :: rest => some { a with others := a.others ++ rest }
  | arg :: rest =>
    match spell? options arg with
    | none => sortArguments options (a.add arg) rest
    | some (.flag name on) => sortArguments options (a.setFlag name on) rest
    | some (.valued name value) => sortArguments options (a.setValue name value) rest
    | some (.awaiting name) =>
      match rest with
      | value :: rest => sortArguments options (a.setValue name value) rest
      | [] => none
    | some .unknown => none

/-! ## Integers -/

/-- Digits, with single underscores between them where there are any. -/
def digitsOf? : List Char → Option (List Char)
  | [c] => if c.isDigit then some [c] else none
  | c :: '_' :: rest => if c.isDigit then (digitsOf? rest).map (c :: ·) else none
  | c :: rest => if c.isDigit then (digitsOf? rest).map (c :: ·) else none
  | [] => none

def isPadding (c : Char) : Bool := c.isWhitespace || c == '\x0b' || c == '\x0c'

/-- An integer with or without a sign, and blanks around it. -/
def integerOf? (text : String) : Option Int :=
  let cs := ((text.toList.dropWhile isPadding).reverse.dropWhile isPadding).reverse
  match cs with
  | '-' :: rest => (digitsOf? rest).map fun digits => -(ofDigits digits : Int)
  | '+' :: rest => (digitsOf? rest).map fun digits => ofDigits digits
  | rest => (digitsOf? rest).map fun digits => ofDigits digits

/-! ## Commands -/

namespace Request

def outputOptions : OptionTable := [("-o", .value "output"), ("--output", .value "output")]

def compileOptions : OptionTable :=
  outputOptions ++ [("--check-ir", .flag "check" true), ("--no-check-ir", .flag "check" false),
    ("--digest", .flag "digest" true)]

def checkOptions : OptionTable :=
  [("--strict", .flag "strict" true), ("--no-strict", .flag "strict" false)]

def schemaOptions : OptionTable := outputOptions ++ [("--indent", .value "indent")]

def pathAt? (a : Arguments) (name : String) : Option Path := (a.values.lookup name).map Path.ofText

/-- One argument at most. -/
def optionalPath (others : List String) : Option (Option Path) :=
  match others with
  | [] => some none
  | [arg] => some (some (Path.ofText arg))
  | _ => none

def ofCompile? (args : List String) : Option Request := do
  let a ← sortArguments compileOptions .none args
  let spec ← optionalPath a.others
  some (.compile spec (pathAt? a "output") (a.flags.lookup "check")
    ((a.flags.lookup "digest").getD false))

def ofCheck? (args : List String) : Option Request := do
  let a ← sortArguments checkOptions .none args
  let spec ← optionalPath a.others
  some (.check spec (a.flags.lookup "strict"))

def ofVerify? (args : List String) : Option Request := do
  let a ← sortArguments [] .none args
  match a.others with
  | [arg] => some (.verify (Path.ofText arg))
  | _ => none

def ofSchema? (args : List String) : Option Request := do
  let a ← sortArguments schemaOptions .none args
  let indent ← match a.values.lookup "indent" with
    | none => some 2
    | some text => integerOf? text
  match a.others with
  | [] => some (.schema (pathAt? a "output") indent)
  | _ => none

def ofCommand? (name : String) (args : List String) : Option Request :=
  match name with
  | "compile" => ofCompile? args
  | "check" => ofCheck? args
  | "verify" => ofVerify? args
  | "schema" => ofSchema? args
  | _ => none

/-- The request of a command line: a command and its arguments, after options that hold for every
command. There is none where the command line breaks a rule. -/
def ofArguments? : List String → Option Request
  | [] => none
  | "--verbose" :: rest => ofArguments? rest
  | "--no-verbose" :: rest => ofArguments? rest
  | "--" :: name :: args => ofCommand? name args
  | name :: args => ofCommand? name args

/-- The paths that a request names. -/
def paths : Request → List Path
  | .compile spec output _ _ => spec.toList ++ output.toList
  | .check spec _ => spec.toList
  | .verify service => [service]
  | .schema output _ => output.toList

end Request

end Workflow
