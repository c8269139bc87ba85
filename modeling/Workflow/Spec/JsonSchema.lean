import Workflow.Json.Printer
import Workflow.Spec.Project

/-!
The JSON schema of a shape. Models and choices are definitions of their own, in ascending order of
their names, and every other place refers to them. Keywords are in ascending order, and properties
in the order of their declaration.
-/

namespace Workflow

namespace Range

/-- The keywords for the bounds of a number. -/
def bounds : Range → Entries
  | .any => []
  | .positive => [("exclusiveMinimum", .int 0)]
  | .unit => [("maximum", .int 1), ("minimum", .int 0)]

end Range

namespace Shape

def ofKind (kind : String) : String × Value := ("type", .text kind)

def reference (name : String) : Entries := [("$ref", .text ("#/$defs/" ++ name))]

/-- A schema that any of several schemas satisfies. -/
def anyOf : List Entries → Entries
  | [only] => only
  | options => [("anyOf", .list (options.map .table))]

/-- The schemas of which a value of the shape satisfies one. -/
def options : Shape → List Entries
  | .text true => [[("minLength", .int 1), ofKind "string"]]
  | .text false | .timestamp => [[ofKind "string"]]
  | .choice name _ _ => [reference name]
  | .count => [Range.positive.bounds ++ [ofKind "integer"]]
  | .number range => [range.bounds ++ [ofKind "integer"], range.bounds ++ [ofKind "number"]]
  | .freeTable => [[("additionalProperties", .bool true), ofKind "object"]]
  | .tableOf entry => [[("additionalProperties", .table (anyOf entry.options)), ofKind "object"]]
  | .listOf item => [[("items", .table (anyOf item.options)), ofKind "array"]]
  | .model name _ _ => [reference name]

/-- A shape whose definition brings its own title. -/
def isDefined : Shape → Bool
  | .choice .. | .model .. => true
  | _ => false

end Shape

namespace Field

/-- A capital letter and then small ones. -/
def titleOf (wireName : String) : String :=
  match wireName.toList with
  | [] => ""
  | c :: rest => String.ofList (c.toUpper :: rest.map Char.toLower)

/-- The schema of a field under its wire name. A field that may be left out is `null` by default. -/
def property : Field → String × Value
  | .mk _ wireName optional shape =>
    let options := if optional then shape.options ++ [[Shape.ofKind "null"]] else shape.options
    let title : Entries := if shape.isDefined then [] else [("title", .text (titleOf wireName))]
    let default : Entries := if optional then [("default", .null)] else []
    (wireName, .table (Value.sortEntries (Shape.anyOf options ++ default ++ title)))

def requiredName? : Field → Option String
  | .mk _ wireName optional _ => if optional then none else some wireName

end Field

namespace Shape

def describe (summary : Option String) : Entries :=
  match summary with
  | none => []
  | some s => [("description", .text s)]

/-- The schema of a model without the definitions that it refers to. -/
def modelSchema (name : String) (summary : Option String) (fields : List Field) : Entries :=
  let required := fields.filterMap Field.requiredName?
  describe summary ++ [("properties", .table (fields.map Field.property))] ++
    (if required = [] then [] else [("required", Value.texts required)]) ++
    [("title", .text name), ofKind "object"]

mutual
/-- The definitions that a schema of the shape refers to, as often as it does. -/
def definitions : Shape → Entries
  | .choice name summary options =>
    [(name, .table (describe summary ++
      [("enum", Value.texts options), ("title", .text name), ofKind "string"]))]
  | .tableOf entry => entry.definitions
  | .listOf item => item.definitions
  | .model name summary fields =>
    (name, .table (modelSchema name summary fields)) :: definitionsOfFields fields
  | _ => []
def definitionsOfFields : List Field → Entries
  | [] => []
  | .mk _ _ _ shape :: rest => shape.definitions ++ definitionsOfFields rest
end

/-- The schema of a document of the shape. -/
def schema : Shape → Value
  | .model name summary fields =>
    let definitions := (definitionsOfFields fields).foldl
      (fun found (name, definition) => Entries.put found name definition) []
    .table (("$defs", .table (Value.sortEntries definitions)) :: modelSchema name summary fields)
  | shape => .table (anyOf shape.options)

end Shape

/-- The schema of project documents, as indented text in ASCII. -/
def Project.schemaText (indent : Int) : String :=
  Json.text (Json.indentedStyle indent true) Project.shape.schema

end Workflow
