import Workflow.Spec.Reading

/-! Bindings of external tools that agents may refer to by their id. -/

namespace Workflow

inductive ToolKind where
  | graph | sharepoint | servicenow | dataverse | rest | mcp
  deriving DecidableEq, Repr

instance : Labelled ToolKind where
  options := [.graph, .sharepoint, .servicenow, .dataverse, .rest, .mcp]
  label
    | .graph => "graph"
    | .sharepoint => "sharepoint"
    | .servicenow => "servicenow"
    | .dataverse => "dataverse"
    | .rest => "rest"
    | .mcp => "mcp"

inductive AuthKind where
  | bearer | oauth2 | apikey | none
  deriving DecidableEq, Repr

instance : Labelled AuthKind where
  options := [.bearer, .oauth2, .apikey, .none]
  label
    | .bearer => "bearer"
    | .oauth2 => "oauth2"
    | .apikey => "apikey"
    | .none => "none"

/-- How a tool's caller makes itself known. -/
structure Auth where
  kind : AuthKind
  credentials : Option (List (String × String))
  deriving DecidableEq

namespace Auth

def shape : Shape :=
  .model "AuthDescriptor" none [
    .mk "type" "type" false (Labelled.shape AuthKind "AuthType" none),
    .mk "credentials" "credentials" true (.tableOf (.text false))]

def ofValue? (v : Value) : Option Auth := do
  let entries ← v.entries?
  some {
    kind := ← entries.required "type" "type" Value.choice?
    credentials := ← entries.optional "credentials" "credentials" (Value.tableOf? Value.string?) }

def toValue (form : Form) (a : Auth) : Value :=
  form.record [
    ("type", Labelled.toValue a.kind),
    ("credentials", a.credentials.map (tableValue Value.text))]

end Auth

structure Tool where
  id : String
  name : String
  kind : ToolKind
  config : Entries
  auth : Option Auth

namespace Tool

def shape : Shape :=
  .model "ToolBinding" (some "A declared external integration that agents may reference by id.") [
    .mk "id" "id" false (.text true),
    .mk "name" "name" false (.text true),
    .mk "kind" "kind" false
      (Labelled.shape ToolKind "ToolKind" (some "External integration family of a tool binding.")),
    .mk "config" "config" false .freeTable,
    .mk "auth" "auth" true Auth.shape]

def ofValue? (v : Value) : Option Tool := do
  let entries ← v.entries?
  some {
    id := ← entries.required "id" "id" Value.nonEmpty?
    name := ← entries.required "name" "name" Value.nonEmpty?
    kind := ← entries.required "kind" "kind" Value.choice?
    config := ← entries.required "config" "config" Value.entries?
    auth := ← entries.optional "auth" "auth" Auth.ofValue? }

def toValue (form : Form) (t : Tool) : Value :=
  form.record [
    ("id", Value.text t.id),
    ("name", Value.text t.name),
    ("kind", Labelled.toValue t.kind),
    ("config", form.freeTable t.config),
    ("auth", t.auth.map (Auth.toValue form))]

end Tool

end Workflow
