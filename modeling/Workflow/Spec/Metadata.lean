import Workflow.Spec.Reading

/-! What is kept about a project beside its graph: when, by whom, and where its nodes are drawn. -/

namespace Workflow

/-- A place in a drawing. -/
structure Position where
  x : Number
  y : Number
  deriving DecidableEq

namespace Position

def shape : Shape :=
  .model "NodePosition" none [
    .mk "x" "x" false (.number .any),
    .mk "y" "y" false (.number .any)]

def ofValue? (v : Value) : Option Position := do
  let entries ← v.entries?
  some {
    x := ← entries.required "x" "x" (Value.number? .any)
    y := ← entries.required "y" "y" (Value.number? .any) }

def toValue (form : Form) (p : Position) : Value :=
  form.record [("x", p.x.toValue), ("y", p.y.toValue)]

end Position

/-- The two timestamps are kept as they are written. -/
structure Metadata where
  createdAt : String
  updatedAt : String
  author : Option String
  tags : Option (List String)
  nodePositions : Option (List (String × Position))
  deriving DecidableEq

namespace Metadata

def shape : Shape :=
  .model "SpecMetadata" none [
    .mk "created_at" "createdAt" false .timestamp,
    .mk "updated_at" "updatedAt" false .timestamp,
    .mk "author" "author" true (.text false),
    .mk "tags" "tags" true (.listOf (.text false)),
    .mk "node_positions" "nodePositions" true (.tableOf Position.shape)]

def ofValue? (v : Value) : Option Metadata := do
  let entries ← v.entries?
  some {
    createdAt := ← entries.required "created_at" "createdAt" Value.timestamp?
    updatedAt := ← entries.required "updated_at" "updatedAt" Value.timestamp?
    author := ← entries.optional "author" "author" Value.string?
    tags := ← entries.optional "tags" "tags" (Value.listOf? Value.string?)
    nodePositions := ←
      entries.optional "node_positions" "nodePositions" (Value.tableOf? Position.ofValue?) }

def toValue (form : Form) (m : Metadata) : Value :=
  form.record [
    ("createdAt", Value.text m.createdAt),
    ("updatedAt", Value.text m.updatedAt),
    ("author", m.author.map Value.text),
    ("tags", m.tags.map Value.texts),
    ("nodePositions", m.nodePositions.map (tableValue (Position.toValue form)))]

end Metadata

end Workflow
