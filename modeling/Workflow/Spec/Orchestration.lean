import Workflow.Spec.Agent
import Workflow.Spec.Tool

/-! The graph of a project: agents, tools and gates as nodes, and the edges between them. -/

namespace Workflow

inductive GateKind where
  | approval | condition | merge | split
  deriving DecidableEq, Repr

instance : Labelled GateKind where
  options := [.approval, .condition, .merge, .split]
  label
    | .approval => "approval"
    | .condition => "condition"
    | .merge => "merge"
    | .split => "split"

inductive MergeStrategy where
  | all | any | majority
  deriving DecidableEq, Repr

instance : Labelled MergeStrategy where
  options := [.all, .any, .majority]
  label
    | .all => "all"
    | .any => "any"
    | .majority => "majority"

/-- A decision between nodes. -/
structure Gate where
  id : String
  kind : GateKind
  condition : Option String
  approvers : Option (List String)
  mergeStrategy : Option MergeStrategy
  deriving DecidableEq

namespace Gate

def shape : Shape :=
  .model "Gate" none [
    .mk "id" "id" false (.text true),
    .mk "type" "type" false
      (Labelled.shape GateKind "GateType" (some "Decision gate behaviour.")),
    .mk "condition" "condition" true (.text false),
    .mk "approvers" "approvers" true (.listOf (.text false)),
    .mk "merge_strategy" "mergeStrategy" true
      (Labelled.shape MergeStrategy "MergeStrategy" none)]

def ofValue? (v : Value) : Option Gate := do
  let entries ← v.entries?
  some {
    id := ← entries.required "id" "id" Value.nonEmpty?
    kind := ← entries.required "type" "type" Value.choice?
    condition := ← entries.optional "condition" "condition" Value.string?
    approvers := ← entries.optional "approvers" "approvers" (Value.listOf? Value.string?)
    mergeStrategy := ← entries.optional "merge_strategy" "mergeStrategy" Value.choice? }

def toValue (form : Form) (g : Gate) : Value :=
  form.record [
    ("id", Value.text g.id),
    ("type", Labelled.toValue g.kind),
    ("condition", g.condition.map Value.text),
    ("approvers", g.approvers.map Value.texts),
    ("mergeStrategy", g.mergeStrategy.map Labelled.toValue)]

end Gate

structure Edge where
  id : String
  source : String
  target : String
  condition : Option String
  label : Option String
  deriving DecidableEq

namespace Edge

def shape : Shape :=
  .model "Edge" none [
    .mk "id" "id" false (.text true),
    .mk "source" "source" false (.text true),
    .mk "target" "target" false (.text true),
    .mk "condition" "condition" true (.text false),
    .mk "label" "label" true (.text false)]

def ofValue? (v : Value) : Option Edge := do
  let entries ← v.entries?
  some {
    id := ← entries.required "id" "id" Value.nonEmpty?
    source := ← entries.required "source" "source" Value.nonEmpty?
    target := ← entries.required "target" "target" Value.nonEmpty?
    condition := ← entries.optional "condition" "condition" Value.string?
    label := ← entries.optional "label" "label" Value.string? }

def toValue (form : Form) (e : Edge) : Value :=
  form.record [
    ("id", Value.text e.id),
    ("source", Value.text e.source),
    ("target", Value.text e.target),
    ("condition", e.condition.map Value.text),
    ("label", e.label.map Value.text)]

/-- The node that the edge leaves and the node that it enters. -/
def ends (e : Edge) : String × String := (e.source, e.target)

end Edge

structure Orchestration where
  id : String
  name : String
  agents : List Agent
  tools : List Tool
  gates : List Gate
  edges : List Edge
  startNode : String
  outputs : List String

namespace Orchestration

def shape : Shape :=
  .model "Orchestration" (some "The graph portion of a project spec.") [
    .mk "id" "id" false (.text true),
    .mk "name" "name" false (.text true),
    .mk "agents" "agents" false (.listOf Agent.shape),
    .mk "tools" "tools" false (.listOf Tool.shape),
    .mk "gates" "gates" false (.listOf Gate.shape),
    .mk "edges" "edges" false (.listOf Edge.shape),
    .mk "start_node" "startNode" false (.text true),
    .mk "outputs" "outputs" false (.listOf (.text false))]

def ofValue? (v : Value) : Option Orchestration := do
  let entries ← v.entries?
  some {
    id := ← entries.required "id" "id" Value.nonEmpty?
    name := ← entries.required "name" "name" Value.nonEmpty?
    agents := ← entries.required "agents" "agents" (Value.listOf? Agent.ofValue?)
    tools := ← entries.required "tools" "tools" (Value.listOf? Tool.ofValue?)
    gates := ← entries.required "gates" "gates" (Value.listOf? Gate.ofValue?)
    edges := ← entries.required "edges" "edges" (Value.listOf? Edge.ofValue?)
    startNode := ← entries.required "start_node" "startNode" Value.nonEmpty?
    outputs := ← entries.required "outputs" "outputs" (Value.listOf? Value.string?) }

def toValue (form : Form) (o : Orchestration) : Value :=
  form.record [
    ("id", Value.text o.id),
    ("name", Value.text o.name),
    ("agents", listValue (Agent.toValue form) o.agents),
    ("tools", listValue (Tool.toValue form) o.tools),
    ("gates", listValue (Gate.toValue form) o.gates),
    ("edges", listValue (Edge.toValue form) o.edges),
    ("startNode", Value.text o.startNode),
    ("outputs", Value.texts o.outputs)]

def agentIds (o : Orchestration) : List String := o.agents.map Agent.id

def toolIds (o : Orchestration) : List String := o.tools.map Tool.id

def gateIds (o : Orchestration) : List String := o.gates.map Gate.id

/-- The ids of all declared nodes, agents first and tools last, as often as they are declared. -/
def nodeIds (o : Orchestration) : List String := o.agentIds ++ o.gateIds ++ o.toolIds

end Orchestration

end Workflow
