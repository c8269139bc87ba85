import Workflow.Spec.Project
import Workflow.Value.Same

/-!
Compiled services: what a runtime executes. Every agent holds the tools it may call and the ids it
may go on to, and the topology lists the declared nodes and edges.
-/

namespace Workflow

/-- An agent with its tools resolved and the targets of its edges. -/
structure CompiledAgent where
  id : String
  name : String
  prompt : String
  tools : List Tool
  next : List String
  memory : Option Memory
  policies : Option Policies

namespace CompiledAgent

def shape : Shape :=
  .model "CompiledAgent" none [
    .mk "id" "id" false (.text true),
    .mk "name" "name" false (.text true),
    .mk "prompt" "prompt" false (.text true),
    .mk "tools" "tools" false (.listOf Tool.shape),
    .mk "next_agents" "nextAgents" false (.listOf (.text false)),
    .mk "memory" "memory" true Memory.shape,
    .mk "policies" "policies" true Policies.shape]

def ofValue? (v : Value) : Option CompiledAgent := do
  let entries ← v.entries?
  some {
    id := ← entries.required "id" "id" Value.nonEmpty?
    name := ← entries.required "name" "name" Value.nonEmpty?
    prompt := ← entries.required "prompt" "prompt" Value.nonEmpty?
    tools := ← entries.required "tools" "tools" (Value.listOf? Tool.ofValue?)
    next := ← entries.required "next_agents" "nextAgents" (Value.listOf? Value.string?)
    memory := ← entries.optional "memory" "memory" Memory.ofValue?
    policies := ← entries.optional "policies" "policies" Policies.ofValue? }

def toValue (form : Form) (a : CompiledAgent) : Value :=
  form.record [
    ("id", Value.text a.id),
    ("name", Value.text a.name),
    ("prompt", Value.text a.prompt),
    ("tools", listValue (Tool.toValue form) a.tools),
    ("nextAgents", Value.texts a.next),
    ("memory", a.memory.map (Memory.toValue form)),
    ("policies", a.policies.map (Policies.toValue form))]

end CompiledAgent

inductive NodeKind where
  | agent | tool | gate
  deriving DecidableEq, Repr

instance : Labelled NodeKind where
  options := [.agent, .tool, .gate]
  label
    | .agent => "agent"
    | .tool => "tool"
    | .gate => "gate"

structure TopologyNode where
  id : String
  kind : NodeKind
  deriving DecidableEq, Repr

namespace TopologyNode

def shape : Shape :=
  .model "TopologyNode" none [
    .mk "id" "id" false (.text false),
    .mk "type" "type" false (Labelled.shape NodeKind "NodeType" none)]

def ofValue? (v : Value) : Option TopologyNode := do
  let entries ← v.entries?
  some {
    id := ← entries.required "id" "id" Value.string?
    kind := ← entries.required "type" "type" Value.choice? }

def toValue (form : Form) (n : TopologyNode) : Value :=
  form.record [("id", Value.text n.id), ("type", Labelled.toValue n.kind)]

end TopologyNode

/-- All declared nodes with their kinds, and all declared edges. -/
structure Topology where
  nodes : List TopologyNode
  edges : List Edge
  deriving DecidableEq

namespace Topology

def shape : Shape :=
  .model "Topology" none [
    .mk "nodes" "nodes" false (.listOf TopologyNode.shape),
    .mk "edges" "edges" false (.listOf Edge.shape)]

def ofValue? (v : Value) : Option Topology := do
  let entries ← v.entries?
  some {
    nodes := ← entries.required "nodes" "nodes" (Value.listOf? TopologyNode.ofValue?)
    edges := ← entries.required "edges" "edges" (Value.listOf? Edge.ofValue?) }

def toValue (form : Form) (t : Topology) : Value :=
  form.record [
    ("nodes", listValue (TopologyNode.toValue form) t.nodes),
    ("edges", listValue (Edge.toValue form) t.edges)]

end Topology

structure Service where
  id : String
  name : String
  version : String
  agents : List CompiledAgent
  startAgent : String
  outputs : List String
  topology : Topology
  metadata : Option Metadata

namespace Service

def shape : Shape :=
  .model "CompiledService" none [
    .mk "id" "id" false (.text true),
    .mk "name" "name" false (.text true),
    .mk "version" "version" false (.text true),
    .mk "agents" "agents" false (.listOf CompiledAgent.shape),
    .mk "start_agent" "startAgent" false (.text true),
    .mk "outputs" "outputs" false (.listOf (.text false)),
    .mk "topology" "topology" false Topology.shape,
    .mk "metadata" "metadata" true Metadata.shape]

def ofValue? (v : Value) : Option Service := do
  let entries ← v.entries?
  some {
    id := ← entries.required "id" "id" Value.nonEmpty?
    name := ← entries.required "name" "name" Value.nonEmpty?
    version := ← entries.required "version" "version" Value.nonEmpty?
    agents := ← entries.required "agents" "agents" (Value.listOf? CompiledAgent.ofValue?)
    startAgent := ← entries.required "start_agent" "startAgent" Value.nonEmpty?
    outputs := ← entries.required "outputs" "outputs" (Value.listOf? Value.string?)
    topology := ← entries.required "topology" "topology" Topology.ofValue?
    metadata := ← entries.optional "metadata" "metadata" Metadata.ofValue? }

def toValue (form : Form) (s : Service) : Value :=
  form.record [
    ("id", Value.text s.id),
    ("name", Value.text s.name),
    ("version", Value.text s.version),
    ("agents", listValue (CompiledAgent.toValue form) s.agents),
    ("startAgent", Value.text s.startAgent),
    ("outputs", Value.texts s.outputs),
    ("topology", s.topology.toValue form),
    ("metadata", s.metadata.map (Metadata.toValue form))]

/-- The service that a document holds, or the violations of the service's shape. -/
def read (v : Value) : Except (List Violation) Service := readAs shape ofValue? v

def freeTables (s : Service) : List Entries :=
  s.agents.flatMap fun agent => agent.tools.map Tool.config

/-- The same fields throughout; numbers are compared by value and tables in any order. -/
def same (s t : Service) : Bool := (s.toValue .raw).same (t.toValue .raw)

def agentIds (s : Service) : List String := s.agents.map CompiledAgent.id

/-- The first agent with an id. -/
def agent? (s : Service) (id : String) : Option CompiledAgent := s.agents.find? (·.id == id)

/-! ## Edits -/

/-- The ids that the first agent with an id may go on to are replaced. -/
def withNext (s : Service) (id : String) (next : List String) : Option Service :=
  (s.agents.findIdx? (·.id == id)).map fun i =>
    { s with agents := s.agents.modify i fun agent => { agent with next } }

def dropAgent (s : Service) (id : String) : Service :=
  { s with agents := s.agents.filter (·.id != id) }

end Service

end Workflow
