import Workflow.Spec.Reading

/-! Agents: a prompt, and the ids of the tools that the agent may call. -/

namespace Workflow

inductive MemoryKind where
  | ephemeral | persistent
  deriving DecidableEq, Repr

instance : Labelled MemoryKind where
  options := [.ephemeral, .persistent]
  label
    | .ephemeral => "ephemeral"
    | .persistent => "persistent"

inductive Retry where
  | exponential | linear | none
  deriving DecidableEq, Repr

instance : Labelled Retry where
  options := [.exponential, .linear, .none]
  label
    | .exponential => "exponential"
    | .linear => "linear"
    | .none => "none"

structure Memory where
  kind : MemoryKind
  maxTokens : Option Int
  deriving DecidableEq

namespace Memory

def shape : Shape :=
  .model "MemoryPolicy" none [
    .mk "type" "type" false (Labelled.shape MemoryKind "MemoryType" none),
    .mk "max_tokens" "maxTokens" true .count]

def ofValue? (v : Value) : Option Memory := do
  let entries ← v.entries?
  some {
    kind := ← entries.required "type" "type" Value.choice?
    maxTokens := ← entries.optional "max_tokens" "maxTokens" Value.count? }

def toValue (form : Form) (m : Memory) : Value :=
  form.record [
    ("type", Labelled.toValue m.kind),
    ("maxTokens", m.maxTokens.map Value.int)]

end Memory

/-- Limits on an agent's execution. -/
structure Policies where
  maxIterations : Option Int
  timeout : Option Number
  retry : Option Retry
  deriving DecidableEq

namespace Policies

def shape : Shape :=
  .model "ExecutionPolicy" none [
    .mk "max_iterations" "maxIterations" true .count,
    .mk "timeout" "timeout" true (.number .positive),
    .mk "retry_policy" "retryPolicy" true (Labelled.shape Retry "RetryPolicy" none)]

def ofValue? (v : Value) : Option Policies := do
  let entries ← v.entries?
  some {
    maxIterations := ← entries.optional "max_iterations" "maxIterations" Value.count?
    timeout := ← entries.optional "timeout" "timeout" (Value.number? .positive)
    retry := ← entries.optional "retry_policy" "retryPolicy" Value.choice? }

def toValue (form : Form) (p : Policies) : Value :=
  form.record [
    ("maxIterations", p.maxIterations.map Value.int),
    ("timeout", p.timeout.map Number.toValue),
    ("retryPolicy", p.retry.map Labelled.toValue)]

end Policies

structure Agent where
  id : String
  name : String
  prompt : String
  tools : List String
  memory : Option Memory
  policies : Option Policies
  deriving DecidableEq

namespace Agent

def shape : Shape :=
  .model "AgentDef" (some "An agent: a prompt plus references to the tools it may call.") [
    .mk "id" "id" false (.text true),
    .mk "name" "name" false (.text true),
    .mk "prompt" "prompt" false (.text true),
    .mk "tools" "tools" false (.listOf (.text false)),
    .mk "memory" "memory" true Memory.shape,
    .mk "policies" "policies" true Policies.shape]

def ofValue? (v : Value) : Option Agent := do
  let entries ← v.entries?
  some {
    id := ← entries.required "id" "id" Value.nonEmpty?
    name := ← entries.required "name" "name" Value.nonEmpty?
    prompt := ← entries.required "prompt" "prompt" Value.nonEmpty?
    tools := ← entries.required "tools" "tools" (Value.listOf? Value.string?)
    memory := ← entries.optional "memory" "memory" Memory.ofValue?
    policies := ← entries.optional "policies" "policies" Policies.ofValue? }

def toValue (form : Form) (a : Agent) : Value :=
  form.record [
    ("id", Value.text a.id),
    ("name", Value.text a.name),
    ("prompt", Value.text a.prompt),
    ("tools", Value.texts a.tools),
    ("memory", a.memory.map (Memory.toValue form)),
    ("policies", a.policies.map (Policies.toValue form))]

end Agent

end Workflow
