import Workflow.Proofs.Spec.Modelled
import Workflow.Service.Basic
import Workflow.Spec.Project

/-!
The parts of projects and services keep the laws of models: each is a record of fields that keep
them.
-/

namespace Workflow

open Modelled (string nonEmpty timestamp count number choice freeTable)
open Record.Modelled (required optional)

/-! ## Agents and tools -/

theorem Memory.modelled : Modelled shape ofValue? toValue := by
  refine .record (fun (kind, maxTokens) => ⟨kind, maxTokens⟩) (fun m => (m.kind, m.maxTokens))
    ((required (choice _ _) "type" "type").and (optional count "max_tokens" "maxTokens"))
    (fun _ => rfl) (by decide) (fun v => ?_) (fun _ _ => rfl)
  simp [ofValue?, Option.map_eq_bind]

theorem Policies.modelled : Modelled shape ofValue? toValue := by
  refine .record (fun (maxIterations, timeout, retry) => ⟨maxIterations, timeout, retry⟩)
    (fun p => (p.maxIterations, p.timeout, p.retry))
    ((optional count "max_iterations" "maxIterations").and
      ((optional (number .positive) "timeout" "timeout").and
        (optional (choice _ _) "retry_policy" "retryPolicy")))
    (fun _ => rfl) (by decide) (fun v => ?_) (fun _ _ => rfl)
  simp [ofValue?, Option.map_eq_bind]

theorem Agent.modelled : Modelled shape ofValue? toValue := by
  refine .record
    (fun (id, name, prompt, tools, memory, policies) => ⟨id, name, prompt, tools, memory, policies⟩)
    (fun a => (a.id, a.name, a.prompt, a.tools, a.memory, a.policies))
    ((required nonEmpty "id" "id").and ((required nonEmpty "name" "name").and
      ((required nonEmpty "prompt" "prompt").and ((required (.list string) "tools" "tools").and
        ((optional Memory.modelled "memory" "memory").and
          (optional Policies.modelled "policies" "policies"))))))
    (fun _ => rfl) (by decide) (fun v => ?_) (fun _ _ => rfl)
  simp [ofValue?, Option.map_eq_bind]

theorem Auth.modelled : Modelled shape ofValue? toValue := by
  refine .record (fun (kind, credentials) => ⟨kind, credentials⟩) (fun a => (a.kind, a.credentials))
    ((required (choice _ _) "type" "type").and
      (optional (.table string) "credentials" "credentials"))
    (fun _ => rfl) (by decide) (fun v => ?_) (fun _ _ => rfl)
  simp [ofValue?, Option.map_eq_bind]

theorem Tool.modelled : Modelled shape ofValue? toValue := by
  refine .record (fun (id, name, kind, config, auth) => ⟨id, name, kind, config, auth⟩)
    (fun t => (t.id, t.name, t.kind, t.config, t.auth))
    ((required nonEmpty "id" "id").and ((required nonEmpty "name" "name").and
      ((required (choice _ _) "kind" "kind").and ((required freeTable "config" "config").and
        (optional Auth.modelled "auth" "auth")))))
    (fun _ => rfl) (by decide) (fun v => ?_) (fun _ _ => rfl)
  simp [ofValue?, Option.map_eq_bind]

/-! ## Graphs -/

theorem Gate.modelled : Modelled shape ofValue? toValue := by
  refine .record
    (fun (id, kind, condition, approvers, mergeStrategy) =>
      ⟨id, kind, condition, approvers, mergeStrategy⟩)
    (fun g => (g.id, g.kind, g.condition, g.approvers, g.mergeStrategy))
    ((required nonEmpty "id" "id").and ((required (choice _ _) "type" "type").and
      ((optional string "condition" "condition").and
        ((optional (.list string) "approvers" "approvers").and
          (optional (choice _ _) "merge_strategy" "mergeStrategy")))))
    (fun _ => rfl) (by decide) (fun v => ?_) (fun _ _ => rfl)
  simp [ofValue?, Option.map_eq_bind]

theorem Edge.modelled : Modelled shape ofValue? toValue := by
  refine .record
    (fun (id, source, target, condition, label) => ⟨id, source, target, condition, label⟩)
    (fun e => (e.id, e.source, e.target, e.condition, e.label))
    ((required nonEmpty "id" "id").and ((required nonEmpty "source" "source").and
      ((required nonEmpty "target" "target").and ((optional string "condition" "condition").and
        (optional string "label" "label")))))
    (fun _ => rfl) (by decide) (fun v => ?_) (fun _ _ => rfl)
  simp [ofValue?, Option.map_eq_bind]

theorem Orchestration.modelled : Modelled shape ofValue? toValue := by
  refine .record
    (fun (id, name, agents, tools, gates, edges, startNode, outputs) =>
      ⟨id, name, agents, tools, gates, edges, startNode, outputs⟩)
    (fun o => (o.id, o.name, o.agents, o.tools, o.gates, o.edges, o.startNode, o.outputs))
    ((required nonEmpty "id" "id").and ((required nonEmpty "name" "name").and
      ((required (.list Agent.modelled) "agents" "agents").and
        ((required (.list Tool.modelled) "tools" "tools").and
          ((required (.list Gate.modelled) "gates" "gates").and
            ((required (.list Edge.modelled) "edges" "edges").and
              ((required nonEmpty "start_node" "startNode").and
                (required (.list string) "outputs" "outputs"))))))))
    (fun _ => rfl) (by decide) (fun v => ?_) (fun _ _ => rfl)
  simp [ofValue?, Option.map_eq_bind]

/-! ## Evaluations and metadata -/

theorem Metric.modelled : Modelled shape ofValue? toValue := by
  refine .record (fun (name, kind, threshold, weight) => ⟨name, kind, threshold, weight⟩)
    (fun m => (m.name, m.kind, m.threshold, m.weight))
    ((required nonEmpty "name" "name").and ((required (choice _ _) "type" "type").and
      ((optional (number .any) "threshold" "threshold").and
        (optional (number .unit) "weight" "weight"))))
    (fun _ => rfl) (by decide) (fun v => ?_) (fun _ _ => rfl)
  simp [ofValue?, Option.map_eq_bind]

theorem TestCase.modelled : Modelled shape ofValue? toValue := by
  refine .record
    (fun (id, input, expectedOutput, metadata) => ⟨id, input, expectedOutput, metadata⟩)
    (fun c => (c.id, c.input, c.expectedOutput, c.metadata))
    ((required nonEmpty "id" "id").and ((required freeTable "input" "input").and
      ((optional freeTable "expected_output" "expectedOutput").and
        (optional freeTable "metadata" "metadata"))))
    (fun _ => rfl) (by decide) (fun v => ?_) (fun _ _ => rfl)
  simp [ofValue?, Option.map_eq_bind]

theorem Suite.modelled : Modelled shape ofValue? toValue := by
  refine .record
    (fun (id, name, description, metrics, testCases, environment) =>
      ⟨id, name, description, metrics, testCases, environment⟩)
    (fun s => (s.id, s.name, s.description, s.metrics, s.testCases, s.environment))
    ((required nonEmpty "id" "id").and ((required nonEmpty "name" "name").and
      ((optional string "description" "description").and
        ((required (.list Metric.modelled) "metrics" "metrics").and
          ((required (.list TestCase.modelled) "test_cases" "testCases").and
            (required (choice _ _) "environment" "environment"))))))
    (fun _ => rfl) (by decide) (fun v => ?_) (fun _ _ => rfl)
  simp [ofValue?, Option.map_eq_bind]

theorem Position.modelled : Modelled shape ofValue? toValue := by
  refine .record (fun (x, y) => ⟨x, y⟩) (fun p => (p.x, p.y))
    ((required (number .any) "x" "x").and (required (number .any) "y" "y"))
    (fun _ => rfl) (by decide) (fun v => ?_) (fun _ _ => rfl)
  simp [ofValue?, Option.map_eq_bind]

theorem Metadata.modelled : Modelled shape ofValue? toValue := by
  refine .record
    (fun (createdAt, updatedAt, author, tags, nodePositions) =>
      ⟨createdAt, updatedAt, author, tags, nodePositions⟩)
    (fun m => (m.createdAt, m.updatedAt, m.author, m.tags, m.nodePositions))
    ((required timestamp "created_at" "createdAt").and
      ((required timestamp "updated_at" "updatedAt").and ((optional string "author" "author").and
        ((optional (.list string) "tags" "tags").and
          (optional (.table Position.modelled) "node_positions" "nodePositions")))))
    (fun _ => rfl) (by decide) (fun v => ?_) (fun _ _ => rfl)
  simp [ofValue?, Option.map_eq_bind]

/-! ## Projects -/

theorem Project.modelled : Modelled shape ofValue? toValue := by
  refine .record
    (fun (id, name, version, description, orchestration, evaluations, metadata) =>
      ⟨id, name, version, description, orchestration, evaluations, metadata⟩)
    (fun p => (p.id, p.name, p.version, p.description, p.orchestration, p.evaluations, p.metadata))
    ((required nonEmpty "id" "id").and ((required nonEmpty "name" "name").and
      ((required nonEmpty "version" "version").and
        ((optional string "description" "description").and
          ((required Orchestration.modelled "orchestration" "orchestration").and
            ((optional (.list Suite.modelled) "evaluations" "evaluations").and
              (optional Metadata.modelled "metadata" "metadata")))))))
    (fun _ => rfl) (by decide) (fun v => ?_) (fun _ _ => rfl)
  simp [ofValue?, Option.map_eq_bind]

/-! ## Services -/

theorem CompiledAgent.modelled : Modelled shape ofValue? toValue := by
  refine .record
    (fun (id, name, prompt, tools, next, memory, policies) =>
      ⟨id, name, prompt, tools, next, memory, policies⟩)
    (fun a => (a.id, a.name, a.prompt, a.tools, a.next, a.memory, a.policies))
    ((required nonEmpty "id" "id").and ((required nonEmpty "name" "name").and
      ((required nonEmpty "prompt" "prompt").and
        ((required (.list Tool.modelled) "tools" "tools").and
          ((required (.list string) "next_agents" "nextAgents").and
            ((optional Memory.modelled "memory" "memory").and
              (optional Policies.modelled "policies" "policies")))))))
    (fun _ => rfl) (by decide) (fun v => ?_) (fun _ _ => rfl)
  simp [ofValue?, Option.map_eq_bind]

theorem TopologyNode.modelled : Modelled shape ofValue? toValue := by
  refine .record (fun (id, kind) => ⟨id, kind⟩) (fun n => (n.id, n.kind))
    ((required string "id" "id").and (required (choice _ _) "type" "type"))
    (fun _ => rfl) (by decide) (fun v => ?_) (fun _ _ => rfl)
  simp [ofValue?, Option.map_eq_bind]

theorem Topology.modelled : Modelled shape ofValue? toValue := by
  refine .record (fun (nodes, edges) => ⟨nodes, edges⟩) (fun t => (t.nodes, t.edges))
    ((required (.list TopologyNode.modelled) "nodes" "nodes").and
      (required (.list Edge.modelled) "edges" "edges"))
    (fun _ => rfl) (by decide) (fun v => ?_) (fun _ _ => rfl)
  simp [ofValue?, Option.map_eq_bind]

theorem Service.modelled : Modelled shape ofValue? toValue := by
  refine .record
    (fun (id, name, version, agents, startAgent, outputs, topology, metadata) =>
      ⟨id, name, version, agents, startAgent, outputs, topology, metadata⟩)
    (fun s => (s.id, s.name, s.version, s.agents, s.startAgent, s.outputs, s.topology, s.metadata))
    ((required nonEmpty "id" "id").and ((required nonEmpty "name" "name").and
      ((required nonEmpty "version" "version").and
        ((required (.list CompiledAgent.modelled) "agents" "agents").and
          ((required nonEmpty "start_agent" "startAgent").and
            ((required (.list string) "outputs" "outputs").and
              ((required Topology.modelled "topology" "topology").and
                (optional Metadata.modelled "metadata" "metadata"))))))))
    (fun _ => rfl) (by decide) (fun v => ?_) (fun _ _ => rfl)
  simp [ofValue?, Option.map_eq_bind]

theorem Tool.lawful : Lawful ofValue? toValue := modelled.lawful

theorem Service.lawful : Lawful ofValue? toValue := modelled.lawful

end Workflow
