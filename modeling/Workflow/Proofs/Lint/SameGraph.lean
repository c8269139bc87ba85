import Workflow.Proofs.Lint.FirstFault

/-!
What the checks look at. Of tools and gates it is the ids, in their order, so orchestrations that
agree in these, in the agents and in the edges get one verdict.
-/

namespace Workflow.Orchestration

/-- The orchestrations agree in what the checks look at. -/
structure SameGraph (o o' : Orchestration) : Prop where
  agents : o.agents = o'.agents
  edges : o.edges = o'.edges
  start : o.startNode = o'.startNode
  outputs : o.outputs = o'.outputs
  toolIds : o.toolIds = o'.toolIds
  gateIds : o.gateIds = o'.gateIds

namespace SameGraph

variable {o o' : Orchestration}

theorem agentIds (same : o.SameGraph o') : o.agentIds = o'.agentIds :=
  congrArg (List.map Agent.id) same.agents

theorem nodeIds (same : o.SameGraph o') : o.nodeIds = o'.nodeIds := by
  rw [Orchestration.nodeIds, Orchestration.nodeIds, same.agentIds, same.gateIds, same.toolIds]

theorem graph (same : o.SameGraph o') : o.graph = o'.graph := by
  rw [Orchestration.graph, Orchestration.graph, same.nodeIds, same.edges]

theorem pass_eq (same : o.SameGraph o') : ∀ pass ∈ passes, pass o = pass o' := by
  rw [forall_mem_passes]
  refine ⟨?_, ?_, ?_, ?_, ?_⟩
  · simp only [checkReachability, same.agents, same.start, same.nodeIds, same.graph]
  · simp only [checkTools, same.agents, same.toolIds]
  · simp only [checkEdges, same.edges, same.nodeIds]
  · simp only [checkAcyclic, same.graph]
  · simp only [checkOutputs, same.outputs, same.nodeIds]

theorem lint (same : o.SameGraph o') : o.lint = o'.lint := by
  have passes : passes.map (· o) = passes.map (· o') := List.map_congr_left same.pass_eq
  rw [Orchestration.lint, Orchestration.lint, lintWith, lintWith, passes]

end SameGraph

end Workflow.Orchestration
