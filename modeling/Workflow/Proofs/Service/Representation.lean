import Workflow.Proofs.Service.Assembly
import Workflow.Proofs.Service.Compilation

/-!
What the service of a project holds. Each list of the service is made of what the project declares,
item by item and as often as it is declared, and stands in ascending order. Main statement: a
project in which the checks find no fault is made into a service that represents it, unless an agent
or a tool that it refers to cannot be written out.
-/

namespace Workflow

/-- The compiled agent is the declared one with, for each reference to a tool, the last tool that is
declared with the id, and with the target of each of its edges. -/
structure CompiledAgent.Represents (o : Orchestration) (agent : Agent) (compiled : CompiledAgent) :
    Prop where
  id : compiled.id = agent.id
  name : compiled.name = agent.name
  prompt : compiled.prompt = agent.prompt
  memory : compiled.memory = agent.memory
  policies : compiled.policies = agent.policies
  tools : ∃ tools, List.Forall₂ o.Binds agent.tools tools ∧ compiled.tools.Perm tools
  toolsAscend : (compiled.tools.map Tool.id).Pairwise (· ≤ ·)
  next : compiled.next.Perm ((o.edges.filter (·.source = agent.id)).map Edge.target)
  nextAscend : compiled.next.Pairwise (· ≤ ·)

/-- The service has what the project declares, one for one, and every list of it ascends. -/
structure Service.Represents (p : Project) (s : Service) : Prop where
  id : s.id = p.id
  name : s.name = p.name
  version : s.version = p.version
  metadata : s.metadata = p.metadata
  start : s.startAgent = p.orchestration.startNode
  agents : ∃ agents,
    List.Forall₂ (CompiledAgent.Represents p.orchestration) p.orchestration.agents agents ∧
      s.agents.Perm agents
  agentsAscend : s.agentIds.Pairwise (· ≤ ·)
  nodes : s.topology.nodes.Perm (p.orchestration.agents.map (⟨·.id, .agent⟩) ++
    p.orchestration.tools.map (⟨·.id, .tool⟩) ++ p.orchestration.gates.map (⟨·.id, .gate⟩))
  nodesAscend :
    (s.topology.nodes.map fun node => (node.id, Labelled.label node.kind)).Pairwise KeyLe
  edges : s.topology.edges.Perm p.orchestration.edges
  edgesAscend : (s.topology.edges.map Edge.id).Pairwise (· ≤ ·)
  outputs : s.outputs.Perm p.orchestration.outputs
  outputsAscend : s.outputs.Pairwise (· ≤ ·)

theorem Orchestration.compileAgent_represents {o : Orchestration} (declared : o.ToolsDeclared)
    {agent : Agent} (listed : agent ∈ o.agents) :
    CompiledAgent.Represents o agent (o.compileAgent agent) where
  id := rfl
  name := rfl
  prompt := rfl
  memory := rfl
  policies := rfl
  tools := by
    obtain ⟨tools, bound, resolved⟩ := exists_resolved (declared agent listed)
    refine ⟨tools, bound, ?_⟩
    rw [← resolved]
    exact sortByKey_perm Tool.sortKey _
  toolsAscend := sortByKey_pairwise_fst Tool.sortKey _
  next := targetsOf_perm o agent.id
  nextAscend := ascending_pairwise _

namespace Project

variable {p : Project}

theorem build_represents (declared : p.orchestration.ToolsDeclared) :
    Service.Represents p p.build where
  id := rfl
  name := rfl
  version := rfl
  metadata := rfl
  start := rfl
  agents := by
    refine ⟨p.orchestration.agents.map p.orchestration.compileAgent, ?_, build_agents_perm p⟩
    rw [List.forall₂_map_right_iff, List.forall₂_same]
    intro agent listed
    exact Orchestration.compileAgent_represents declared listed
  agentsAscend := sortByKey_pairwise_fst CompiledAgent.sortKey _
  nodes := by
    have nodes := Orchestration.topology_nodes_perm p.orchestration
    rw [Orchestration.topologyNodes, Orchestration.agentIds, Orchestration.toolIds,
      Orchestration.gateIds, List.map_map, List.map_map, List.map_map] at nodes
    exact nodes
  nodesAscend := sortByKey_pairwise TopologyNode.sortKey _
  edges := Orchestration.topology_edges_perm p.orchestration
  edgesAscend := sortByKey_pairwise_fst Edge.sortKey _
  outputs := ascending_perm _
  outputsAscend := ascending_pairwise _

/-- A project in which the checks find no fault is made into a service that represents it, unless an
agent or a tool in use cannot be written out. -/
theorem compilation_represents (faultless : p.orchestration.lint.faults = []) :
    (p.Unwritable → ∃ fault, p.compilation = .unwritable fault) ∧
      (¬ p.Unwritable → ∃ s, p.compilation = .done s ∧ Service.Represents p s) := by
  have sound := Orchestration.lint_faults_eq_nil_iff.mp faultless
  constructor
  · intro unwritable
    exact exists_compilation_eq_unwritable_iff.mpr ⟨sound, unwritable⟩
  · intro fits
    exact ⟨p.build, compilation_eq_done_iff.mpr ⟨sound, fits, rfl⟩,
      build_represents sound.tools⟩

/-- Two writers with one id, a tool that is declared twice and referred to twice, and two edges with
the same ends. -/
def draftProject : Project :=
  { id := "p", name := "Draft", version := "1", description := none, evaluations := none,
    metadata := none
    orchestration :=
      { id := "o", name := "O", startNode := "writer", outputs := ["search", "checker", "search"]
        agents := [⟨"writer", "W", "Write", ["search", "index", "search"], none, none⟩,
          ⟨"checker", "C", "Check", [], none, none⟩, ⟨"writer", "V", "Write", [], none, none⟩]
        tools := [⟨"search", "S", .rest, [], none⟩, ⟨"index", "I", .rest, [], none⟩,
          ⟨"search", "T", .rest, [], none⟩]
        gates := [⟨"approval", .approval, none, none, none⟩]
        edges := [⟨"2", "writer", "checker", none, none⟩,
          ⟨"1", "writer", "approval", none, none⟩, ⟨"1", "writer", "checker", none, none⟩] } }

theorem compilation_represents_draft : draftProject.orchestration.lint.faults = [] ∧
    ¬ draftProject.Unwritable ∧
    ∃ s, draftProject.compilation = .done s ∧ Service.Represents draftProject s := by
  have sound : draftProject.orchestration.Sound :=
    { start := by decide
      tools := by decide
      edges := by decide
      acyclic := Orchestration.acyclic_of_rank ["writer", "approval", "checker"].idxOf (by decide)
      outputs := by decide }
  have faultless := Orchestration.lint_faults_eq_nil_iff.mpr sound
  have fits : ¬ draftProject.Unwritable := not_unwritable_of_parts (by decide) (by decide)
  exact ⟨faultless, fits, (compilation_represents faultless).2 fits⟩

/-- A project in which the checks find no fault may have a tool that is too deep to be written out,
and then there is no service to represent it. -/
theorem faultless_not_represented : (nestedProject [255]).Validated ∧
    (nestedProject [255]).orchestration.lint.faults = [] ∧
    ¬ ∃ s, (nestedProject [255]).compilation = .done s ∧
      Service.Represents (nestedProject [255]) s := by
  have sound := nestedProject_sound (List.cons_ne_nil 255 [])
  refine ⟨nestedProject_validated [255], Orchestration.lint_faults_eq_nil_iff.mpr sound, ?_⟩
  intro made
  obtain ⟨s, done, -⟩ := made
  have unwritable := (nestedProject_unwritable_iff [] 255).mpr (Nat.le_refl 255)
  exact (compilation_eq_done_iff.mp done).2.1 unwritable

end Project

end Workflow
