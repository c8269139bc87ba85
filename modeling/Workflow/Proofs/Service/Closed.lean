import Workflow.Proofs.Service.Assembly
import Workflow.Proofs.Service.Compilation

/-!
Services that are closed: all ids that they go by are the ids of their own nodes, and their edges
have no cycle. Main statement: every compiled service is closed.
-/

namespace Workflow

open Relation

namespace Service

def nodeIds (s : Service) : List String := s.topology.nodes.map TopologyNode.id

/-- What can be told from a service alone: every id stands for a node of the topology, the agents
are the nodes of their kind, what an agent may go on to are the targets of its edges, and the edges
follow an order of the nodes. -/
structure Closed (s : Service) : Prop where
  start : s.startAgent ∈ s.nodeIds
  outputs : ∀ output ∈ s.outputs, output ∈ s.nodeIds
  edges : ∀ edge ∈ s.topology.edges, edge.source ∈ s.nodeIds ∧ edge.target ∈ s.nodeIds
  next : ∀ agent ∈ s.agents, ∀ id ∈ agent.next, id ∈ s.nodeIds
  tools : ∀ agent ∈ s.agents, ∀ tool ∈ agent.tools, ⟨tool.id, .tool⟩ ∈ s.topology.nodes
  agents : s.agentIds.Perm
    ((s.topology.nodes.filter (·.kind = .agent)).map TopologyNode.id)
  ascending : ∀ agent ∈ s.agents, agent.next.Pairwise (· ≤ ·)
  targets : ∀ agent ∈ s.agents, agent.next.Perm
    ((s.topology.edges.filter (·.source = agent.id)).map Edge.target)
  acyclic : ∀ place, ¬ TransGen (EdgesLead s.topology.edges) place place
  ordered : ∃ order : List String, order.Nodup ∧ (∀ id, id ∈ order ↔ id ∈ s.nodeIds) ∧
    ∀ edge ∈ s.topology.edges, order.idxOf edge.source < order.idxOf edge.target

end Service

namespace Project

variable {p : Project}

theorem mem_build_nodeIds {id : String} : id ∈ p.build.nodeIds ↔ id ∈ p.orchestration.nodeIds :=
  Orchestration.mem_topology_ids

theorem build_edges_lead (p : Project) :
    EdgesLead p.build.topology.edges = EdgesLead p.orchestration.edges := by
  funext source target
  simp only [EdgesLead, build, (Orchestration.topology_edges_perm _).mem_iff]

theorem mem_build_tools (declared : p.orchestration.ToolsDeclared) {agent : CompiledAgent}
    (compiled : agent ∈ p.build.agents) {tool : Tool} (held : tool ∈ agent.tools) :
    ⟨tool.id, .tool⟩ ∈ p.build.topology.nodes := by
  obtain ⟨source, listed, rfl⟩ := mem_build_agents.mp compiled
  obtain ⟨id, referred, found⟩ := Orchestration.mem_compileAgent_tools.mp held
  have named := (Orchestration.tool?_eq_some found).2
  have node : (⟨tool.id, .tool⟩ : TopologyNode) ∈ p.orchestration.topologyNodes := by
    have member := declared source listed id referred
    rw [named]
    simp [Orchestration.topologyNodes, member]
  exact (Orchestration.topology_nodes_perm p.orchestration).mem_iff.mpr node

theorem build_agents_kind (p : Project) : p.build.agentIds.Perm
    ((p.build.topology.nodes.filter (·.kind = .agent)).map TopologyNode.id) := by
  have nodes := (Orchestration.topology_nodes_perm p.orchestration).filter (·.kind = .agent)
  have ids := nodes.map TopologyNode.id
  rw [Orchestration.agents_topologyNodes] at ids
  exact (build_agentIds_perm p).trans ids.symm

theorem build_targets {agent : CompiledAgent} (compiled : agent ∈ p.build.agents) :
    agent.next.Pairwise (· ≤ ·) ∧ agent.next.Perm
      ((p.build.topology.edges.filter (·.source = agent.id)).map Edge.target) := by
  obtain ⟨source, -, rfl⟩ := mem_build_agents.mp compiled
  have edges := (Orchestration.topology_edges_perm p.orchestration).filter (·.source = source.id)
  constructor
  · exact ascending_pairwise _
  · exact (Orchestration.targetsOf_perm _ _).trans (edges.map Edge.target).symm

theorem build_edges_declared (declared : p.orchestration.EdgesDeclared) {edge : Edge}
    (listed : edge ∈ p.build.topology.edges) :
    edge.source ∈ p.build.nodeIds ∧ edge.target ∈ p.build.nodeIds := by
  have member := (Orchestration.topology_edges_perm p.orchestration).mem_iff.mp listed
  rw [mem_build_nodeIds, mem_build_nodeIds]
  exact declared edge member

/-- Each condition of a sound orchestration gives its own part of a closed service. -/
theorem build_closed (sound : p.orchestration.Sound) : p.build.Closed where
  start := mem_build_nodeIds.mpr sound.start
  outputs := by
    intro output listed
    exact mem_build_nodeIds.mpr (sound.outputs output (mem_ascending.mp listed))
  edges _ listed := build_edges_declared sound.edges listed
  next := by
    intro agent compiled id listed
    obtain ⟨source, -, rfl⟩ := mem_build_agents.mp compiled
    obtain ⟨edge, member, -, rfl⟩ := Orchestration.mem_targetsOf.mp listed
    exact mem_build_nodeIds.mpr (sound.edges edge member).2
  tools _ compiled _ held := mem_build_tools sound.tools compiled held
  agents := build_agents_kind p
  ascending _ compiled := (build_targets compiled).1
  targets _ compiled := (build_targets compiled).2
  acyclic := by
    rw [build_edges_lead]
    exact sound.acyclic
  ordered := by
    obtain ⟨order, distinct, members, follows⟩ :=
      exists_order_of_acyclic sound.acyclic p.build.nodeIds
    refine ⟨order, distinct, members, ?_⟩
    intro edge listed
    obtain ⟨source, target⟩ := build_edges_declared sound.edges listed
    have member := (Orchestration.topology_edges_perm p.orchestration).mem_iff.mp listed
    exact follows edge.source source edge.target target ⟨edge, member, rfl, rfl⟩

end Project

/-- A writer that uses a tool, a checker, and an approval between them that can be passed by. -/
def reviewProject : Project :=
  { id := "p", name := "Review", version := "1", description := none, evaluations := none,
    metadata := none
    orchestration :=
      { id := "o", name := "O", startNode := "writer", outputs := ["checker"]
        agents := [⟨"checker", "C", "Check", [], none, none⟩,
          ⟨"writer", "W", "Write", ["search"], none, none⟩]
        tools := [⟨"search", "S", .rest, [], none⟩]
        gates := [⟨"approval", .approval, none, none, none⟩]
        edges := [⟨"1", "approval", "checker", none, none⟩,
          ⟨"2", "writer", "approval", none, none⟩, ⟨"3", "writer", "checker", none, none⟩] } }

theorem reviewProject_sound : reviewProject.orchestration.Sound where
  start := by decide
  tools := by decide
  edges := by decide
  acyclic := Orchestration.acyclic_of_rank ["writer", "approval", "checker"].idxOf (by decide)
  outputs := by decide

/-- Every service that a document is compiled into is closed. -/
theorem Compilation.closed_of_ofDocument {document : Value} {s : Service}
    (done : Compilation.ofDocument document = .done s) : s.Closed := by
  rw [ofDocument] at done
  split at done
  next p _ =>
    obtain ⟨sound, -, rfl⟩ := Project.compilation_eq_done_iff.mp done
    exact Project.build_closed sound
  next => cases done

theorem Compilation.closed_of_ofDocument_review :
    ∃ s, Compilation.ofDocument (reviewProject.toValue .wire) = .done s ∧ s.Closed := by
  have done : Compilation.ofDocument (reviewProject.toValue .wire) = .done reviewProject.build :=
    Project.compilation_eq_done_iff.mpr
      ⟨reviewProject_sound, Project.not_unwritable_of_parts (by decide) (by decide), rfl⟩
  exact ⟨_, done, Compilation.closed_of_ofDocument done⟩

end Workflow
