import Workflow.Service.Build
import Workflow.Proofs.Graph.Ascending

/-!
What the service of a project is made of: which tools its agents hold, which ids they go on to, and
which nodes its topology has.
-/

namespace Workflow

namespace Orchestration

variable {o : Orchestration}

/-! ## Tools -/

/-- The tool is the last one that is declared with the id. -/
def Binds (o : Orchestration) (id : String) (tool : Tool) : Prop :=
  ∃ before after, o.tools = before ++ tool :: after ∧ tool.id = id ∧ ∀ later ∈ after, later.id ≠ id

theorem tool?_eq_some_iff {id : String} {tool : Tool} :
    o.tool? id = some tool ↔ o.Binds id tool := by
  rw [tool?, List.find?_eq_some_iff_append]
  constructor
  · intro found
    obtain ⟨named, after, before, split, others⟩ := found
    refine ⟨before.reverse, after.reverse, ?_, beq_iff_eq.mp named, ?_⟩
    · rw [← List.reverse_reverse o.tools, split]
      simp
    · intro later member same
      have differs := others later (List.mem_reverse.mp member)
      simp [same] at differs
  · intro binds
    obtain ⟨before, after, split, named, others⟩ := binds
    refine ⟨beq_iff_eq.mpr named, after.reverse, before.reverse, ?_, ?_⟩
    · rw [split]
      simp
    · intro later member
      have differs := others later (List.mem_reverse.mp member)
      simp [differs]

theorem tool?_eq_some {id : String} {tool : Tool} (found : o.tool? id = some tool) :
    tool ∈ o.tools ∧ tool.id = id := by
  rcases tool?_eq_some_iff.mp found with ⟨before, after, split, named, -⟩
  refine ⟨?_, named⟩
  rw [split]
  exact List.mem_append_right before List.mem_cons_self

theorem exists_tool?_eq_some {id : String} (declared : id ∈ o.toolIds) :
    ∃ tool, o.tool? id = some tool := by
  obtain ⟨tool, member, rfl⟩ := List.mem_map.mp declared
  apply Option.isSome_iff_exists.mp
  rw [tool?, List.find?_isSome]
  exact ⟨tool, List.mem_reverse.mpr member, beq_self_eq_true tool.id⟩

/-- Each declared id stands for one tool, the last one with the id. -/
theorem exists_resolved {ids : List String} (declared : ∀ id ∈ ids, id ∈ o.toolIds) :
    ∃ tools, List.Forall₂ o.Binds ids tools ∧ ids.filterMap o.tool? = tools := by
  induction ids with
  | nil => exact ⟨[], .nil, rfl⟩
  | cons id ids ih =>
      obtain ⟨tools, bound, resolved⟩ :=
        ih fun other listed => declared other (List.mem_cons_of_mem id listed)
      obtain ⟨tool, found⟩ := exists_tool?_eq_some (declared id List.mem_cons_self)
      refine ⟨tool :: tools, .cons (tool?_eq_some_iff.mp found) bound, ?_⟩
      rw [List.filterMap_cons_some found, resolved]

theorem mem_compileAgent_tools {agent : Agent} {tool : Tool} :
    tool ∈ (o.compileAgent agent).tools ↔ ∃ id ∈ agent.tools, o.tool? id = some tool := by
  rw [compileAgent, mem_sortByKey, List.mem_filterMap]

/-! ## Targets -/

theorem targetsOf_perm (o : Orchestration) (id : String) :
    (o.targetsOf id).Perm ((o.edges.filter (·.source == id)).map Edge.target) := ascending_perm _

theorem mem_targetsOf {source target : String} : target ∈ o.targetsOf source ↔
    ∃ edge ∈ o.edges, edge.source = source ∧ edge.target = target := by
  rw [(targetsOf_perm o source).mem_iff, List.mem_map]
  simp only [List.mem_filter, beq_iff_eq, and_assoc]

/-! ## Topology -/

theorem topology_nodes_perm (o : Orchestration) : o.topology.nodes.Perm o.topologyNodes :=
  sortByKey_perm _ _

theorem topology_edges_perm (o : Orchestration) : o.topology.edges.Perm o.edges :=
  sortByKey_perm _ _

theorem map_id_topologyNodes (o : Orchestration) :
    o.topologyNodes.map TopologyNode.id = o.agentIds ++ o.toolIds ++ o.gateIds := by
  simp [topologyNodes, Function.comp_def]

theorem mem_topology_ids {id : String} :
    id ∈ o.topology.nodes.map TopologyNode.id ↔ id ∈ o.nodeIds := by
  rw [((topology_nodes_perm o).map _).mem_iff, map_id_topologyNodes, nodeIds]
  simp only [List.mem_append]
  tauto

theorem agents_topologyNodes (o : Orchestration) :
    (o.topologyNodes.filter (·.kind = .agent)).map TopologyNode.id = o.agentIds := by
  simp [topologyNodes, List.filter_map, Function.comp_def]

end Orchestration

namespace Project

theorem build_agents_perm (p : Project) :
    p.build.agents.Perm (p.orchestration.agents.map p.orchestration.compileAgent) :=
  sortByKey_perm _ _

theorem mem_build_agents {p : Project} {compiled : CompiledAgent} : compiled ∈ p.build.agents ↔
    ∃ agent ∈ p.orchestration.agents, p.orchestration.compileAgent agent = compiled := by
  rw [(build_agents_perm p).mem_iff, List.mem_map]

theorem build_agentIds_perm (p : Project) : p.build.agentIds.Perm p.orchestration.agentIds := by
  have compiled := (build_agents_perm p).map CompiledAgent.id
  rw [List.map_map] at compiled
  exact compiled

end Project

end Workflow
