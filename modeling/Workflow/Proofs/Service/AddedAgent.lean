import Workflow.Proofs.Graph.Stable
import Workflow.Proofs.Lint.Inventory
import Workflow.Proofs.Service.AddedEdge

/-!
What one more agent does to a project that compiles, if its id is new, its tools are declared and no
edge joins it to the rest. Main statement: the project still compiles, unless the agent or a tool
that it refers to cannot be written out; the service changes only by the agent and its node, and the
checks point out one more node that is not reached.
-/

namespace Workflow

open Relation

/-- The same orchestration with other agents. -/
def Orchestration.withAgents (o : Orchestration) (agents : List Agent) : Orchestration :=
  { o with agents }

/-- The same project with other agents. -/
def Project.withAgents (p : Project) (agents : List Agent) : Project :=
  { p with orchestration := p.orchestration.withAgents agents }

/-- The agent with its tools in order and no ids to go on to. -/
def Agent.alone (a : Agent) (tools : List Tool) : CompiledAgent :=
  { id := a.id
    name := a.name
    prompt := a.prompt
    tools := sortByKey Tool.sortKey tools
    next := []
    memory := a.memory
    policies := a.policies }

/-- The findings that point out nodes that are not reached. -/
def Verdict.unreached (v : Verdict) : List Finding :=
  v.findings.filter (·.code = .unreachableNode)

namespace Orchestration

variable {o : Orchestration} {a : Agent} {agents : List Agent}

/-! ## Declarations -/

theorem agentIds_inserted (inserted : Inserted a o.agents agents) :
    Inserted a.id o.agentIds (o.withAgents agents).agentIds := inserted.map Agent.id

theorem mem_nodeIds_inserted (inserted : Inserted a o.agents agents) {id : String} :
    id ∈ (o.withAgents agents).nodeIds ↔ id = a.id ∨ id ∈ o.nodeIds := by
  have gates : (o.withAgents agents).gateIds = o.gateIds := rfl
  have tools : (o.withAgents agents).toolIds = o.toolIds := rfl
  rw [nodeIds, nodeIds, gates, tools]
  simp only [List.mem_append, (agentIds_inserted inserted).perm.mem_iff, List.mem_cons, or_assoc]

theorem sound_inserted (sound : o.Sound) (tools : ∀ id ∈ a.tools, id ∈ o.toolIds)
    (inserted : Inserted a o.agents agents) : (o.withAgents agents).Sound := by
  have declared {id : String} (old : id ∈ o.nodeIds) : id ∈ (o.withAgents agents).nodeIds :=
    (mem_nodeIds_inserted inserted).mpr (.inr old)
  constructor
  case start => exact declared sound.start
  case tools =>
    intro agent listed
    rcases List.mem_cons.mp (inserted.perm.mem_iff.mp listed) with rfl | old
    · exact tools
    · exact sound.tools agent old
  case edges =>
    intro edge listed
    exact ⟨declared (sound.edges edge listed).1, declared (sound.edges edge listed).2⟩
  case acyclic => exact sound.acyclic
  case outputs =>
    intro output listed
    exact declared (sound.outputs output listed)

/-! ## Compiled agents -/

theorem targetsOf_undeclared (declared : o.EdgesDeclared) {id : String} (fresh : id ∉ o.nodeIds) :
    o.targetsOf id = [] := by
  rw [List.eq_nil_iff_forall_not_mem]
  intro target member
  obtain ⟨edge, listed, rfl, -⟩ := mem_targetsOf.mp member
  exact fresh (declared edge listed).1

theorem compileAgent_eq_alone (declared : o.EdgesDeclared) (fresh : a.id ∉ o.nodeIds)
    {tools : List Tool} (resolved : a.tools.filterMap o.tool? = tools) :
    o.compileAgent a = a.alone tools := by
  rw [compileAgent, targetsOf_undeclared declared fresh, resolved, Agent.alone]

/-! ## Topology -/

theorem topologyNodes_inserted (inserted : Inserted a o.agents agents) :
    Inserted ⟨a.id, .agent⟩ o.topologyNodes (o.withAgents agents).topologyNodes := by
  have nodes := (agentIds_inserted inserted).map fun id => TopologyNode.mk id .agent
  exact (nodes.append_right _).append_right _

theorem topology_nodes_placed (fresh : a.id ∉ o.nodeIds) (inserted : Inserted a o.agents agents) :
    Placed TopologyNode.id ⟨a.id, .agent⟩ o.topology.nodes
      (o.withAgents agents).topology.nodes := by
  apply placed_sortByKey TopologyNode.sortKey (topologyNodes_inserted inserted)
  intro node listed same
  have declared : node.id ∈ o.nodeIds := by
    rw [← mem_topology_ids]
    exact List.mem_map_of_mem (mem_sortByKey.mpr listed)
  have ids : node.id = a.id := same
  exact fresh (ids ▸ declared)

/-! ## Reachability -/

/-- Nodes that are not reached are pointed out in ascending order, each one once. -/
theorem exists_unreached (sound : o.Sound) : ∃ reached : List String,
    (∀ id, id ∈ reached ↔ ReflTransGen (EdgesLead o.edges) o.startNode id) ∧
      o.lint.unreached =
        ((ascendingSet o.nodeIds).filter (!reached.contains ·)).map Finding.unreachable := by
  obtain ⟨reached, found, members⟩ := exists_reached sound.edges sound.start
  refine ⟨reached, members, ?_⟩
  have declared : o.startNode ∈ o.nodeIds := sound.start
  have reachability : o.checkReachability.findings =
      (if o.agents.isEmpty then [.noAgents] else []) ++
        ((ascendingSet o.nodeIds).filter (!reached.contains ·)).map .unreachable := by
    rw [checkReachability, if_pos declared, found, Option.getD_some]
  have same : o.lint.unreached = o.lint.findingsOf [.unreachableNode] := by
    simp [Verdict.unreached, Verdict.findingsOf]
  have blocks := lint_findingsOf reachability
  simp only [findingGroups, findingBlocks, List.map_cons, List.cons.injEq] at blocks
  rw [same, blocks.2.1]

/-- No edge leads to a node that is not declared. -/
theorem not_reached_undeclared (sound : o.Sound) {id : String} (fresh : id ∉ o.nodeIds) :
    ¬ ReflTransGen (EdgesLead o.edges) o.startNode id := by
  intro walk
  rcases ReflTransGen.cases_tail walk with same | ⟨before, -, edge, listed, -, rfl⟩
  · exact fresh (same ▸ sound.start)
  · exact fresh (sound.edges edge listed).2

theorem unreached_placed (sound : o.Sound) (fresh : a.id ∉ o.nodeIds)
    (tools : ∀ id ∈ a.tools, id ∈ o.toolIds) (inserted : Inserted a o.agents agents) :
    ∃ missed more, o.lint.unreached = missed.map Finding.unreachable ∧
      (o.withAgents agents).lint.unreached = more.map Finding.unreachable ∧
      Placed (fun id => id) a.id missed more := by
  obtain ⟨reached, members, missed⟩ := exists_unreached sound
  obtain ⟨reached', members', missed'⟩ := exists_unreached (sound_inserted sound tools inserted)
  refine ⟨_, _, missed, missed', ?_⟩
  have placed := placed_ascendingSet (fun _ => mem_nodeIds_inserted inserted) fresh
  apply placed.filter
  · have apart : a.id ∉ reached' := by
      rw [members']
      exact not_reached_undeclared sound fresh
    simpa using apart
  · intro id _
    have same : id ∈ reached' ↔ id ∈ reached := (members' id).trans (members id).symm
    simp [same]

end Orchestration

/-! ## Services -/

/-- The same service with one more agent and its node, each where its id belongs. -/
structure Service.GainsAgent (agent : CompiledAgent) (s t : Service) : Prop where
  kept :
    { t with agents := s.agents, topology := { t.topology with nodes := s.topology.nodes } } = s
  agents : Placed CompiledAgent.id agent s.agents t.agents
  nodes : Placed TopologyNode.id ⟨agent.id, .agent⟩ s.topology.nodes t.topology.nodes

namespace Project

variable {p : Project} {a : Agent} {agents : List Agent} {tools : List Tool}

theorem build_gainsAgent (sound : p.orchestration.Sound) (fresh : a.id ∉ p.orchestration.nodeIds)
    (resolved : a.tools.filterMap p.orchestration.tool? = tools)
    (inserted : Inserted a p.orchestration.agents agents) :
    p.build.GainsAgent (a.alone tools) (p.withAgents agents).build where
  kept := rfl
  agents := by
    rw [← Orchestration.compileAgent_eq_alone sound.edges fresh resolved]
    apply placed_sortByKey CompiledAgent.sortKey (inserted.map p.orchestration.compileAgent)
    intro compiled listed same
    obtain ⟨agent, declared, rfl⟩ := List.mem_map.mp listed
    have known : agent.id ∈ p.orchestration.nodeIds :=
      List.mem_append_left _ (List.mem_append_left _ (List.mem_map_of_mem declared))
    have ids : agent.id = a.id := same
    exact fresh (ids ▸ known)
  nodes := Orchestration.topology_nodes_placed fresh inserted

theorem unwritable_inserted_iff (resolved : a.tools.filterMap p.orchestration.tool? = tools)
    (inserted : Inserted a p.orchestration.agents agents) : (p.withAgents agents).Unwritable ↔
      ((a.toValue .wire).digitsFit = false ∨ ∃ tool ∈ tools, tool.Unwritable) ∨ p.Unwritable := by
  have listed (agent : Agent) : agent ∈ (p.withAgents agents).orchestration.agents ↔
      agent = a ∨ agent ∈ p.orchestration.agents := inserted.perm.mem_iff.trans List.mem_cons
  have same : (p.withAgents agents).orchestration.tool? = p.orchestration.tool? := rfl
  have own : (∃ tool ∈ tools, tool.Unwritable) ↔
      ∃ id ∈ a.tools, ∃ tool, p.orchestration.tool? id = some tool ∧ tool.Unwritable := by
    rw [← resolved]
    simp only [List.mem_filterMap]
    tauto
  rw [Unwritable, Unwritable, own, same]
  simp only [listed, exists_eq_or_imp]

/-- A project that compiles still does with one more agent that has an id of its own and refers to
declared tools, unless the agent or one of these tools cannot be written out. The service gains the
agent and its node, where their ids belong, and nothing else; and one more node is pointed out as
not reached, again where its id belongs. -/
theorem compilation_withAgent {s : Service} (done : p.compilation = .done s)
    (fresh : a.id ∉ p.orchestration.nodeIds)
    (declared : ∀ id ∈ a.tools, id ∈ p.orchestration.toolIds)
    (inserted : Inserted a p.orchestration.agents agents) :
    (∃ tools, List.Forall₂ p.orchestration.Binds a.tools tools ∧
      (((a.toValue .wire).digitsFit = false ∨ ∃ tool ∈ tools, tool.Unwritable) →
        ∃ fault, (p.withAgents agents).compilation = .unwritable fault) ∧
      ((a.toValue .wire).digitsFit = true → (∀ tool ∈ tools, ¬ tool.Unwritable) →
        ∃ t, (p.withAgents agents).compilation = .done t ∧ s.GainsAgent (a.alone tools) t)) ∧
    ∃ missed more, p.orchestration.lint.unreached = missed.map Finding.unreachable ∧
      (p.withAgents agents).orchestration.lint.unreached = more.map Finding.unreachable ∧
      Placed (fun id => id) a.id missed more := by
  obtain ⟨sound, fits, rfl⟩ := compilation_eq_done_iff.mp done
  have sound' := Orchestration.sound_inserted sound declared inserted
  obtain ⟨tools, bound, resolved⟩ := Orchestration.exists_resolved declared
  have unwritable_iff := unwritable_inserted_iff resolved inserted
  refine ⟨⟨tools, bound, ?_, ?_⟩, Orchestration.unreached_placed sound fresh declared inserted⟩
  · intro unwritable
    exact exists_compilation_eq_unwritable_iff.mpr ⟨sound', unwritable_iff.mpr (.inl unwritable)⟩
  · intro digits writable
    have fits' : ¬ (p.withAgents agents).Unwritable := by
      rw [unwritable_iff]
      rintro ((long | ⟨tool, listed, unwritable⟩) | unwritable)
      · exact Bool.noConfusion (long.symm.trans digits)
      · exact writable tool listed unwritable
      · exact fits unwritable
    exact ⟨_, compilation_of_sound sound' fits', build_gainsAgent sound fresh resolved inserted⟩

/-- An agent that no edge joins to three in a row. -/
def drafter : Agent := ⟨"drafter", "D", "Draft", ["search"], none, none⟩

theorem compilation_withAgent_relay :
    ∃ tools t, List.Forall₂ Service.relayProject.orchestration.Binds drafter.tools tools ∧
      (Service.relayProject.withAgents
        (drafter :: Service.relayProject.orchestration.agents)).compilation = .done t ∧
      Service.relayProject.build.GainsAgent (drafter.alone tools) t := by
  obtain ⟨⟨tools, bound, -, made⟩, -⟩ := compilation_withAgent Service.relayProject_done
    (a := drafter) (by decide) (by decide) ⟨[], _, rfl, rfl⟩
  have writable : ∀ tool ∈ tools, ¬ tool.Unwritable := by
    intro tool listed
    obtain ⟨id, -, binds⟩ := exists_left_of_forall₂ bound listed
    have found := Orchestration.tool?_eq_some (Orchestration.tool?_eq_some_iff.mpr binds)
    obtain rfl := List.mem_singleton.mp found.1
    decide
  obtain ⟨t, done, gains⟩ := made (by decide) writable
  exact ⟨tools, t, bound, done, gains⟩

/-- One agent that refers to no tool, next to a tool with nested lists. -/
def idleProject (depth : Nat) : Project :=
  (nestedProject [depth]).withAgents [⟨"a", "A", "Go", [], none, none⟩]

/-- An agent that refers to this tool. -/
def toolUser : Agent := ⟨"b", "B", "Check", ["t"], none, none⟩

theorem nestedProject_withAgents_validated {depth : Nat} {agents : List Agent}
    (distinct : (listValue (Agent.toValue .wire) agents).KeysDistinct)
    (read : Value.listOf? Agent.ofValue? (listValue (Agent.toValue .wire) agents) = some agents) :
    ((nestedProject [depth]).withAgents agents).Validated := by
  refine ⟨((nestedProject [depth]).withAgents agents).toValue .wire, ?_, ?_⟩
  · simpa [withAgents, Orchestration.withAgents, nestedProject, Project.toValue,
      Orchestration.toValue, nestedTool, Tool.toValue, Labelled.toValue, Form.wire_record,
      Form.setFields, listValue, Value.texts, Value.plain, Value.plainEntries, plain_nestedList,
      keysDistinct_nestedList] using distinct
  · have graph :
        Orchestration.ofValue? (((nestedProject [depth]).withAgents agents).orchestration.toValue
          .wire) =
        (Value.listOf? Agent.ofValue? (listValue (Agent.toValue .wire) agents)).bind fun agents =>
          (Value.listOf? Tool.ofValue? (listValue (Tool.toValue .wire) [nestedTool depth])).bind
            fun tools => some { (nestedProject [depth]).orchestration with agents, tools } := rfl
    have whole : Project.ofValue? (((nestedProject [depth]).withAgents agents).toValue .wire) =
        (Orchestration.ofValue? (((nestedProject [depth]).withAgents agents).orchestration.toValue
          .wire)).bind fun orchestration => some { nestedProject [depth] with orchestration } := rfl
    have tools : Value.listOf? Tool.ofValue?
        (listValue (Tool.toValue .wire) [nestedTool depth]) = some [nestedTool depth] :=
      mapM_nestedTool [depth]
    rw [Project.read, readAs, whole, graph, read, tools]
    rfl

theorem idleProject_done (depth : Nat) : (idleProject depth).compilation =
    .done (idleProject depth).build := by
  have sound := nestedProject_sound (List.cons_ne_nil depth [])
  rw [compilation_eq_done_iff]
  refine ⟨⟨sound.start, ?_, sound.edges, sound.acyclic, sound.outputs⟩, ?_, rfl⟩
  · intro agent listed id referred
    obtain rfl := List.mem_singleton.mp listed
    cases referred
  · rintro ⟨agent, listed, long | ⟨id, referred, -⟩⟩
    · obtain rfl := List.mem_singleton.mp listed
      exact absurd long (by decide)
    · obtain rfl := List.mem_singleton.mp listed
      cases referred

/-- A new agent may be the first one to refer to a tool that is too deep to be written out. -/
theorem withAgent_not_done :
    (idleProject 255).Validated ∧ (∃ s, (idleProject 255).compilation = .done s) ∧
      toolUser.id ∉ (idleProject 255).orchestration.nodeIds ∧
      (∀ id ∈ toolUser.tools, id ∈ (idleProject 255).orchestration.toolIds) ∧
      ∃ agents, Inserted toolUser (idleProject 255).orchestration.agents agents ∧
        ((idleProject 255).withAgents agents).Validated ∧
        ¬ ∃ t, ((idleProject 255).withAgents agents).compilation = .done t := by
  have validated : (idleProject 255).Validated := by
    apply nestedProject_withAgents_validated _ rfl
    simp [Agent.toValue, listValue, Form.wire_record, Form.setFields, Value.texts]
  have nodes : (idleProject 255).orchestration.nodeIds = ["a", "t"] := rfl
  have fresh : toolUser.id ∉ (idleProject 255).orchestration.nodeIds := by
    rw [nodes]
    decide
  refine ⟨validated, ⟨_, idleProject_done 255⟩, fresh, fun id listed => listed,
    [⟨"a", "A", "Go", [], none, none⟩, toolUser], ⟨[_], [], rfl, rfl⟩, ?_, ?_⟩
  · apply nestedProject_withAgents_validated _ rfl
    simp [toolUser, Agent.toValue, listValue, Form.wire_record, Form.setFields, Value.texts]
  · intro made
    obtain ⟨t, done⟩ := made
    apply (compilation_eq_done_iff.mp done).2.1
    refine ⟨toolUser, List.mem_cons_of_mem _ List.mem_cons_self, .inr ⟨"t", List.mem_cons_self, _,
      tool?_nestedProject [] 255, ?_⟩⟩
    exact (nestedTool_unwritable_iff 255).mpr (Nat.le_refl 255)

end Project

end Workflow
