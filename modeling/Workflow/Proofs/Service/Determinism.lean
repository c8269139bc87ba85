import Workflow.Proofs.Json.Injective
import Workflow.Proofs.Service.Closed
import Workflow.Proofs.Service.Rearranged
import Workflow.Proofs.Spec.Validated

/-!
Compiling does not depend on the order of declarations. Items that share an id are sorted by their
text, which tells them apart as far as their wire forms do, so every list of a service comes out the
same however its project was written. Main statement: the canonical texts of two rearranged projects
are equal exactly where the tools that their agents refer to have the same wire forms.
-/

namespace Workflow

/-! ## Items that sort alike -/

section

variable {α : Type} {id : α → String} {write : α → Value}

theorem tieBreak_eq_iff {v w : Value} (momentless : v.Momentless) (momentless' : w.Momentless) :
    tieBreak v = tieBreak w ↔ v.sorted = w.sorted :=
  Json.text_eq_iff ⟨rfl, [' '], rfl⟩ momentless.sorted momentless'.sorted

/-- The same id, and the same form up to the order of keys. -/
def Alike (id : α → String) (write : α → Value) (a b : α) : Prop :=
  id a = id b ∧ (write a).sorted = (write b).sorted

theorem alike_iff_sortKey (momentless : ∀ a, (write a).Momentless) (a b : α) :
    Alike id write a b ↔ (id a, tieBreak (write a)) = (id b, tieBreak (write b)) := by
  rw [Alike, Prod.mk.injEq, tieBreak_eq_iff (momentless a) (momentless b)]

/-- Lists whose items are alike in some order are alike one by one when they are sorted. -/
theorem forall₂_alike_sortByKey (momentless : ∀ a, (write a).Momentless)
    {items middle others : List α} (perm : items.Perm middle)
    (paired : List.Forall₂ (Alike id write) middle others) :
    List.Forall₂ (Alike id write)
      (sortByKey (fun a => (id a, tieBreak (write a))) items)
      (sortByKey (fun a => (id a, tieBreak (write a))) others) :=
  forall₂_sortByKey perm paired fun a _ b _ => alike_iff_sortKey momentless a b

theorem sorted_listValue_of_alike {items others : List α}
    (paired : List.Forall₂ (Alike id write) items others) :
    (listValue write items).sorted = (listValue write others).sorted := by
  rw [sorted_listValue_eq_iff, map_eq_map_iff_forall₂]
  exact paired.imp fun _ _ alike => alike.2

end

/-! ## Wire forms of services -/

theorem CompiledAgent.momentless (a : CompiledAgent) : (a.toValue .wire).Momentless := by
  simp [toValue, Tool.momentless, Memory.momentless, Policies.momentless]

theorem TopologyNode.momentless (n : TopologyNode) : (n.toValue .wire).Momentless := by
  simp [toValue, Labelled.toValue]

theorem Topology.momentless (t : Topology) : (t.toValue .wire).Momentless := by
  simp [toValue, TopologyNode.momentless, Edge.momentless]

theorem Service.momentless (s : Service) : s.wire.Momentless := by
  simp [wire, toValue, CompiledAgent.momentless, Topology.momentless, Metadata.momentless]

theorem Service.canonical_eq_iff (s t : Service) :
    s.canonical = t.canonical ↔ s.wire.sorted = t.wire.sorted :=
  Json.canonical_eq_iff s.momentless t.momentless

theorem CompiledAgent.exists_tool_of_sorted_eq {a b : CompiledAgent}
    (same : (a.toValue .wire).sorted = (b.toValue .wire).sorted) {tool : Tool}
    (held : tool ∈ a.tools) :
    ∃ other ∈ b.tools, (other.toValue .wire).sorted = (tool.toValue .wire).sorted :=
  Form.exists_item_of_sorted_eq same "tools" (Tool.toValue .wire) (by simp) (by simp) held

theorem Service.exists_agent_of_sorted_eq {s t : Service} (same : s.wire.sorted = t.wire.sorted)
    {agent : CompiledAgent} (listed : agent ∈ s.agents) :
    ∃ other ∈ t.agents, (other.toValue .wire).sorted = (agent.toValue .wire).sorted :=
  Form.exists_item_of_sorted_eq same "agents" (CompiledAgent.toValue .wire) (by simp) (by simp)
    listed

theorem NodeKind.label_injective (kind other : NodeKind) :
    Labelled.label kind = Labelled.label other → kind = other := by
  cases kind <;> cases other <;> decide

theorem TopologyNode.eq_iff_sortKey (n m : TopologyNode) : n = m ↔ n.sortKey = m.sortKey := by
  constructor
  · intro same
    rw [same]
  · intro same
    obtain ⟨ids, labels⟩ := Prod.mk.inj same
    have kinds := NodeKind.label_injective n.kind m.kind labels
    cases n
    cases m
    rw [TopologyNode.mk.injEq]
    exact ⟨ids, kinds⟩

/-! ## Compiled parts -/

namespace Orchestration

variable {o o' : Orchestration}

theorem targetsOf_eq (edges : o.edges.Perm o'.edges) (id : String) :
    o.targetsOf id = o'.targetsOf id := ascending_eq_of_perm ((edges.filter _).map Edge.target)

/-- Both orchestrations have a tool with the id, and the tools are alike. -/
def ToolsAlike (o o' : Orchestration) (id : String) : Prop :=
  ∃ tool tool', o.tool? id = some tool ∧ o'.tool? id = some tool' ∧
    Alike Tool.id (Tool.toValue .wire) tool tool'

theorem compileAgent_tools_alike {a b : Agent} (tools : a.tools.Perm b.tools)
    (alike : ∀ id ∈ a.tools, o.ToolsAlike o' id) :
    List.Forall₂ (Alike Tool.id (Tool.toValue .wire)) (o.compileAgent a).tools
      (o'.compileAgent b).tools := by
  apply forall₂_alike_sortByKey Tool.momentless (tools.filterMap o.tool?)
  have each : ∀ id ∈ b.tools, o.ToolsAlike o' id := by
    intro id member
    exact alike id (tools.mem_iff.mpr member)
  generalize b.tools = ids at each
  induction ids with
  | nil => exact .nil
  | cons id ids ih =>
      obtain ⟨tool, tool', found, found', same⟩ := each id List.mem_cons_self
      rw [List.filterMap_cons_some found, List.filterMap_cons_some found']
      exact .cons same (ih fun other member => each other (List.mem_cons_of_mem id member))

theorem compileAgent_alike {a b : Agent} (same : a.Rearranged b) (edges : o.edges.Perm o'.edges)
    (alike : ∀ id ∈ a.tools, o.ToolsAlike o' id) :
    Alike CompiledAgent.id (CompiledAgent.toValue .wire) (o.compileAgent a)
      (o'.compileAgent b) := by
  refine ⟨same.id, ?_⟩
  have tools := sorted_listValue_of_alike (compileAgent_tools_alike same.tools alike)
  rw [CompiledAgent.toValue, CompiledAgent.toValue]
  apply Form.sorted_record_congr
  simp only [List.map_cons, List.map_nil, Option.map_some, tools]
  simp only [compileAgent, same.id, same.name, same.prompt, same.memory, same.policies,
    targetsOf_eq edges]

theorem topology_alike (nodes : o.topologyNodes.Perm o'.topologyNodes)
    (edges : o.edges.Perm o'.edges) :
    (o.topology.toValue .wire).sorted = (o'.topology.toValue .wire).sorted := by
  have sameNodes : o.topology.nodes = o'.topology.nodes := by
    rw [← List.forall₂_eq_eq_eq]
    exact forall₂_sortByKey nodes (List.forall₂_refl _) fun n _ m _ =>
      TopologyNode.eq_iff_sortKey n m
  have alikeEdges : List.Forall₂ (Alike Edge.id (Edge.toValue .wire)) o.topology.edges
      o'.topology.edges :=
    forall₂_alike_sortByKey Edge.momentless edges (List.forall₂_same.mpr fun _ _ => ⟨rfl, rfl⟩)
  rw [Topology.toValue, Topology.toValue]
  apply Form.sorted_record_congr
  simp only [List.map_cons, List.map_nil, Option.map_some, sameNodes,
    sorted_listValue_of_alike alikeEdges]

end Orchestration

namespace Project.Rearranged

variable {p q : Project}

theorem topologyNodes (rearranged : p.Rearranged q) :
    p.orchestration.topologyNodes.Perm q.orchestration.topologyNodes :=
  ((rearranged.orchestration.agentIds.map _).append
    (rearranged.orchestration.toolIds.map _)).append (rearranged.orchestration.gateIds.map _)

/-- Agents whose tools are alike make services that are alike. -/
theorem wire_sorted_eq (rearranged : p.Rearranged q)
    (alike : ∀ agent ∈ p.orchestration.agents, ∀ id ∈ agent.tools,
      p.orchestration.ToolsAlike q.orchestration id) :
    p.build.wire.sorted = q.build.wire.sorted := by
  obtain ⟨middle, perm, paired⟩ := rearranged.agents
  have compiled : List.Forall₂ (Alike CompiledAgent.id (CompiledAgent.toValue .wire))
      (middle.map p.orchestration.compileAgent)
      (q.orchestration.agents.map q.orchestration.compileAgent) := by
    rw [List.forall₂_map_left_iff, List.forall₂_map_right_iff]
    have listed : ∀ agent ∈ middle, agent ∈ p.orchestration.agents := by
      intro agent member
      exact perm.mem_iff.mpr member
    apply ((List.forall₂_and_left ..).mpr ⟨listed, paired⟩).imp
    intro a b both
    exact Orchestration.compileAgent_alike both.2 rearranged.edges (alike a both.1)
  have agents : (listValue (CompiledAgent.toValue .wire) p.build.agents).sorted =
      (listValue (CompiledAgent.toValue .wire) q.build.agents).sorted :=
    sorted_listValue_of_alike
      (forall₂_alike_sortByKey CompiledAgent.momentless (perm.map _) compiled)
  have topology := Orchestration.topology_alike rearranged.topologyNodes rearranged.edges
  have outputs : ascending p.orchestration.outputs = ascending q.orchestration.outputs :=
    ascending_eq_of_perm rearranged.outputs
  rw [Service.wire, Service.wire, Service.toValue, Service.toValue]
  apply Form.sorted_record_congr
  simp only [List.map_cons, List.map_nil, Option.map_some, agents]
  simp only [build, topology, outputs, rearranged.id, rearranged.name, rearranged.version,
    rearranged.start, rearranged.metadata]

end Project.Rearranged

/-- The tools that an agent refers to can be told from the service. -/
theorem Project.toolsAlike_of_wire {p q : Project}
    (same : p.build.wire.sorted = q.build.wire.sorted)
    (sound : p.orchestration.Sound) {agent : Agent} (listed : agent ∈ p.orchestration.agents)
    {id : String} (referred : id ∈ agent.tools) :
    p.orchestration.ToolsAlike q.orchestration id := by
  obtain ⟨tool, found⟩ := Orchestration.exists_tool?_eq_some (sound.tools agent listed id referred)
  have held : tool ∈ (p.orchestration.compileAgent agent).tools :=
    Orchestration.mem_compileAgent_tools.mpr ⟨id, referred, found⟩
  obtain ⟨compiled, member, sameAgent⟩ :=
    Service.exists_agent_of_sorted_eq same (mem_build_agents.mpr ⟨agent, listed, rfl⟩)
  obtain ⟨tool', held', sameTool⟩ := CompiledAgent.exists_tool_of_sorted_eq sameAgent.symm held
  have named := (Orchestration.tool?_eq_some found).2
  have sameId := Tool.id_eq_of_sorted_eq sameTool
  obtain ⟨agent', -, rfl⟩ := mem_build_agents.mp member
  obtain ⟨id', -, found'⟩ := Orchestration.mem_compileAgent_tools.mp held'
  have named' := (Orchestration.tool?_eq_some found').2
  obtain rfl : id' = id := named'.symm.trans (sameId.trans named)
  exact ⟨tool, tool', found, found', sameId.symm, sameTool.symm⟩

/-! ## Rearranged projects -/

/-- The last tools with the id in both projects have the same wire form up to the order of keys. -/
def Project.SameTool (p q : Project) (id : String) : Prop :=
  ∃ tool tool', p.orchestration.tool? id = some tool ∧ q.orchestration.tool? id = some tool' ∧
    (tool.toValue .wire).Reordered (tool'.toValue .wire)

theorem Project.sameTool_iff {p : Project} (validated : p.Validated) (q : Project) (id : String) :
    p.SameTool q id ↔ p.orchestration.ToolsAlike q.orchestration id := by
  constructor
  · intro same
    obtain ⟨tool, tool', found, found', reordered⟩ := same
    obtain ⟨declared, named⟩ := Orchestration.tool?_eq_some found
    have named' := (Orchestration.tool?_eq_some found').2
    have sorted := (reordered.sorted_eq (validated.tool_keysDistinct declared)).1
    exact ⟨tool, tool', found, found', named.trans named'.symm, sorted⟩
  · intro alike
    obtain ⟨tool, tool', found, found', -, sorted⟩ := alike
    have declared := (Orchestration.tool?_eq_some found).1
    have reordered :=
      (Value.reordered_iff_sorted_eq (validated.tool_keysDistinct declared)).mpr sorted
    exact ⟨tool, tool', found, found', reordered⟩

/-- Where no two tools have one id, no order of declarations shows. -/
theorem Project.Rearranged.canonical_eq {p q : Project} (rearranged : p.Rearranged q)
    (sound : p.orchestration.Sound) (distinct : p.orchestration.toolIds.Nodup) :
    p.build.canonical = q.build.canonical := by
  rw [Service.canonical_eq_iff]
  apply rearranged.wire_sorted_eq
  intro agent listed id referred
  obtain ⟨tool, found, found'⟩ :=
    rearranged.tool?_eq distinct (sound.tools agent listed id referred)
  exact ⟨tool, tool, found, found', rfl, rfl⟩

theorem Project.Rearranged.canonical?_eq_none_iff {p q : Project} (rearranged : p.Rearranged q)
    (fits : ¬ p.Unwritable) (fits' : ¬ q.Unwritable) :
    p.build.canonical? = none ↔ q.build.canonical? = none := by
  rw [canonical?_build_eq_none_iff fits, canonical?_build_eq_none_iff fits', rearranged.metadata]

/-- A project that is rearranged compiles too, unless a tool that its agents refer to by then cannot
be written out. It has a canonical text exactly where the project has one, and the same one exactly
where, for each id that an agent refers to, the last tools with that id have the same wire form up
to the order of keys; so it is always the same where no two tools have one id. -/
theorem Project.compilation_rearranged {p q : Project} (validated : p.Validated)
    (rearranged : p.Rearranged q) {s : Service} (done : p.compilation = .done s) :
    ((∃ fault, q.compilation = .unwritable fault) ↔ q.Unwritable) ∧
      (¬ q.Unwritable → ∃ t, q.compilation = .done t ∧
        (s.canonical? = none ↔ t.canonical? = none) ∧ (s.canonical = t.canonical ↔
          ∀ agent ∈ p.orchestration.agents, ∀ id ∈ agent.tools, p.SameTool q id)) ∧
      (p.orchestration.toolIds.Nodup → ∃ t, q.compilation = .done t ∧
        s.canonical? = t.canonical? ∧ s.canonical = t.canonical ∧ s.digest = t.digest) := by
  obtain ⟨sound, fits, rfl⟩ := compilation_eq_done_iff.mp done
  have sound' := rearranged.sound sound
  have made (fits' : ¬ q.Unwritable) : q.compilation = .done q.build :=
    compilation_eq_done_iff.mpr ⟨sound', fits', rfl⟩
  refine ⟨?_, ?_, ?_⟩
  · rw [exists_compilation_eq_unwritable_iff]
    exact and_iff_right sound'
  · intro fits'
    refine ⟨q.build, made fits', rearranged.canonical?_eq_none_iff fits fits', ?_⟩
    rw [Service.canonical_eq_iff]
    simp only [sameTool_iff validated]
    constructor
    · intro same agent listed id referred
      exact toolsAlike_of_wire same sound listed referred
    · exact rearranged.wire_sorted_eq
  · intro distinct
    have fits' : ¬ q.Unwritable := fun unwritable =>
      fits (rearranged.unwritable_of_distinct sound distinct unwritable)
    have same := rearranged.canonical_eq sound distinct
    have written := rearranged.canonical?_eq_none_iff fits fits'
    refine ⟨q.build, made fits', Service.canonical?_eq_of_canonical_eq written same, same, ?_⟩
    rw [Service.digest, Service.digest, same]

theorem Project.compilation_rearranged_review : ∃ s t, reviewProject.compilation = .done s ∧
    reviewProject.reversed.compilation = .done t ∧ s.canonical? = t.canonical? ∧
      s.canonical = t.canonical ∧ s.digest = t.digest := by
  have validated : reviewProject.Validated := ⟨reviewProject.toValue .wire, by
    simp [reviewProject, toValue, Orchestration.toValue, Agent.toValue, Tool.toValue, Gate.toValue,
      Edge.toValue, Labelled.toValue, Form.wire_record, Form.setFields, listValue, Value.texts,
      Value.plain, Value.plainEntries], rfl⟩
  have done : reviewProject.compilation = .done reviewProject.build :=
    compilation_of_sound reviewProject_sound (not_unwritable_of_parts (by decide) (by decide))
  have rearranged := compilation_rearranged validated reviewProject.rearranged_reversed done
  obtain ⟨t, done', same⟩ := rearranged.2.2 (by decide)
  exact ⟨_, t, done, done', same⟩

/-- A project that is rearranged does not always compile: the tool that comes last may be too deep
to be written out. -/
theorem Project.rearranged_not_done :
    (nestedProject [255, 0]).Validated ∧ (nestedProject [0, 255]).Validated ∧
      (nestedProject [255, 0]).Rearranged (nestedProject [0, 255]) ∧
      (∃ s, (nestedProject [255, 0]).compilation = .done s) ∧
      ¬ ∃ t, (nestedProject [0, 255]).compilation = .done t := by
  refine ⟨nestedProject_validated _, nestedProject_validated _, ?_, ?_, ?_⟩
  · exact
      { id := rfl, name := rfl, version := rfl, metadata := rfl, start := rfl
        agents := ⟨_, List.Perm.refl _, List.forall₂_same.mpr fun agent _ => .refl agent⟩
        tools := List.Perm.swap _ _ []
        gates := List.Perm.refl _
        edges := List.Perm.refl _
        outputs := List.Perm.refl _ }
  · have fits : ¬ (nestedProject [255, 0]).Unwritable := by
      intro unwritable
      exact absurd ((nestedProject_unwritable_iff [255] 0).mp unwritable) (by decide)
    exact ⟨_, compilation_of_sound (nestedProject_sound (List.cons_ne_nil _ _)) fits⟩
  · intro made
    obtain ⟨t, done⟩ := made
    have unwritable := (nestedProject_unwritable_iff [0] 255).mpr (Nat.le_refl 255)
    exact (compilation_eq_done_iff.mp done).2.1 unwritable

end Workflow
