import Workflow.Proofs.Paired
import Workflow.Proofs.Service.Assembly
import Workflow.Proofs.Service.Compilation

/-!
Projects whose declarations stand in another order. Being sound does not depend on the order, and
which tool an id stands for does only where several tools have that id.
-/

namespace Workflow

open Relation

/-- The same agent, but for the order of the tools that it refers to. -/
structure Agent.Rearranged (a b : Agent) : Prop where
  id : a.id = b.id
  name : a.name = b.name
  prompt : a.prompt = b.prompt
  memory : a.memory = b.memory
  policies : a.policies = b.policies
  tools : a.tools.Perm b.tools

/-- The same orchestration, but for the order of what is declared in it, and but for its own id and
name. -/
structure Orchestration.Rearranged (o o' : Orchestration) : Prop where
  start : o.startNode = o'.startNode
  agents : ∃ middle, o.agents.Perm middle ∧ List.Forall₂ Agent.Rearranged middle o'.agents
  tools : o.tools.Perm o'.tools
  gates : o.gates.Perm o'.gates
  edges : o.edges.Perm o'.edges
  outputs : o.outputs.Perm o'.outputs

/-- The same project, but for the order of what is declared in it, and but for what no service
shows. -/
structure Project.Rearranged (p q : Project) : Prop where
  id : p.id = q.id
  name : p.name = q.name
  version : p.version = q.version
  metadata : p.metadata = q.metadata
  start : p.orchestration.startNode = q.orchestration.startNode
  agents : ∃ middle, p.orchestration.agents.Perm middle ∧
    List.Forall₂ Agent.Rearranged middle q.orchestration.agents
  tools : p.orchestration.tools.Perm q.orchestration.tools
  gates : p.orchestration.gates.Perm q.orchestration.gates
  edges : p.orchestration.edges.Perm q.orchestration.edges
  outputs : p.orchestration.outputs.Perm q.orchestration.outputs

theorem Agent.Rearranged.refl (a : Agent) : a.Rearranged a := ⟨rfl, rfl, rfl, rfl, rfl, .refl _⟩

theorem Agent.Rearranged.digitsFit_eq {a b : Agent} (rearranged : a.Rearranged b) :
    (a.toValue .wire).digitsFit = (b.toValue .wire).digitsFit := by
  rw [Bool.eq_iff_iff, digitsFit_iff, digitsFit_iff, rearranged.memory, rearranged.policies]

/-- Every list of the project backwards. -/
def Project.reversed (p : Project) : Project :=
  { p with
    orchestration :=
      { p.orchestration with
        agents := (p.orchestration.agents.map fun agent =>
          { agent with tools := agent.tools.reverse }).reverse
        tools := p.orchestration.tools.reverse
        gates := p.orchestration.gates.reverse
        edges := p.orchestration.edges.reverse
        outputs := p.orchestration.outputs.reverse } }

theorem Project.rearranged_reversed (p : Project) : p.Rearranged p.reversed where
  id := rfl
  name := rfl
  version := rfl
  metadata := rfl
  start := rfl
  agents := by
    refine ⟨p.orchestration.agents.reverse, (List.reverse_perm _).symm, ?_⟩
    rw [reversed, List.forall₂_reverse_iff, List.forall₂_map_right_iff, List.forall₂_same]
    intro agent listed
    exact ⟨rfl, rfl, rfl, rfl, rfl, (List.reverse_perm _).symm⟩
  tools := (List.reverse_perm _).symm
  gates := (List.reverse_perm _).symm
  edges := (List.reverse_perm _).symm
  outputs := (List.reverse_perm _).symm

namespace Orchestration.Rearranged

variable {o o' : Orchestration}

theorem exists_agent (rearranged : o.Rearranged o') {agent : Agent} (listed : agent ∈ o'.agents) :
    ∃ other ∈ o.agents, other.Rearranged agent := by
  obtain ⟨middle, perm, paired⟩ := rearranged.agents
  obtain ⟨other, member, same⟩ := exists_left_of_forall₂ paired listed
  exact ⟨other, perm.mem_iff.mpr member, same⟩

theorem agentIds (rearranged : o.Rearranged o') : o.agentIds.Perm o'.agentIds := by
  obtain ⟨middle, perm, paired⟩ := rearranged.agents
  have ids : middle.map Agent.id = o'.agents.map Agent.id := by
    rw [map_eq_map_iff_forall₂]
    exact paired.imp fun _ _ same => same.id
  calc
    o.agentIds.Perm (middle.map Agent.id) := perm.map Agent.id
    middle.map Agent.id = o'.agentIds := ids

theorem toolIds (rearranged : o.Rearranged o') : o.toolIds.Perm o'.toolIds :=
  rearranged.tools.map Tool.id

theorem gateIds (rearranged : o.Rearranged o') : o.gateIds.Perm o'.gateIds :=
  rearranged.gates.map Gate.id

theorem nodeIds (rearranged : o.Rearranged o') : o.nodeIds.Perm o'.nodeIds :=
  (rearranged.agentIds.append rearranged.gateIds).append rearranged.toolIds

theorem mem_nodeIds_iff (rearranged : o.Rearranged o') {id : String} :
    id ∈ o.nodeIds ↔ id ∈ o'.nodeIds := rearranged.nodeIds.mem_iff

theorem edgesLead (rearranged : o.Rearranged o') : EdgesLead o.edges = EdgesLead o'.edges := by
  funext source target
  simp only [EdgesLead, rearranged.edges.mem_iff]

theorem sound (rearranged : o.Rearranged o') (sound : o.Sound) : o'.Sound where
  start := rearranged.mem_nodeIds_iff.mp (rearranged.start ▸ sound.start)
  tools := by
    intro agent listed id referred
    obtain ⟨other, member, same⟩ := rearranged.exists_agent listed
    exact rearranged.toolIds.mem_iff.mp
      (sound.tools other member id (same.tools.mem_iff.mpr referred))
  edges := by
    intro edge listed
    obtain ⟨source, target⟩ := sound.edges edge (rearranged.edges.mem_iff.mpr listed)
    exact ⟨rearranged.mem_nodeIds_iff.mp source, rearranged.mem_nodeIds_iff.mp target⟩
  acyclic := by
    have acyclic := sound.acyclic
    rw [Acyclic, rearranged.edgesLead] at acyclic
    exact acyclic
  outputs := by
    intro output listed
    exact rearranged.mem_nodeIds_iff.mp
      (sound.outputs output (rearranged.outputs.mem_iff.mpr listed))

end Orchestration.Rearranged

namespace Project.Rearranged

variable {p q : Project}

theorem orchestration (rearranged : p.Rearranged q) :
    p.orchestration.Rearranged q.orchestration where
  start := rearranged.start
  agents := rearranged.agents
  tools := rearranged.tools
  gates := rearranged.gates
  edges := rearranged.edges
  outputs := rearranged.outputs

theorem sound (rearranged : p.Rearranged q) (sound : p.orchestration.Sound) :
    q.orchestration.Sound := rearranged.orchestration.sound sound

/-- Where no two tools have one id, the order of the tools does not matter. -/
theorem tool?_eq (rearranged : p.Rearranged q) (distinct : p.orchestration.toolIds.Nodup)
    {id : String} (declared : id ∈ p.orchestration.toolIds) :
    ∃ tool, p.orchestration.tool? id = some tool ∧ q.orchestration.tool? id = some tool := by
  obtain ⟨tool, found⟩ := Orchestration.exists_tool?_eq_some declared
  obtain ⟨tool', found'⟩ :=
    Orchestration.exists_tool?_eq_some (rearranged.orchestration.toolIds.mem_iff.mp declared)
  obtain ⟨member, named⟩ := Orchestration.tool?_eq_some found
  obtain ⟨member', named'⟩ := Orchestration.tool?_eq_some found'
  have same : tool = tool' := List.inj_on_of_nodup_map distinct member
    (rearranged.tools.mem_iff.mpr member') (named.trans named'.symm)
  exact ⟨tool, found, same ▸ found'⟩

theorem unwritable_of_distinct (rearranged : p.Rearranged q) (sound : p.orchestration.Sound)
    (distinct : p.orchestration.toolIds.Nodup) (unwritable : q.Unwritable) : p.Unwritable := by
  obtain ⟨agent, listed, part⟩ := unwritable
  obtain ⟨other, member, same⟩ := rearranged.orchestration.exists_agent listed
  refine ⟨other, member, ?_⟩
  rcases part with long | ⟨id, referred, tool, found, unwritable⟩
  · exact .inl (same.digitsFit_eq.trans long)
  · have referred' := same.tools.mem_iff.mpr referred
    obtain ⟨tool', found', foundOther⟩ :=
      rearranged.tool?_eq distinct (sound.tools other member id referred')
    obtain rfl := Option.some_inj.mp (found.symm.trans foundOther)
    exact .inr ⟨id, referred', tool, found', unwritable⟩

end Project.Rearranged

end Workflow
