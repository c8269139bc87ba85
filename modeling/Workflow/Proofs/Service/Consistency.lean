import Workflow.Proofs.Service.Run

/-!
What the consistency check of a compiled service tells about its project. The agents of the service
stand in ascending order, and so do the ids that each may go on to, so the fault that is found first
is the least one. Main statement: the check passes exactly where the start node is an agent and
edges from agents lead to agents, and else it names the start node or the least edge that does not.
-/

namespace Workflow

/-- An edge leads from an agent to a node that is no agent. -/
def Orchestration.LeadsAstray (o : Orchestration) (ends : String × String) : Prop :=
  EdgesLead o.edges ends.1 ends.2 ∧ ends.1 ∈ o.agentIds ∧ ends.2 ∉ o.agentIds

namespace CompiledAgent

variable {a : CompiledAgent} {agents : List String}

theorem danglingNext_eq_nil_iff : a.danglingNext agents = [] ↔ ∀ id ∈ a.next, id ∈ agents := by
  simp [danglingNext]

/-- Ids in ascending order show the least one that is no agent's first. -/
theorem head?_danglingNext (ascending : a.next.Pairwise (· ≤ ·)) {fault : Fault}
    (head : (a.danglingNext agents).head? = some fault) :
    ∃ next ∈ a.next, next ∉ agents ∧ fault = .nextAgentMissing a.id next ∧
      ∀ other ∈ a.next, other ∉ agents → next ≤ other := by
  rw [danglingNext, List.head?_map, Option.map_eq_some_iff] at head
  rcases head with ⟨next, first, rfl⟩
  have mem_strays (id : String) :
      id ∈ a.next.filter (!agents.contains ·) ↔ id ∈ a.next ∧ id ∉ agents := by simp
  have sorted := ascending.filter (!agents.contains ·)
  obtain ⟨listed, missing⟩ := (mem_strays next).mp (List.mem_of_head? first)
  refine ⟨next, listed, missing, rfl, ?_⟩
  intro other listed' missing'
  have member := (mem_strays other).mpr ⟨listed', missing'⟩
  obtain ⟨rest, split⟩ := List.head?_eq_some_iff.mp first
  rw [split] at sorted member
  rcases List.mem_cons.mp member with rfl | later
  · exact String.le_refl other
  · exact (List.pairwise_cons.mp sorted).1 other later

end CompiledAgent

namespace Project

variable {p : Project}

theorem mem_build_next {agent : CompiledAgent} (compiled : agent ∈ p.build.agents) {id : String} :
    id ∈ agent.next ↔ EdgesLead p.orchestration.edges agent.id id := by
  obtain ⟨source, -, rfl⟩ := mem_build_agents.mp compiled
  exact Orchestration.mem_targetsOf

theorem exists_agent_of_leadsAstray {ends : String × String}
    (astray : p.orchestration.LeadsAstray ends) :
    ∃ agent ∈ p.build.agents, agent.id = ends.1 ∧ ends.2 ∈ agent.next ∧
      ends.2 ∉ p.build.agentIds := by
  rcases astray with ⟨leads, declared, missing⟩
  have compiled := (build_agentIds_perm p).mem_iff.mpr declared
  obtain ⟨agent, listed, same⟩ := List.mem_map.mp compiled
  refine ⟨agent, listed, same, ?_, mt (build_agentIds_perm p).mem_iff.mp missing⟩
  rw [mem_build_next listed, same]
  exact leads

theorem build_agents_ascending (p : Project) :
    p.build.agents.Pairwise fun agent later => agent.id < later.id ∨ agent.id = later.id := by
  have sorted : (p.build.agents.map CompiledAgent.sortKey).Pairwise KeyLe :=
    sortByKey_pairwise CompiledAgent.sortKey _
  rw [List.pairwise_map] at sorted
  apply sorted.imp
  intro agent later le
  exact le.imp_right And.left

/-- The agents before the first one that strays do not stray, and a later one with the same id goes
on to the same ids, so nothing less than the first pair leads astray. -/
theorem least_of_head?_danglingNext {fault : Fault}
    (head : (p.build.agents.flatMap (·.danglingNext p.build.agentIds)).head? = some fault) :
    ∃ ends : String × String, fault = .nextAgentMissing ends.1 ends.2 ∧
      p.orchestration.LeadsAstray ends ∧
      ∀ others, p.orchestration.LeadsAstray others → KeyLe ends others := by
  rw [List.head?_flatMap, List.findSome?_eq_some_iff] at head
  rcases head with ⟨before, agent, after, split, first, clear⟩
  have compiled : agent ∈ p.build.agents := by
    rw [split]
    exact List.mem_append_right before List.mem_cons_self
  obtain ⟨next, listed, missing, rfl, least⟩ :=
    CompiledAgent.head?_danglingNext (build_targets compiled).1 first
  have declared := (build_agentIds_perm p).mem_iff.mp (List.mem_map_of_mem compiled)
  refine ⟨(agent.id, next), rfl, ⟨(mem_build_next compiled).mp listed, declared, ?_⟩, ?_⟩
  · exact mt (build_agentIds_perm p).mem_iff.mpr missing
  · intro others astray
    obtain ⟨other, compiled', same, onward, missing'⟩ := exists_agent_of_leadsAstray astray
    have ordered : agent.id < other.id ∨ agent.id = other.id := by
      have sorted := build_agents_ascending p
      rw [split, List.pairwise_append, List.pairwise_cons] at sorted
      rw [split, List.mem_append, List.mem_cons] at compiled'
      rcases compiled' with early | rfl | late
      · have none := List.head?_eq_none_iff.mp (clear other early)
        exact absurd (CompiledAgent.danglingNext_eq_nil_iff.mp none others.2 onward) missing'
      · exact .inr rfl
      · exact sorted.2.1.1 other late
    -- Agents with one id go on alike, so a second one cannot stray to a lesser target.
    rcases ordered with less | equal
    · exact .inl (same ▸ less)
    · have shared : others.2 ∈ agent.next := by
        rw [mem_build_next compiled, equal]
        exact (mem_build_next compiled').mp onward
      exact .inr ⟨equal.trans same, least others.2 shared missing'⟩

end Project

/-- A compiled service is consistent exactly where its project starts at an agent and its edges lead
from agents to agents only. A start node that is no agent is the first fault; and else it is the
least pair of an agent and a target of one of its edges that is no agent. -/
theorem Service.fault?_exact {p : Project} {s : Service} (done : p.compilation = .done s) :
    (s.fault? = none ↔ p.orchestration.startNode ∈ p.orchestration.agentIds ∧
        ∀ edge ∈ p.orchestration.edges, edge.source ∈ p.orchestration.agentIds →
          edge.target ∈ p.orchestration.agentIds) ∧
      (p.orchestration.startNode ∉ p.orchestration.agentIds →
        s.fault? = some (.startAgentMissing p.orchestration.startNode)) ∧
      (p.orchestration.startNode ∈ p.orchestration.agentIds →
        (∃ ends, p.orchestration.LeadsAstray ends) →
        ∃ ends, s.fault? = some (.nextAgentMissing ends.1 ends.2) ∧
          p.orchestration.LeadsAstray ends ∧
          ∀ others, p.orchestration.LeadsAstray others → KeyLe ends others) := by
  obtain ⟨-, -, rfl⟩ := Project.compilation_eq_done_iff.mp done
  have start : p.build.startAgent ∈ p.build.agentIds ↔
      p.orchestration.startNode ∈ p.orchestration.agentIds :=
    (Project.build_agentIds_perm p).mem_iff
  refine ⟨build_fault?_eq_none_iff, ?_, ?_⟩
  · intro missing
    rw [fault?, if_neg (mt start.mp missing)]
    rfl
  · intro declared astray
    cases found : p.build.fault? with
    | none =>
        rcases astray with ⟨ends, ⟨edge, listed, source, target⟩, agent, stray⟩
        have closed := (build_fault?_eq_none_iff.mp found).2 edge listed (source ▸ agent)
        exact absurd (target ▸ closed) stray
    | some fault =>
        rw [fault?, if_pos (start.mpr declared)] at found
        obtain ⟨ends, rfl, least⟩ := Project.least_of_head?_danglingNext found
        exact ⟨ends, rfl, least⟩

/-- Two agents are declared with one id, and edges lead from agents to a gate and to a tool; the
edge that comes last leads astray first. -/
def strayProject : Project :=
  { reviewProject with
    orchestration :=
      { reviewProject.orchestration with
        agents := [⟨"writer", "W", "Write", ["search"], none, none⟩,
          ⟨"checker", "D", "Check twice", [], none, none⟩, ⟨"checker", "C", "Check", [], none, none⟩]
        edges := [⟨"1", "writer", "checker", none, none⟩, ⟨"2", "writer", "approval", none, none⟩,
          ⟨"3", "checker", "search", none, none⟩, ⟨"4", "checker", "approval", none, none⟩] } }

theorem strayProject_done : strayProject.compilation = .done strayProject.build := by
  have sound : strayProject.orchestration.Sound :=
    { start := by decide
      tools := by decide
      edges := by decide
      acyclic := Orchestration.acyclic_of_rank ["writer", "checker", "approval", "search"].idxOf
        (by decide)
      outputs := by decide }
  exact Project.compilation_of_sound sound
    (Project.not_unwritable_of_parts (by decide) (by decide))

theorem Service.fault?_exact_stray : ∃ s, strayProject.compilation = .done s ∧
    s.fault? = some (.nextAgentMissing "checker" "approval") := by
  have astray : strayProject.orchestration.LeadsAstray ("checker", "approval") :=
    ⟨⟨⟨"4", "checker", "approval", none, none⟩, by decide, rfl, rfl⟩, by decide, by decide⟩
  obtain ⟨ends, found, ⟨⟨edge, listed, source, target⟩, -⟩, least⟩ :=
    (fault?_exact strayProject_done).2.2 (by decide) ⟨_, astray⟩
  have only : ∀ edge ∈ strayProject.orchestration.edges, KeyLe edge.ends ("checker", "approval") →
      edge.ends = ("checker", "approval") := by decide
  have same : edge.ends = ends := Prod.ext source target
  have first := only edge listed (same ▸ least _ astray)
  rw [same] at first
  rw [first] at found
  exact ⟨_, strayProject_done, found⟩

end Workflow
