import Workflow.Proofs.Service.Closed
import Workflow.Service.Consistency

/-!
Runs of a service, which go from its start agent to any of the ids that each agent may go on to.
Main statement: in a consistent service every id on a run is the id of an agent, and a run of a
compiled service comes to no id twice.
-/

namespace Workflow

open Relation

namespace Service

variable {s : Service} {run : List String}

/-- An agent may go on to `next`. Of several agents with its id the first one is meant. -/
def LeadsOn (s : Service) (id next : String) : Prop :=
  ∃ agent, s.agent? id = some agent ∧ next ∈ agent.next

/-- The ids that an execution comes to, one after the other. -/
structure IsRun (s : Service) (run : List String) : Prop where
  start : run.head? = some s.startAgent
  steps : run.IsChain s.LeadsOn

/-! ## Consistent services -/

theorem fault?_eq_none_iff : s.fault? = none ↔
    s.startAgent ∈ s.agentIds ∧ ∀ agent ∈ s.agents, ∀ id ∈ agent.next, id ∈ s.agentIds := by
  rw [fault?]
  split
  next member =>
    rw [List.head?_eq_none_iff, List.flatMap_eq_nil_iff]
    simp [member, CompiledAgent.danglingNext]
  next missing => simp [missing]

theorem exists_agent? {id : String} (listed : id ∈ s.agentIds) :
    ∃ agent, s.agent? id = some agent := by
  obtain ⟨agent, member, rfl⟩ := List.mem_map.mp listed
  apply Option.isSome_iff_exists.mp
  rw [agent?, List.find?_isSome]
  exact ⟨agent, member, beq_self_eq_true agent.id⟩

theorem agent?_eq_some {id : String} {agent : CompiledAgent} (found : s.agent? id = some agent) :
    agent ∈ s.agents ∧ agent.id = id := by
  have named := List.find?_some found
  exact ⟨List.mem_of_find?_eq_some found, beq_iff_eq.mp named⟩

/-- A step of a consistent service ends at an agent. -/
theorem LeadsOn.mem_agentIds (consistent : s.fault? = none) {id next : String}
    (leads : s.LeadsOn id next) : next ∈ s.agentIds := by
  obtain ⟨agent, found, member⟩ := leads
  exact (fault?_eq_none_iff.mp consistent).2 agent (agent?_eq_some found).1 next member

theorem IsRun.mem_agentIds (consistent : s.fault? = none) (isRun : s.IsRun run) {id : String}
    (member : id ∈ run) : id ∈ s.agentIds := by
  have starts : ∀ first, run.head? = some first → first ∈ s.agentIds := by
    intro first head
    rw [← Option.some_inj.mp (isRun.start.symm.trans head)]
    exact (fault?_eq_none_iff.mp consistent).1
  have steps := isRun.steps
  clear isRun
  -- What is left of the run starts at an agent again.
  induction run with
  | nil => cases member
  | cons first rest ih =>
      rcases List.mem_cons.mp member with rfl | later
      · exact starts id rfl
      · apply ih later _ steps.tail
        intro next head
        exact (steps.rel_head? head).mem_agentIds consistent

/-! ## Compiled services -/

/-- Where an agent of a closed service may go on to, an edge of the topology leads. -/
theorem LeadsOn.edgesLead (closed : s.Closed) {id next : String} (leads : s.LeadsOn id next) :
    EdgesLead s.topology.edges id next := by
  obtain ⟨agent, found, member⟩ := leads
  obtain ⟨listed, rfl⟩ := agent?_eq_some found
  rw [(closed.targets agent listed).mem_iff] at member
  obtain ⟨edge, leaving, rfl⟩ := List.mem_map.mp member
  obtain ⟨edgeListed, source⟩ := List.mem_filter.mp leaving
  exact ⟨edge, edgeListed, of_decide_eq_true source, rfl⟩

theorem IsRun.nodup (closed : s.Closed) (isRun : s.IsRun run) : run.Nodup := by
  have chained : run.IsChain (TransGen (EdgesLead s.topology.edges)) :=
    isRun.steps.imp fun _ _ leads => .single (leads.edgesLead closed)
  apply chained.pairwise.imp
  intro id later walk same
  rw [← same] at walk
  exact closed.acyclic id walk

/-- Agents that share an id go on alike, so it does not matter which one of them a run takes. -/
theorem build_leadsOn_iff {p : Project} {id next : String} : p.build.LeadsOn id next ↔
    id ∈ p.orchestration.agentIds ∧ EdgesLead p.orchestration.edges id next := by
  constructor
  · intro leads
    obtain ⟨agent, found, member⟩ := leads
    obtain ⟨listed, rfl⟩ := agent?_eq_some found
    obtain ⟨source, declared, rfl⟩ := Project.mem_build_agents.mp listed
    exact ⟨List.mem_map_of_mem declared, Orchestration.mem_targetsOf.mp member⟩
  · intro both
    obtain ⟨declared, leads⟩ := both
    obtain ⟨agent, found⟩ := exists_agent? ((Project.build_agentIds_perm p).mem_iff.mpr declared)
    obtain ⟨listed, rfl⟩ := agent?_eq_some found
    obtain ⟨source, -, rfl⟩ := Project.mem_build_agents.mp listed
    exact ⟨_, found, Orchestration.mem_targetsOf.mpr leads⟩

theorem build_fault?_eq_none_iff {p : Project} : p.build.fault? = none ↔
    p.orchestration.startNode ∈ p.orchestration.agentIds ∧
      ∀ edge ∈ p.orchestration.edges, edge.source ∈ p.orchestration.agentIds →
        edge.target ∈ p.orchestration.agentIds := by
  rw [fault?_eq_none_iff, (Project.build_agentIds_perm p).mem_iff]
  apply and_congr_right
  intro _
  simp only [(Project.build_agentIds_perm p).mem_iff]
  constructor
  · intro closed edge listed declared
    obtain ⟨agent, member, same⟩ := List.mem_map.mp declared
    apply closed _ (Project.mem_build_agents.mpr ⟨agent, member, rfl⟩)
    exact Orchestration.mem_targetsOf.mpr ⟨edge, listed, same.symm, rfl⟩
  · intro closed agent listed id member
    obtain ⟨source, declared, rfl⟩ := Project.mem_build_agents.mp listed
    obtain ⟨edge, edgeListed, same, rfl⟩ := Orchestration.mem_targetsOf.mp member
    exact closed edge edgeListed (same ▸ List.mem_map_of_mem declared)

/-- In a consistent service every id on a run is the id of an agent. No run of a compiled one comes
to an id twice, so that none is longer than the number of different ids of agents. -/
theorem runs_executable (consistent : s.fault? = none) :
    (∀ run, s.IsRun run → ∀ id ∈ run, ∃ agent, s.agent? id = some agent) ∧
      ∀ p : Project, p.compilation = .done s → ∀ run, s.IsRun run →
        run.Nodup ∧ run.length ≤ s.agentIds.dedup.length := by
  constructor
  · intro run isRun id member
    exact exists_agent? (isRun.mem_agentIds consistent member)
  · intro p done run isRun
    obtain ⟨sound, -, rfl⟩ := Project.compilation_eq_done_iff.mp done
    have distinct := isRun.nodup (Project.build_closed sound)
    have listed : run ⊆ p.build.agentIds.dedup := by
      intro id member
      exact List.mem_dedup.mpr (isRun.mem_agentIds consistent member)
    exact ⟨distinct, (List.subperm_of_subset distinct listed).length_le⟩

/-- Three agents in a row, where the first one may also go on to the last one. -/
def relayProject : Project :=
  { reviewProject with
    orchestration :=
      { reviewProject.orchestration with
        agents := [⟨"checker", "C", "Check", [], none, none⟩, ⟨"editor", "E", "Edit", [], none, none⟩,
          ⟨"writer", "W", "Write", ["search"], none, none⟩]
        gates := []
        edges := [⟨"1", "editor", "checker", none, none⟩, ⟨"2", "writer", "editor", none, none⟩,
          ⟨"3", "writer", "checker", none, none⟩] } }

theorem relayProject_done : relayProject.compilation = .done relayProject.build := by
  have sound : relayProject.orchestration.Sound :=
    { start := by decide
      tools := by decide
      edges := by decide
      acyclic := Orchestration.acyclic_of_rank ["writer", "editor", "checker"].idxOf (by decide)
      outputs := by decide }
  exact Project.compilation_of_sound sound
    (Project.not_unwritable_of_parts (by decide) (by decide))

theorem runs_executable_relay : ∃ s, relayProject.compilation = .done s ∧ s.fault? = none ∧
    s.IsRun ["writer", "editor", "checker"] ∧
    (∀ id ∈ ["writer", "editor", "checker"], ∃ agent, s.agent? id = some agent) ∧
    ["writer", "editor", "checker"].Nodup ∧
    ["writer", "editor", "checker"].length ≤ s.agentIds.dedup.length := by
  have consistent : relayProject.build.fault? = none :=
    build_fault?_eq_none_iff.mpr ⟨by decide, by decide⟩
  have isRun : relayProject.build.IsRun ["writer", "editor", "checker"] :=
    { start := rfl
      steps := by
        simp only [List.isChain_cons_cons, List.isChain_singleton, and_true, build_leadsOn_iff,
          EdgesLead]
        decide }
  have executable := runs_executable consistent
  exact ⟨_, relayProject_done, consistent, isRun, executable.1 _ isRun,
    executable.2 _ relayProject_done _ isRun⟩

end Service

end Workflow
