import Workflow.Proofs.Lint.SameGraph
import Workflow.Proofs.Service.Closed

/-!
What a compilation looks at. It reads the ids of tools and gates, the agents, the edges, and of the
tools only those that agents refer to and that no later one with the same id replaces. Main
statement: projects that agree in this have the same compilation, and a service holds no other
tools.
-/

namespace Workflow

namespace Orchestration

/-- The orchestrations agree in what a compilation looks at, which is not all that they declare:
of gates it is the ids, and of tools the ids and the last ones with the ids that agents refer to. -/
structure AgreesInEffect (o o' : Orchestration) : Prop where
  agents : o.agents = o'.agents
  edges : o.edges = o'.edges
  start : o.startNode = o'.startNode
  outputs : o.outputs = o'.outputs
  toolIds : o.toolIds = o'.toolIds
  gateIds : o.gateIds = o'.gateIds
  tools : ∀ agent ∈ o.agents, ∀ id ∈ agent.tools, ∀ tool, o.Binds id tool ↔ o'.Binds id tool

variable {o o' : Orchestration}

namespace AgreesInEffect

/-! ## Checks -/

theorem sameGraph (agrees : o.AgreesInEffect o') : o.SameGraph o' where
  agents := agrees.agents
  edges := agrees.edges
  start := agrees.start
  outputs := agrees.outputs
  toolIds := agrees.toolIds
  gateIds := agrees.gateIds

/-! ## Parts of a service -/

theorem tool?_eq (agrees : o.AgreesInEffect o') {agent : Agent} (listed : agent ∈ o.agents)
    {id : String} (referred : id ∈ agent.tools) : o.tool? id = o'.tool? id := by
  apply Option.ext
  intro tool
  rw [tool?_eq_some_iff, tool?_eq_some_iff]
  exact agrees.tools agent listed id referred tool

theorem resolved (agrees : o.AgreesInEffect o') {agent : Agent} (listed : agent ∈ o.agents) :
    agent.tools.filterMap o.tool? = agent.tools.filterMap o'.tool? :=
  List.filterMap_congr fun _ referred => agrees.tool?_eq listed referred

theorem compileAgent (agrees : o.AgreesInEffect o') {agent : Agent} (listed : agent ∈ o.agents) :
    o.compileAgent agent = o'.compileAgent agent := by
  simp only [Orchestration.compileAgent, targetsOf, agrees.resolved listed, agrees.edges]

theorem compiled (agrees : o.AgreesInEffect o') :
    o.agents.map o.compileAgent = o'.agents.map o'.compileAgent := by
  rw [← agrees.agents]
  exact List.map_congr_left fun _ listed => agrees.compileAgent listed

theorem topology (agrees : o.AgreesInEffect o') : o.topology = o'.topology := by
  simp only [Orchestration.topology, topologyNodes, agrees.sameGraph.agentIds, agrees.toolIds,
    agrees.gateIds, agrees.edges]

theorem usedTools (agrees : o.AgreesInEffect o') : o.usedTools = o'.usedTools := by
  rw [Orchestration.usedTools, Orchestration.usedTools, ← agrees.agents]
  exact List.flatMap_congr fun _ listed => agrees.resolved listed

end AgreesInEffect

end Orchestration

namespace Project

/-- The projects agree in what a compilation looks at; what they describe and how they are evaluated
is not part of it. -/
structure AgreesInEffect (p q : Project) : Prop where
  id : p.id = q.id
  name : p.name = q.name
  version : p.version = q.version
  metadata : p.metadata = q.metadata
  orchestration : p.orchestration.AgreesInEffect q.orchestration

variable {p q : Project}

namespace AgreesInEffect

theorem build (agrees : p.AgreesInEffect q) : p.build = q.build := by
  have graph := agrees.orchestration
  simp only [Project.build, agrees.id, agrees.name, agrees.version, agrees.metadata, graph.start,
    graph.outputs, graph.compiled, graph.topology]

theorem compile (agrees : p.AgreesInEffect q) : p.compile = q.compile := by
  rw [Project.compile, Project.compile, agrees.orchestration.sameGraph.lint, agrees.build]

theorem writeFault? (agrees : p.AgreesInEffect q) : p.writeFault? = q.writeFault? := by
  rw [Project.writeFault?, Project.writeFault?, agrees.orchestration.usedTools,
    agrees.orchestration.compiled]

theorem compilation (agrees : p.AgreesInEffect q) : p.compilation = q.compilation := by
  rw [Project.compilation, Project.compilation, agrees.compile, agrees.writeFault?]

end AgreesInEffect

theorem binds_of_mem_build_tools {agent : CompiledAgent} (compiled : agent ∈ p.build.agents)
    {tool : Tool} (held : tool ∈ agent.tools) : p.orchestration.Binds tool.id tool ∧
      ∃ source ∈ p.orchestration.agents, source.id = agent.id ∧ tool.id ∈ source.tools := by
  obtain ⟨source, listed, rfl⟩ := mem_build_agents.mp compiled
  obtain ⟨id, referred, found⟩ := Orchestration.mem_compileAgent_tools.mp held
  obtain rfl := (Orchestration.tool?_eq_some found).2
  exact ⟨Orchestration.tool?_eq_some_iff.mp found, source, listed, rfl, referred⟩

/-- Projects that agree in what a compilation looks at have the same compilation, be it a service or
a fault. The tools of a service are among those looked at: no tool that is replaced by a later one,
and none that no agent refers to, is in it. -/
theorem AgreesInEffect.noninterference (agrees : p.AgreesInEffect q) :
    p.compilation = q.compilation ∧
      ∀ s, p.compilation = .done s → ∀ agent ∈ s.agents, ∀ tool ∈ agent.tools,
        p.orchestration.Binds tool.id tool ∧
          ∃ source ∈ p.orchestration.agents, source.id = agent.id ∧ tool.id ∈ source.tools := by
  refine ⟨agrees.compilation, ?_⟩
  intro s done agent compiled tool held
  obtain ⟨-, -, rfl⟩ := compilation_eq_done_iff.mp done
  exact binds_of_mem_build_tools compiled held

/-- A secret stands wherever a compilation does not look, with credentials of a tool that is replaced
and of one that no agent refers to among these places. -/
def vaultProject (secret : String) : Project :=
  { reviewProject with
    description := some secret
    evaluations := some [⟨secret, secret, some secret, [], [], .dev⟩]
    orchestration :=
      { reviewProject.orchestration with
        id := secret
        name := secret
        tools := [⟨"search", secret, .mcp, [], some ⟨.apikey, some [("key", secret)]⟩⟩,
          ⟨"archive", secret, .rest, [(secret, .null)], some ⟨.bearer, some [("token", secret)]⟩⟩,
          ⟨"search", "S", .rest, [], none⟩]
        gates := [⟨"approval", .condition, some secret, some [secret], none⟩] } }

theorem vaultProject_agreesInEffect (secret other : String) :
    (vaultProject secret).AgreesInEffect (vaultProject other) where
  id := rfl
  name := rfl
  version := rfl
  metadata := rfl
  orchestration :=
    { agents := rfl
      edges := rfl
      start := rfl
      outputs := rfl
      toolIds := rfl
      gateIds := rfl
      tools := by
        intro agent listed id referred tool
        have search : id = "search" := by
          simp only [vaultProject, reviewProject, List.mem_cons, List.not_mem_nil,
            or_false] at listed
          rcases listed with rfl | rfl
          · cases referred
          · exact List.mem_singleton.mp referred
        subst search
        rw [← Orchestration.tool?_eq_some_iff, ← Orchestration.tool?_eq_some_iff]
        rfl }

theorem AgreesInEffect.noninterference_vault :
    (vaultProject "hunter2").compilation = (vaultProject "swordfish").compilation ∧
      ∃ s, (vaultProject "hunter2").compilation = .done s ∧
        ∀ agent ∈ s.agents, ∀ tool ∈ agent.tools,
          (vaultProject "hunter2").orchestration.Binds tool.id tool := by
  have sound : (vaultProject "hunter2").orchestration.Sound :=
    { start := by decide
      tools := by decide
      edges := by decide
      acyclic := reviewProject_sound.acyclic
      outputs := by decide }
  have done : (vaultProject "hunter2").compilation = .done (vaultProject "hunter2").build :=
    compilation_of_sound sound (not_unwritable_of_parts (by decide) (by decide))
  have agree := noninterference (vaultProject_agreesInEffect "hunter2" "swordfish")
  refine ⟨agree.1, _, done, ?_⟩
  intro agent compiled tool held
  exact (agree.2 _ done agent compiled tool held).1

end Project

end Workflow
