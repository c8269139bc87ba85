import Workflow.Proofs.Service.Assembly
import Workflow.Proofs.Service.Compilation
import Workflow.Proofs.Service.Reread
import Workflow.Proofs.Toml.Distinct
import Workflow.Service.Store

/-!
Services that come from documents. A compiled service is put together out of parts that were read,
so there is a document of the service as well; and no file gives a document with a key twice. Main
statements: services that are compiled or loaded are validated.
-/

namespace Workflow

variable {α : Type} {read : Value → Option α}

/-- Reads a field that may be `null`. -/
def orNull (read : Value → Option α) : Value → Option (Option α)
  | .null => some none
  | v => (read v).map some

namespace Entries

variable {entries : Entries} {name wireName : String} {v : Value}

theorem required_of_lookup (found : entries.lookup wireName = some v) :
    entries.required name wireName read = read v := by
  rw [required, Record.read?_of_lookup found]
  rfl

theorem optional_of_lookup (found : entries.lookup wireName = some v) :
    entries.optional name wireName read = orNull read v := by
  rw [optional, Record.read?_of_lookup found]
  cases v <;> rfl

end Entries

namespace Documented

/-! ## Documents out of parts -/

theorem string (s : String) : Documented Value.string? s := ⟨.text s, .text s, rfl⟩

theorem list {items : List α} (each : ∀ a ∈ items, Documented read a) :
    Documented (Value.listOf? read) items := by
  obtain ⟨values, paired⟩ := Lawful.exists_forall₂ each
  refine ⟨.list values, .list ?_, ?_⟩
  · intro value listed
    obtain ⟨a, -, distinct, -⟩ := exists_left_of_forall₂ paired listed
    exact distinct
  · rw [Lawful.listOf?_eq_some_iff]
    exact ⟨values, rfl, paired.flip.imp fun _ _ both => both.2⟩

theorem orNull (none : read .null = none) {o : Option α} (set : ∀ a ∈ o, Documented read a) :
    Documented (orNull read) o := by
  cases o with
  | none => exact ⟨.null, .null, rfl⟩
  | some a =>
      obtain ⟨v, distinct, found⟩ := set a rfl
      refine ⟨v, distinct, ?_⟩
      cases v with
      | null =>
          rw [none] at found
          cases found
      | _ => exact congrArg (Option.map some) found

end Documented

/-! ## Models -/

theorem CompiledAgent.documented {a : CompiledAgent} (id : Documented Value.nonEmpty? a.id)
    (name : Documented Value.nonEmpty? a.name) (prompt : Documented Value.nonEmpty? a.prompt)
    (tools : ∀ tool ∈ a.tools, Documented Tool.ofValue? tool)
    (memory : ∀ memory ∈ a.memory, Documented Memory.ofValue? memory)
    (policies : ∀ policies ∈ a.policies, Documented Policies.ofValue? policies) :
    Documented ofValue? a := by
  obtain ⟨id, idDistinct, readId⟩ := id
  obtain ⟨name, nameDistinct, readName⟩ := name
  obtain ⟨prompt, promptDistinct, readPrompt⟩ := prompt
  obtain ⟨tools, toolsDistinct, readTools⟩ := Documented.list tools
  have targets : Documented (Value.listOf? Value.string?) a.next :=
    .list fun target _ => .string target
  obtain ⟨next, nextDistinct, readNext⟩ := targets
  obtain ⟨memory, memoryDistinct, readMemory⟩ := Documented.orNull rfl memory
  obtain ⟨policies, policiesDistinct, readPolicies⟩ := Documented.orNull rfl policies
  refine ⟨.table [("id", id), ("name", name), ("prompt", prompt), ("tools", tools),
    ("nextAgents", next), ("memory", memory), ("policies", policies)], ?_, ?_⟩
  · simp [*]
  · rw [ofValue?, Value.entries?]
    simp only [Option.bind_eq_bind, Option.bind_some]
    rw [Entries.required_of_lookup (by rfl), readId, Entries.required_of_lookup (by rfl), readName,
      Entries.required_of_lookup (by rfl), readPrompt, Entries.required_of_lookup (by rfl),
      readTools, Entries.required_of_lookup (by rfl), readNext, Entries.optional_of_lookup (by rfl),
      readMemory, Entries.optional_of_lookup (by rfl), readPolicies]
    rfl

theorem TopologyNode.documented (n : TopologyNode) : Documented ofValue? n := by
  obtain ⟨id, kind⟩ := n
  refine ⟨.table [("id", .text id), ("type", Labelled.toValue kind)], ?_, ?_⟩
  · simp [Labelled.toValue]
  · cases kind <;> rfl

theorem Topology.documented {t : Topology}
    (edges : ∀ edge ∈ t.edges, Documented Edge.ofValue? edge) : Documented ofValue? t := by
  obtain ⟨nodes, nodesDistinct, readNodes⟩ :=
    Documented.list fun node (_ : node ∈ t.nodes) => node.documented
  obtain ⟨edges, edgesDistinct, readEdges⟩ := Documented.list edges
  refine ⟨.table [("nodes", nodes), ("edges", edges)], ?_, ?_⟩
  · simp [*]
  · rw [ofValue?, Value.entries?]
    simp only [Option.bind_eq_bind, Option.bind_some]
    rw [Entries.required_of_lookup (by rfl), readNodes, Entries.required_of_lookup (by rfl),
      readEdges]
    rfl

theorem Service.documented {s : Service} (id : Documented Value.nonEmpty? s.id)
    (name : Documented Value.nonEmpty? s.name) (version : Documented Value.nonEmpty? s.version)
    (agents : ∀ agent ∈ s.agents, Documented CompiledAgent.ofValue? agent)
    (start : Documented Value.nonEmpty? s.startAgent)
    (topology : Documented Topology.ofValue? s.topology)
    (metadata : ∀ metadata ∈ s.metadata, Documented Metadata.ofValue? metadata) :
    Documented ofValue? s := by
  obtain ⟨id, idDistinct, readId⟩ := id
  obtain ⟨name, nameDistinct, readName⟩ := name
  obtain ⟨version, versionDistinct, readVersion⟩ := version
  obtain ⟨agents, agentsDistinct, readAgents⟩ := Documented.list agents
  obtain ⟨start, startDistinct, readStart⟩ := start
  have targets : Documented (Value.listOf? Value.string?) s.outputs :=
    .list fun output _ => .string output
  obtain ⟨outputs, outputsDistinct, readOutputs⟩ := targets
  obtain ⟨topology, topologyDistinct, readTopology⟩ := topology
  obtain ⟨metadata, metadataDistinct, readMetadata⟩ := Documented.orNull rfl metadata
  refine ⟨.table [("id", id), ("name", name), ("version", version), ("agents", agents),
    ("startAgent", start), ("outputs", outputs), ("topology", topology), ("metadata", metadata)],
    ?_, ?_⟩
  · simp [*]
  · rw [ofValue?, Value.entries?]
    simp only [Option.bind_eq_bind, Option.bind_some]
    rw [Entries.required_of_lookup (by rfl), readId, Entries.required_of_lookup (by rfl), readName,
      Entries.required_of_lookup (by rfl), readVersion, Entries.required_of_lookup (by rfl),
      readAgents, Entries.required_of_lookup (by rfl), readStart,
      Entries.required_of_lookup (by rfl), readOutputs, Entries.required_of_lookup (by rfl),
      readTopology, Entries.optional_of_lookup (by rfl), readMetadata]
    rfl

/-! ## Projects -/

theorem Orchestration.PartsDocumented.compileAgent {o : Orchestration} (parts : o.PartsDocumented)
    {agent : Agent} (declared : agent ∈ o.agents) :
    Documented CompiledAgent.ofValue? (o.compileAgent agent) := by
  obtain ⟨id, name, prompt, memory, policies⟩ :=
    Agent.documented_parts (parts.agents agent declared)
  refine CompiledAgent.documented id name prompt ?_ memory policies
  intro tool held
  obtain ⟨_, -, found⟩ := mem_compileAgent_tools.mp held
  exact parts.tools tool (tool?_eq_some found).1

theorem Orchestration.PartsDocumented.topology {o : Orchestration} (parts : o.PartsDocumented) :
    Documented Topology.ofValue? o.topology := by
  apply Topology.documented
  intro edge listed
  exact parts.edges edge ((topology_edges_perm o).mem_iff.mp listed)

theorem Project.Validated.build {p : Project} (validated : p.Validated) : p.build.Validated := by
  have parts := validated.partsDocumented
  obtain ⟨document, distinct, read⟩ := validated
  have found := readAs_eq_ok_iff.mp read
  simp only [Project.ofValue?, Option.bind_eq_bind, Option.bind_eq_some_iff, Option.some_inj]
    at found
  obtain ⟨entries, isTable, id, readId, name, readName, version, readVersion, description, -, o, -,
    evaluations, -, metadata, readMetadata, rfl⟩ := found
  obtain rfl := Lawful.eq_table_of_entries? isTable
  have documented : Documented Service.ofValue? (Project.build
      ⟨id, name, version, description, o, evaluations, metadata⟩) := by
    refine Service.documented (.of_required distinct readId) (.of_required distinct readName)
      (.of_required distinct readVersion) ?_ parts.start parts.topology
      (.of_optional distinct readMetadata)
    intro compiled listed
    obtain ⟨agent, declared, rfl⟩ := Project.mem_build_agents.mp listed
    exact parts.compileAgent declared
  obtain ⟨v, distinct', read'⟩ := documented
  exact ⟨v, distinct', Service.read_eq_ok_iff.mpr read'⟩

/-! ## Compiled services and loaded services -/

theorem Compilation.validated_of_ofDocument {document : Value} {s : Service}
    (distinct : document.KeysDistinct) (done : ofDocument document = .done s) : s.Validated := by
  rw [ofDocument] at done
  split at done
  next p read =>
    obtain ⟨-, -, rfl⟩ := Project.compilation_eq_done_iff.mp done
    exact Project.Validated.build ⟨document, distinct, read⟩
  next => cases done

theorem Document.load_distinct {d : Disk} {path : Path} {entries : Entries}
    (loaded : load d path = .ok entries) : (Value.table entries).KeysDistinct := by
  rw [load] at loaded
  split at loaded
  · cases loaded
  next format suffix =>
    obtain ⟨content, -, loaded⟩ := Except.andThen_eq_ok_iff.mp loaded
    obtain ⟨text, -, parsed⟩ := Except.andThen_eq_ok_iff.mp loaded
    cases format with
    | toml => exact Toml.read_distinct (Except.mapError_eq_ok_iff.mp parsed)
    | json =>
        rw [parse] at parsed
        split at parsed
        · cases parsed
        next found =>
          cases parsed
          exact Json.read_distinct found
        · cases parsed

theorem Service.validated_of_load {d : Disk} {path : Path} {s : Service}
    (loaded : load d path = .ok s) : s.Validated := by
  rw [load] at loaded
  split at loaded
  · cases loaded
  next entries document =>
    exact ⟨_, Document.load_distinct document, Except.mapError_eq_ok_iff.mp loaded⟩

end Workflow
