import Workflow.Proofs.Spec.Models
import Workflow.Spec.Project

/-!
Projects that are read from documents. What a document's tables promise, that no key is there twice,
holds of every part of the document, and so of whatever is written of a part that was read.
-/

namespace Workflow

variable {α : Type} {read : Value → Option α}

theorem readAs_eq_ok_iff {shape : Shape} {v : Value} {a : α} :
    readAs shape read v = .ok a ↔ read v = some a := by
  rw [readAs]
  split
  next found => simp [found]
  next missing => simp [missing]

/-! ## Parts of documents -/

/-- The reader reads it from some value that has no key twice. -/
def Documented (read : Value → Option α) (a : α) : Prop :=
  ∃ v : Value, v.KeysDistinct ∧ read v = some a

namespace Documented

theorem of_required {entries : Entries} {name wireName : String} {a : α}
    (distinct : (Value.table entries).KeysDistinct)
    (found : entries.required name wireName read = some a) : Documented read a := by
  obtain ⟨entry, there, found⟩ := Option.bind_eq_some_iff.mp found
  exact ⟨entry.2, (Record.valuesDistinct distinct).read? there, found⟩

theorem of_optional {entries : Entries} {name wireName : String} {o : Option α}
    (distinct : (Value.table entries).KeysDistinct)
    (found : entries.optional name wireName read = some o) : ∀ a ∈ o, Documented read a := by
  rintro a rfl
  obtain ⟨entry, there, found⟩ := Record.exists_read?_of_optional found
  exact ⟨entry.2, (Record.valuesDistinct distinct).read? there, found⟩

theorem item {items : List α} (documented : Documented (Value.listOf? read) items) :
    ∀ a ∈ items, Documented read a := by
  obtain ⟨v, distinct, found⟩ := documented
  obtain ⟨values, rfl, each⟩ := Lawful.listOf?_eq_some_iff.mp found
  intro a listed
  obtain ⟨value, member, found⟩ := exists_left_of_forall₂ each listed
  exact ⟨value, distinct.item member, found⟩

end Documented

/-! ## Parts of projects -/

/-- The parts of an agent that its compiled form has as well. -/
theorem Agent.documented_parts {a : Agent} (documented : Documented ofValue? a) :
    Documented Value.nonEmpty? a.id ∧ Documented Value.nonEmpty? a.name ∧
      Documented Value.nonEmpty? a.prompt ∧
      (∀ memory ∈ a.memory, Documented Memory.ofValue? memory) ∧
      ∀ policies ∈ a.policies, Documented Policies.ofValue? policies := by
  obtain ⟨v, distinct, found⟩ := documented
  simp only [ofValue?, Option.bind_eq_bind, Option.bind_eq_some_iff, Option.some_inj] at found
  obtain ⟨entries, isTable, id, readId, name, readName, prompt, readPrompt, _, -, memory,
    readMemory, policies, readPolicies, rfl⟩ := found
  obtain rfl := Lawful.eq_table_of_entries? isTable
  exact ⟨.of_required distinct readId, .of_required distinct readName,
    .of_required distinct readPrompt, .of_optional distinct readMemory,
    .of_optional distinct readPolicies⟩

/-- The parts of a graph that the service's parts are made of. -/
structure Orchestration.PartsDocumented (o : Orchestration) : Prop where
  agents : ∀ agent ∈ o.agents, Documented Agent.ofValue? agent
  tools : ∀ tool ∈ o.tools, Documented Tool.ofValue? tool
  edges : ∀ edge ∈ o.edges, Documented Edge.ofValue? edge
  start : Documented Value.nonEmpty? o.startNode

theorem Orchestration.partsDocumented {o : Orchestration} (documented : Documented ofValue? o) :
    o.PartsDocumented := by
  obtain ⟨v, distinct, found⟩ := documented
  simp only [ofValue?, Option.bind_eq_bind, Option.bind_eq_some_iff, Option.some_inj] at found
  obtain ⟨entries, isTable, _, -, _, -, agents, readAgents, tools, readTools, _, -, edges,
    readEdges, start, readStart, _, -, rfl⟩ := found
  obtain rfl := Lawful.eq_table_of_entries? isTable
  exact
    { agents := (Documented.of_required distinct readAgents).item
      tools := (Documented.of_required distinct readTools).item
      edges := (Documented.of_required distinct readEdges).item
      start := .of_required distinct readStart }

/-- The project is what some document is read as. -/
def Project.Validated (p : Project) : Prop :=
  ∃ document : Value, document.KeysDistinct ∧ Project.read document = .ok p

theorem Project.Validated.partsDocumented {p : Project} (validated : p.Validated) :
    p.orchestration.PartsDocumented := by
  obtain ⟨document, distinct, read⟩ := validated
  have found := readAs_eq_ok_iff.mp read
  simp only [ofValue?, Option.bind_eq_bind, Option.bind_eq_some_iff, Option.some_inj] at found
  obtain ⟨entries, isTable, _, -, _, -, _, -, _, -, o, readGraph, _, -, _, -, rfl⟩ := found
  obtain rfl := Lawful.eq_table_of_entries? isTable
  exact Orchestration.partsDocumented (.of_required distinct readGraph)

theorem Project.Validated.tool_keysDistinct {p : Project} (validated : p.Validated) {tool : Tool}
    (declared : tool ∈ p.orchestration.tools) : (tool.toValue .wire).KeysDistinct := by
  obtain ⟨v, distinct, found⟩ := validated.partsDocumented.tools tool declared
  exact Tool.lawful.distinct Form.wire_standard distinct found

end Workflow
