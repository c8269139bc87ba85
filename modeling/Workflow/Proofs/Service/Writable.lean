import Workflow.Proofs.Service.Assembly
import Workflow.Proofs.Spec.Wire
import Workflow.Proofs.Value.Plain

/-!
Projects whose services can be put in order. Main statement: every text that orders a part of a
service can be made exactly where neither an agent nor a tool that an agent refers to holds an
integer of too many digits, and no such tool is too deep.
-/

namespace Workflow

/-! ## Digits of wire forms -/

namespace Value

@[simp]
theorem digitsFit_text (s : String) : (text s).digitsFit = true := rfl

@[simp]
theorem digitsFit_label {α : Type} [Labelled α] (a : α) :
    (Labelled.toValue a).digitsFit = true := rfl

@[simp]
theorem digitsFit_record_iff {fields : List (String × Option Value)} :
    (Form.wire.record fields).digitsFit = true ↔
      ∀ field ∈ fields, ∀ v, field.2 = some v → v.digitsFit = true := by
  rw [Form.wire_record, digitsFit_table_iff]
  exact Form.forall_mem_setFields_iff (P := fun v => v.digitsFit = true)

@[simp]
theorem digitsFit_listValue_iff {α : Type} {write : α → Value} {items : List α} :
    (listValue write items).digitsFit = true ↔ ∀ item ∈ items, (write item).digitsFit = true := by
  rw [listValue, digitsFit_list_iff, List.forall_mem_map]

@[simp]
theorem digitsFit_texts (items : List String) : (texts items).digitsFit = true := by
  rw [texts, digitsFit_list_iff, List.forall_mem_map]
  exact fun _ _ => rfl

@[simp]
theorem digitsFit_tableValue_iff {α : Type} {write : α → Value} {entries : List (String × α)} :
    (tableValue write entries).digitsFit = true ↔
      ∀ entry ∈ entries, (write entry.2).digitsFit = true := by
  rw [tableValue, digitsFit_table_iff, List.forall_mem_map]

@[simp]
theorem digitsFit_plain (v : Value) : v.plain.digitsFit = v.digitsFit := by
  induction v using induct with
  | null | bool | int | text | moment => rfl
  | real x => cases finite : x.isFinite <;> simp [plain, finite, digitsFit]
  | list items ih =>
      rw [Bool.eq_iff_iff, plain_list, digitsFit_list_iff, digitsFit_list_iff, List.forall_mem_map]
      exact forall₂_congr fun item member => by rw [ih item member]
  | table entries ih =>
      rw [Bool.eq_iff_iff, plain_table, digitsFit_table_iff, digitsFit_table_iff,
        List.forall_mem_map]
      exact forall₂_congr fun entry member => by rw [ih entry member]

end Value

theorem Tool.digitsFit_eq (t : Tool) :
    (t.toValue .wire).digitsFit = (Value.table t.config).digitsFit := by
  rw [Bool.eq_iff_iff]
  simp [toValue, Auth.toValue]

theorem Agent.digitsFit_iff {a : Agent} : (a.toValue .wire).digitsFit = true ↔
    (∀ m, a.memory = some m → (m.toValue .wire).digitsFit = true) ∧
      ∀ limits, a.policies = some limits → (limits.toValue .wire).digitsFit = true := by
  simp [toValue]

theorem Edge.digitsFit (e : Edge) : (e.toValue .wire).digitsFit = true := by
  simp [toValue]

theorem Topology.digitsFit (t : Topology) : (t.toValue .wire).digitsFit = true := by
  simp [toValue, TopologyNode.toValue, Edge.digitsFit]

theorem Service.digitsFit_wire_iff {s : Service} : s.wire.digitsFit = true ↔
    (∀ agent ∈ s.agents, (agent.toValue .wire).digitsFit = true) ∧
      ∀ m, s.metadata = some m → (m.toValue .wire).digitsFit = true := by
  simp [wire, toValue, Topology.digitsFit]

/-! ## Parts that cannot be written out -/

theorem writeFault?_eq_none_iff {freeTables : List Entries} {wire : Value} :
    writeFault? freeTables wire = none ↔ writable freeTables = true ∧ wire.digitsFit = true := by
  cases deep : writable freeTables <;> cases long : wire.digitsFit <;> simp [writeFault?, deep, long]

namespace Tool

/-- The tool has too many levels, or an integer of too many digits, to be written out. -/
def Unwritable (t : Tool) : Prop :=
  levelLimit < (Value.table t.config).levels ∨ (Value.table t.config).digitsFit = false

instance : DecidablePred Unwritable := fun t =>
  inferInstanceAs (Decidable (_ < (Value.table t.config).levels ∨ _))

theorem not_unwritable_iff {t : Tool} : ¬ t.Unwritable ↔
    (Value.table t.config).levels ≤ levelLimit ∧ (Value.table t.config).digitsFit = true := by
  simp [Unwritable]

theorem writeFault?_eq_none_iff {t : Tool} : t.writeFault? = none ↔ ¬ t.Unwritable := by
  rw [writeFault?, Workflow.writeFault?_eq_none_iff, digitsFit_eq, not_unwritable_iff]
  simp [writable]

end Tool

theorem Orchestration.digitsFit_compileAgent_iff (o : Orchestration) (a : Agent) :
    ((o.compileAgent a).toValue .wire).digitsFit = true ↔ (a.toValue .wire).digitsFit = true ∧
      ∀ tool ∈ (o.compileAgent a).tools, (Value.table tool.config).digitsFit = true := by
  rw [Agent.digitsFit_iff, and_comm]
  simp [CompiledAgent.toValue, compileAgent, Tool.digitsFit_eq]

theorem Orchestration.writeFault?_compileAgent_eq_none_iff {o : Orchestration} {a : Agent} :
    (o.compileAgent a).writeFault? = none ↔ (a.toValue .wire).digitsFit = true ∧
      ∀ tool ∈ (o.compileAgent a).tools, ¬ tool.Unwritable := by
  rw [CompiledAgent.writeFault?, Workflow.writeFault?_eq_none_iff, digitsFit_compileAgent_iff]
  simp only [writable, List.all_map, List.all_eq_true, Function.comp_apply, decide_eq_true_eq,
    Tool.not_unwritable_iff]
  rw [and_left_comm, forall₂_and]

/-- Services that both have a canonical text, or both do not, have the same one where the texts
agree. -/
theorem Service.canonical?_eq_of_canonical_eq {s t : Service}
    (written : s.canonical? = none ↔ t.canonical? = none) (same : s.canonical = t.canonical) :
    s.canonical? = t.canonical? := by
  have either (s : Service) : s.canonical? = none ∨ s.canonical? = some s.canonical := by
    rw [canonical?]
    split
    next => exact .inr rfl
    next => exact .inl rfl
  rcases either s with none | text
  · rw [none, written.mp none]
  · rcases either t with none' | text'
    · rw [written.mpr none'] at text
      cases text
    · rw [text, text', same]

namespace Project

variable {p : Project}

/-- An agent, or a tool that an agent refers to, cannot be written out. -/
def Unwritable (p : Project) : Prop :=
  ∃ agent ∈ p.orchestration.agents, (agent.toValue .wire).digitsFit = false ∨
    ∃ id ∈ agent.tools, ∃ tool, p.orchestration.tool? id = some tool ∧ tool.Unwritable

theorem not_unwritable_iff : ¬ p.Unwritable ↔ ∀ agent ∈ p.orchestration.agents,
    (agent.toValue .wire).digitsFit = true ∧
      ∀ tool ∈ (p.orchestration.compileAgent agent).tools, ¬ tool.Unwritable := by
  simp only [Unwritable, Orchestration.mem_compileAgent_tools, not_exists, not_and, not_or,
    Bool.not_eq_false, forall_exists_index, and_imp]
  refine forall₂_congr fun agent _ => and_congr_right' ?_
  exact ⟨fun fits tool id referred found => fits id referred tool found,
    fun fits id referred tool found => fits tool id referred found⟩

/-- Whatever keeps a tool from being put in order keeps the agents that hold it from being put in
order too. -/
theorem writeFault?_eq_none_iff : p.writeFault? = none ↔ ¬ p.Unwritable := by
  rw [writeFault?, Option.or_eq_none_iff, List.findSome?_eq_none_iff, List.findSome?_eq_none_iff,
    List.forall_mem_map, not_unwritable_iff]
  simp only [Orchestration.writeFault?_compileAgent_eq_none_iff, Tool.writeFault?_eq_none_iff]
  rw [and_iff_right_iff_imp]
  intro fits tool used
  obtain ⟨agent, listed, resolved⟩ := List.mem_flatMap.mp used
  exact (fits agent listed).2 tool (mem_sortByKey.mpr resolved)

theorem not_unwritable_of_parts
    (agents : ∀ agent ∈ p.orchestration.agents, (agent.toValue .wire).digitsFit = true)
    (tools : ∀ tool ∈ p.orchestration.tools, ¬ tool.Unwritable) : ¬ p.Unwritable := by
  rintro ⟨agent, listed, long | ⟨id, -, tool, found, unwritable⟩⟩
  · exact Bool.noConfusion (long.symm.trans (agents agent listed))
  · exact tools tool (Orchestration.tool?_eq_some found).1 unwritable

theorem unwritable_iff : p.Unwritable ↔ ∃ fault, p.writeFault? = some fault := by
  rw [← not_iff_not, ← writeFault?_eq_none_iff, Option.eq_none_iff_forall_ne_some, not_exists]

/-! ## Services that are made -/

theorem isWritable_build (fits : ¬ p.Unwritable) : p.build.isWritable = true := by
  rw [Service.isWritable, writable, List.all_eq_true]
  intro config free
  obtain ⟨compiled, member, held⟩ := List.mem_flatMap.mp free
  obtain ⟨tool, has, rfl⟩ := List.mem_map.mp held
  obtain ⟨agent, listed, rfl⟩ := mem_build_agents.mp member
  have tools := (not_unwritable_iff.mp fits agent listed).2
  exact decide_eq_true (Tool.not_unwritable_iff.mp (tools tool has)).1

theorem digitsFit_build_iff (fits : ¬ p.Unwritable) : p.build.wire.digitsFit = true ↔
    ∀ m, p.metadata = some m → (m.toValue .wire).digitsFit = true := by
  have agents : ∀ compiled ∈ p.build.agents, (compiled.toValue .wire).digitsFit = true := by
    intro compiled member
    obtain ⟨agent, listed, rfl⟩ := mem_build_agents.mp member
    obtain ⟨own, tools⟩ := not_unwritable_iff.mp fits agent listed
    exact (Orchestration.digitsFit_compileAgent_iff _ _).mpr
      ⟨own, fun tool has => (Tool.not_unwritable_iff.mp (tools tool has)).2⟩
  rw [Service.digitsFit_wire_iff, and_iff_right agents]
  rfl

/-- The parts of the service can be put in order, and the service has a canonical text. -/
def Printable (p : Project) : Prop :=
  ¬ p.Unwritable ∧ ∀ m, p.metadata = some m → (m.toValue .wire).digitsFit = true

theorem Printable.build (printable : p.Printable) : p.build.writeFault? = none :=
  Workflow.writeFault?_eq_none_iff.mpr
    ⟨isWritable_build printable.1, (digitsFit_build_iff printable.1).mpr printable.2⟩

/-- Of a service that is made, only the places of nodes may still be too long for a text. -/
theorem canonical?_build_eq_none_iff (fits : ¬ p.Unwritable) : p.build.canonical? = none ↔
    ∃ m, p.metadata = some m ∧ (m.toValue .wire).digitsFit = false := by
  rw [Service.canonical?, isWritable_build fits, Bool.true_and]
  simp [digitsFit_build_iff fits]

end Project

end Workflow
