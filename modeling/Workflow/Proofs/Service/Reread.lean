import Workflow.Proofs.Service.Determinism
import Workflow.Proofs.Spec.Models

/-!
Services that are written and read again. Whatever order the keys come back in, and whether or not
the nulls of free tables come back, what is written is a document of a service, and that service has
the same fields.
-/

namespace Workflow

open Value (Reordered)

/-! ## Depth of wire forms -/

namespace Value

variable {bound : Nat}

/-- The value has at most so many levels. -/
def Within (bound : Nat) (v : Value) : Prop := v.levels ≤ bound

theorem Scalar.within {v : Value} (scalar : v.Scalar) : v.Within (bound + 1) := by
  cases scalar <;> exact Nat.le_add_left 1 bound

@[simp]
theorem text_within (s : String) : (text s).Within (bound + 1) := Scalar.within (.text s)

@[simp]
theorem int_within (n : Int) : (int n).Within (bound + 1) := Scalar.within (.int n)

@[simp]
theorem number_within (n : Number) : n.toValue.Within (bound + 1) := by
  cases n <;> exact Scalar.within (by simp [Number.toValue])

@[simp]
theorem label_within {α : Type} [Labelled α] (a : α) :
    (Labelled.toValue a).Within (bound + 1) := text_within _

@[simp]
theorem record_within_iff {fields : List (String × Option Value)} :
    (Form.wire.record fields).Within (bound + 1) ↔
      ∀ field ∈ fields, ∀ v, field.2 = some v → v.Within bound := by
  rw [Form.wire_record, Within, levels_table_le_iff]
  exact Form.forall_mem_setFields_iff (P := Within bound)

@[simp]
theorem listValue_within_iff {α : Type} {write : α → Value} {items : List α} :
    (listValue write items).Within (bound + 1) ↔ ∀ item ∈ items, (write item).Within bound := by
  rw [listValue, Within, levels_list_le_iff, List.forall_mem_map]
  rfl

@[simp]
theorem texts_within (items : List String) : (texts items).Within (bound + 2) := by
  rw [texts, Within, levels_list_le_iff, List.forall_mem_map]
  exact fun _ _ => text_within _

@[simp]
theorem tableValue_within_iff {α : Type} {write : α → Value} {entries : List (String × α)} :
    (tableValue write entries).Within (bound + 1) ↔
      ∀ entry ∈ entries, (write entry.2).Within bound := by
  rw [tableValue, Within, levels_table_le_iff, List.forall_mem_map]
  rfl

@[simp]
theorem plain_within_iff {v : Value} : v.plain.Within bound ↔ v.Within bound := by
  rw [Within, levels_plain, Within]

end Value

theorem Auth.within (a : Auth) (bound : Nat) : (a.toValue .wire).Within (bound + 3) := by
  simp [toValue]

theorem Tool.within {t : Tool} {bound : Nat} (config : (Value.table t.config).Within (bound + 3)) :
    (t.toValue .wire).Within (bound + 4) := by
  simp [toValue, Auth.within, config]

theorem Memory.within (m : Memory) (bound : Nat) : (m.toValue .wire).Within (bound + 2) := by
  simp [toValue]

theorem Policies.within (p : Policies) (bound : Nat) : (p.toValue .wire).Within (bound + 2) := by
  simp [toValue]

theorem CompiledAgent.within {a : CompiledAgent} {bound : Nat}
    (tools : ∀ tool ∈ a.tools, (Value.table tool.config).Within (bound + 3)) :
    (a.toValue .wire).Within (bound + 6) := by
  simp +contextual [toValue, Memory.within, Policies.within, Tool.within, tools]

theorem Edge.within (e : Edge) (bound : Nat) : (e.toValue .wire).Within (bound + 2) := by
  simp [toValue]

theorem TopologyNode.within (n : TopologyNode) (bound : Nat) :
    (n.toValue .wire).Within (bound + 2) := by
  simp [toValue]

theorem Topology.within (t : Topology) (bound : Nat) : (t.toValue .wire).Within (bound + 4) := by
  simp [toValue, TopologyNode.within, Edge.within]

theorem Metadata.within (m : Metadata) (bound : Nat) : (m.toValue .wire).Within (bound + 4) := by
  simp [toValue, Position.toValue]

/-- Around a free table there are five levels: the tool, its agent's list of tools, the agent, the
list of agents and the service. -/
theorem Service.within {s : Service} (writable : s.isWritable = true) :
    s.wire.Within (levelLimit + 5) := by
  have configs : ∀ agent ∈ s.agents, ∀ tool ∈ agent.tools,
      (Value.table tool.config).Within levelLimit := by
    simpa [isWritable, Workflow.writable, freeTables, Value.Within] using writable
  have agents : ∀ agent ∈ s.agents, (agent.toValue .wire).Within (levelLimit + 3) :=
    fun agent listed => CompiledAgent.within (configs agent listed)
  simp +contextual [wire, toValue, agents, Topology.within, Metadata.within]

/-! ## Forms one after the other -/

namespace Form

theorem wire_andThen_wire : wire.andThen wire = wire :=
  congrArg (Form.mk none) (funext Value.plain_plain)

theorem bare_andThen_wire : bare.andThen wire = bare :=
  congrArg (Form.mk none) (funext fun v => Value.plain_dropNulls_plain v)

end Form

namespace Service

variable {s t : Service}

/-- The service is what some document is read as. -/
def Validated (s : Service) : Prop :=
  ∃ document : Value, document.KeysDistinct ∧ read document = .ok s

theorem read_eq_ok_iff {v : Value} : read v = .ok s ↔ ofValue? v = some s := readAs_eq_ok_iff

theorem Validated.keysDistinct {form : Form} (standard : form.Standard) (validated : s.Validated) :
    (s.toValue form).KeysDistinct := by
  obtain ⟨document, distinct, read⟩ := validated
  exact lawful.distinct standard distinct (read_eq_ok_iff.mp read)

/-- What is written of a service is read as a service with the same fields, whatever the order of
keys. -/
theorem Validated.exists_read {form : Form} (standard : form.Standard) (validated : s.Validated)
    {v : Value} (reordered : Reordered (s.toValue form) v) :
    ∃ t, read v = .ok t ∧ t.Validated ∧ ∀ next, next.Standard →
      Reordered (s.toValue (form.andThen next)) (t.toValue next) := by
  obtain ⟨document, distinct, read⟩ := validated
  have found := read_eq_ok_iff.mp read
  obtain ⟨b, again, same⟩ := lawful.again standard found
  have written := lawful.distinct standard distinct found
  obtain ⟨t, found', alike⟩ := lawful.steady written reordered again
  have read' : Service.read v = .ok t := read_eq_ok_iff.mpr found'
  refine ⟨t, read', ⟨v, (reordered.sorted_eq written).2, read'⟩, fun next standard' => ?_⟩
  rw [← same]
  exact alike next standard'

theorem toValue_bare (s : Service) : s.toValue .bare = s.wire.dropNulls := lawful.dropNulls s

theorem Validated.exists_read_wire (validated : s.Validated) {v : Value}
    (reordered : Reordered s.wire v) :
    ∃ t, read v = .ok t ∧ t.Validated ∧ Reordered s.wire t.wire ∧
      Reordered (s.toValue .full) (t.toValue .raw) := by
  obtain ⟨t, read, validated', alike⟩ := validated.exists_read Form.wire_standard reordered
  have wires := alike .wire Form.wire_standard
  rw [Form.wire_andThen_wire] at wires
  exact ⟨t, read, validated', wires, alike .raw Form.raw_standard⟩

theorem Validated.exists_read_dropNulls (validated : s.Validated) {v : Value}
    (reordered : Reordered s.wire.dropNulls v) :
    ∃ t, read v = .ok t ∧ t.Validated ∧ Reordered s.wire.dropNulls t.wire := by
  rw [← toValue_bare] at reordered ⊢
  obtain ⟨t, read, validated', alike⟩ := validated.exists_read Form.bare_standard reordered
  have wires := alike .wire Form.wire_standard
  rw [Form.bare_andThen_wire] at wires
  exact ⟨t, read, validated', wires⟩

/-! ## Canonical texts -/

theorem Validated.wire_readable (validated : s.Validated) (digits : s.wire.digitsFit = true) :
    s.wire.Readable := ⟨s.momentless, validated.keysDistinct Form.wire_standard, digits⟩

end Service

end Workflow
