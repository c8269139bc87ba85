import Workflow.Proofs.Json.Order
import Workflow.Proofs.Service.Determinism

/-!
The order in which the agents of a service stand. Agents that share an id go on to the same ids, so
these do not decide which of the agents comes first. Main statement: the agents of a service stand
in an order in which the edges have no part.
-/

namespace Workflow

/-- The same orchestration with other edges. -/
def Orchestration.withEdges (o : Orchestration) (edges : List Edge) : Orchestration :=
  { o with edges }

/-- The same project with other edges. -/
def Project.withEdges (p : Project) (edges : List Edge) : Project :=
  { p with orchestration := p.orchestration.withEdges edges }

namespace CompiledAgent

/-! ## Wire forms of agents -/

/-- The fields that come before the ids that the agent may go on to. -/
def fieldsBefore (a : CompiledAgent) : List (String × Option Value) :=
  [("id", Value.text a.id), ("memory", a.memory.map (Memory.toValue .wire)),
    ("name", Value.text a.name)]

/-- The fields that come after these ids. -/
def fieldsAfter (a : CompiledAgent) : List (String × Option Value) :=
  [("policies", a.policies.map (Policies.toValue .wire)), ("prompt", Value.text a.prompt),
    ("tools", listValue (Tool.toValue .wire) a.tools)]

def sortedEntries (fields : List (String × Option Value)) : Entries :=
  Form.setFields (fields.map fun field => (field.1, field.2.map Value.sorted))

theorem sorted_toValue (a : CompiledAgent) : (a.toValue .wire).sorted =
    .table (sortedEntries a.fieldsBefore ++
      ("nextAgents", (Value.texts a.next).sorted) :: sortedEntries a.fieldsAfter) := by
  rw [toValue, Form.sorted_record_eq
    (a.fieldsBefore ++ ("nextAgents", some (Value.texts a.next)) :: a.fieldsAfter)
    ["id", "memory", "name", "nextAgents", "policies", "prompt", "tools"] rfl (by decide)]
  · simp [sortedEntries, Form.setFields]
  · classical
    rw [List.perm_iff_count]
    intro field
    simp only [fieldsBefore, fieldsAfter, List.cons_append, List.nil_append, List.count_cons]
    omega

theorem mem_sortedEntries_fieldsBefore {a : CompiledAgent} {entry : String × Value}
    (member : entry ∈ sortedEntries a.fieldsBefore) :
    entry.1 ≠ "nextAgents" ∧ entry.2.Momentless := by
  constructor
  · have listed := (Form.keys_setFields_sublist _).subset (List.mem_map_of_mem member)
    have other : "nextAgents" ∉ ["id", "memory", "name"] := by decide
    intro same
    exact other (same ▸ listed)
  · have momentless := a.momentless.sorted
    rw [sorted_toValue, Value.momentless_table_iff] at momentless
    exact momentless entry (List.mem_append_left _ member)

/-- What two agents may both go on to does not decide which one comes first. -/
theorem tieBreak_le_iff {a b : CompiledAgent} (same : a.next = b.next) (next : List String) :
    tieBreak (a.toValue .wire) ≤ tieBreak (b.toValue .wire) ↔
      tieBreak (toValue .wire { a with next }) ≤ tieBreak (toValue .wire { b with next }) := by
  rw [← String.not_lt, ← String.not_lt]
  apply not_congr
  rw [tieBreak, tieBreak, tieBreak, tieBreak, sorted_toValue, sorted_toValue, sorted_toValue,
    sorted_toValue, same]
  exact Json.text_table_lt_iff ⟨rfl, [' '], rfl⟩ (fun _ => mem_sortedEntries_fieldsBefore)
    (fun _ => mem_sortedEntries_fieldsBefore) _ _ _ _

end CompiledAgent

/-! ## Wire forms of edges -/

namespace Edge

def ascendingFields (e : Edge) : List (String × Option Value) :=
  [("condition", e.condition.map Value.text), ("id", Value.text e.id),
    ("label", e.label.map Value.text), ("source", Value.text e.source),
    ("target", Value.text e.target)]

theorem sorted_toValue (e : Edge) : (e.toValue .wire).sorted =
    .table (Form.setFields e.ascendingFields) := by
  rw [toValue, Form.sorted_record_eq e.ascendingFields
    ["condition", "id", "label", "source", "target"] rfl (by decide)]
  · simp [ascendingFields, Value.sorted, Function.comp_def]
  · classical
    rw [List.perm_iff_count]
    intro field
    simp only [ascendingFields, List.count_cons]
    omega

theorem sortKey_injective (e f : Edge) (same : e.sortKey = f.sortKey) : e = f := by
  have texts := (tieBreak_eq_iff e.momentless f.momentless).mp (Prod.mk.inj same).2
  rw [sorted_toValue, sorted_toValue] at texts
  injection texts with entries
  cases e with
  | mk id source target condition label =>
      cases f with
      | mk id' source' target' condition' label' =>
          cases condition <;> cases condition' <;> cases label <;> cases label' <;>
            simp_all [ascendingFields, Form.setFields]

end Edge

/-! ## Agents of a service -/

theorem Orchestration.keyLe_compileAgent_iff (o : Orchestration) (edges : List Edge) (a b : Agent) :
    KeyLe (o.compileAgent a).sortKey (o.compileAgent b).sortKey ↔
      KeyLe ((o.withEdges edges).compileAgent a).sortKey
        ((o.withEdges edges).compileAgent b).sortKey := by
  -- Texts are compared only where the ids are the same, and there both agents go on alike.
  apply or_congr_right
  apply and_congr_right
  intro sameId
  have ids : a.id = b.id := sameId
  have same : (o.compileAgent a).next = (o.compileAgent b).next := congrArg o.targetsOf ids
  have renewed (agent : Agent) : (o.withEdges edges).compileAgent agent =
      { o.compileAgent agent with next := (o.withEdges edges).targetsOf agent.id } := rfl
  rw [CompiledAgent.sortKey, CompiledAgent.sortKey, CompiledAgent.sortKey, CompiledAgent.sortKey,
    renewed, renewed, ids]
  exact CompiledAgent.tieBreak_le_iff same _

/-- Whatever the edges of a project are, the agents of its service stand in the same order. -/
theorem Project.exists_order_agents (p : Project) :
    ∃ order : List Agent, order.Perm p.orchestration.agents ∧
      ∀ edges, (p.withEdges edges).build.agents =
        order.map (p.withEdges edges).orchestration.compileAgent := by
  refine ⟨sortByKey (CompiledAgent.sortKey ∘ p.orchestration.compileAgent) p.orchestration.agents,
    sortByKey_perm _ _, ?_⟩
  intro edges
  have sorted : (p.withEdges edges).build.agents = sortByKey CompiledAgent.sortKey
      (p.orchestration.agents.map (p.withEdges edges).orchestration.compileAgent) := rfl
  rw [sorted, sortByKey_map]
  congr 1
  exact sortByKey_congr (fun a b => (p.orchestration.keyLe_compileAgent_iff edges a b).symm) _

end Workflow
