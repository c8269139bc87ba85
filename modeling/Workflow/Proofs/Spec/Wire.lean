import Workflow.Proofs.Value.KeyOrder
import Workflow.Spec.Metadata
import Workflow.Spec.Orchestration

/-!
Wire forms: what the fields of a record tell about its sorted form and back, and that no wire form
holds a moment.
-/

namespace Workflow

/-! ## Collections -/

namespace Value

@[simp]
theorem momentless_texts (items : List String) : (texts items).Momentless := by
  simp [texts]

end Value

@[simp]
theorem momentless_listValue_iff {α : Type} {write : α → Value} {items : List α} :
    (listValue write items).Momentless ↔ ∀ item ∈ items, (write item).Momentless := by
  simp [listValue]

@[simp]
theorem momentless_tableValue_iff {α : Type} {write : α → Value} {entries : List (String × α)} :
    (tableValue write entries).Momentless ↔ ∀ entry ∈ entries, (write entry.2).Momentless := by
  rw [tableValue, Value.momentless_table_iff, List.forall_mem_map]

theorem sorted_listValue_eq_iff {α : Type} {write : α → Value} {items others : List α} :
    (listValue write items).sorted = (listValue write others).sorted ↔
      items.map (fun item => (write item).sorted) = others.map fun item => (write item).sorted := by
  simp [listValue, Value.sorted, Value.sortedItems_eq_map, Function.comp_def]

/-! ## Records -/

namespace Form

/-- The entries of the fields that are set. -/
def setFields (fields : List (String × Option Value)) : Entries :=
  fields.filterMap fun field => field.2.map (field.1, ·)

variable {fields others : List (String × Option Value)}

theorem wire_record (fields : List (String × Option Value)) :
    wire.record fields = .table (setFields fields) := by
  simp [record, wire, setFields]

theorem mem_setFields {entry : String × Value} :
    entry ∈ setFields fields ↔ (entry.1, some entry.2) ∈ fields := by
  rw [setFields, List.mem_filterMap]
  constructor
  · intro listed
    obtain ⟨⟨name, value⟩, member, found⟩ := listed
    obtain ⟨v, rfl, rfl⟩ := Option.map_eq_some_iff.mp found
    exact member
  · intro member
    exact ⟨_, member, rfl⟩

theorem forall_mem_setFields_iff {P : Value → Prop} : (∀ entry ∈ setFields fields, P entry.2) ↔
    ∀ field ∈ fields, ∀ v, field.2 = some v → P v := by
  constructor
  · intro holds field listed v set
    exact holds (field.1, v) (mem_setFields.mpr (set ▸ listed))
  · intro holds entry member
    exact holds _ (mem_setFields.mp member) entry.2 rfl

theorem keys_setFields_sublist (fields : List (String × Option Value)) :
    ((setFields fields).map Prod.fst).Sublist (fields.map Prod.fst) := by
  induction fields with
  | nil => exact List.Sublist.refl _
  | cons field fields ih =>
      obtain ⟨name, value⟩ := field
      cases value with
      | none => exact ih.cons name
      | some v => exact ih.cons_cons name

@[simp]
theorem wire_freeTable (entries : Entries) :
    wire.freeTable entries = (Value.table entries).plain := rfl

@[simp]
theorem momentless_record_iff :
    (wire.record fields).Momentless ↔ ∀ field ∈ fields, ∀ v, field.2 = some v → v.Momentless := by
  rw [wire_record, Value.momentless_table_iff, forall_mem_setFields_iff]

/-- Records with the same sorted form have the same sorted forms in their fields. -/
theorem exists_field_of_sorted_eq (same : (wire.record fields).sorted = (wire.record others).sorted)
    {key : String} {v : Value} (listed : (key, some v) ∈ fields) :
    ∃ w, (key, some w) ∈ others ∧ w.sorted = v.sorted := by
  rw [wire_record, wire_record, Value.sorted, Value.sorted, Value.sortedEntries_eq_map,
    Value.sortedEntries_eq_map] at same
  injection same with same
  have member : (key, v.sorted) ∈ (setFields fields).map fun entry => (entry.1, entry.2.sorted) :=
    List.mem_map.mpr ⟨(key, v), mem_setFields.mpr listed, rfl⟩
  rw [← (Value.sortEntries_perm _).mem_iff, same, (Value.sortEntries_perm _).mem_iff] at member
  obtain ⟨⟨name, w⟩, found, sameEntry⟩ := List.mem_map.mp member
  obtain ⟨rfl, sorted⟩ := Prod.mk.inj sameEntry
  exact ⟨w, mem_setFields.mp found, sorted⟩

/-- Collections in one field have items with the same sorted forms. -/
theorem exists_item_of_sorted_eq (same : (wire.record fields).sorted = (wire.record others).sorted)
    {α : Type} (key : String) (write : α → Value) {items items' : List α}
    (listed : (key, some (listValue write items)) ∈ fields)
    (only : ∀ w, (key, some w) ∈ others → w = listValue write items') {item : α}
    (member : item ∈ items) : ∃ other ∈ items', (write other).sorted = (write item).sorted := by
  obtain ⟨w, listed', sorted⟩ := exists_field_of_sorted_eq same listed
  rw [only w listed', sorted_listValue_eq_iff] at sorted
  have inside : (write item).sorted ∈ items'.map fun other => (write other).sorted := by
    rw [sorted]
    exact List.mem_map_of_mem member
  obtain ⟨other, found, sameItem⟩ := List.mem_map.mp inside
  exact ⟨other, found, sameItem⟩

theorem map_setFields (f : Value → Value) (fields : List (String × Option Value)) :
    (setFields fields).map (fun entry => (entry.1, f entry.2)) =
      setFields (fields.map fun field => (field.1, field.2.map f)) := by
  simp [setFields, List.map_filterMap, List.filterMap_map, Function.comp_def]

/-- The sorted form of a record is made of the sorted forms of its fields. -/
theorem sorted_record_congr
    (same : fields.map (fun field => (field.1, field.2.map Value.sorted)) =
      others.map fun field => (field.1, field.2.map Value.sorted)) :
    (wire.record fields).sorted = (wire.record others).sorted := by
  rw [wire_record, wire_record, Value.sorted, Value.sorted, Value.sortedEntries_eq_map,
    Value.sortedEntries_eq_map, map_setFields, map_setFields, same]

/-- Fields in ascending order of their names are in the order of the sorted form. -/
theorem sorted_record_eq (ordered : List (String × Option Value)) (names : List String)
    (named : ordered.map Prod.fst = names) (ascending : names.Pairwise (· < ·))
    (perm : fields.Perm ordered) : (wire.record fields).sorted =
      .table (setFields (ordered.map fun field => (field.1, field.2.map Value.sorted))) := by
  have sameNames : (ordered.map fun field => (field.1, field.2.map Value.sorted)).map Prod.fst =
      names := by
    rw [List.map_map]
    exact named
  have sorted := ascending.sublist (sameNames ▸ keys_setFields_sublist _)
  have entries : (setFields (fields.map fun field => (field.1, field.2.map Value.sorted))).Perm
      (setFields (ordered.map fun field => (field.1, field.2.map Value.sorted))) :=
    (perm.map _).filterMap _
  have distinct := (entries.map Prod.fst).nodup_iff.mpr (sorted.imp String.ne_of_lt)
  rw [wire_record, Value.sorted, Value.sortedEntries_eq_map, map_setFields,
    Value.sortEntries_eq_of_perm distinct entries, Value.sortEntries_of_pairwise]
  exact (List.pairwise_map.mp sorted).imp fun less => String.not_lt.mp (String.lt_asymm less)

end Form

/-! ## Models -/

theorem Number.momentless (n : Number) : n.toValue.Momentless := by
  cases n <;> simp [toValue]

theorem Auth.momentless (a : Auth) : (a.toValue .wire).Momentless := by
  simp [toValue, Labelled.toValue]

theorem Tool.momentless (t : Tool) : (t.toValue .wire).Momentless := by
  simp [toValue, Labelled.toValue, Auth.momentless]

/-- The id of a tool can be told from its sorted wire form. -/
theorem Tool.id_eq_of_sorted_eq {t u : Tool}
    (same : (t.toValue .wire).sorted = (u.toValue .wire).sorted) : t.id = u.id := by
  obtain ⟨w, listed, sorted⟩ := Form.exists_field_of_sorted_eq same List.mem_cons_self
  have only : w = Value.text u.id := by simpa using listed
  rw [only] at sorted
  injection sorted with ids
  exact ids.symm

theorem Edge.momentless (e : Edge) : (e.toValue .wire).Momentless := by
  simp [toValue]

theorem Memory.momentless (m : Memory) : (m.toValue .wire).Momentless := by
  simp [toValue, Labelled.toValue]

theorem Policies.momentless (p : Policies) : (p.toValue .wire).Momentless := by
  simp [toValue, Labelled.toValue, Number.momentless]

theorem Position.momentless (p : Position) : (p.toValue .wire).Momentless := by
  simp [toValue, Number.momentless]

theorem Metadata.momentless (m : Metadata) : (m.toValue .wire).Momentless := by
  simp [toValue, Position.momentless]

end Workflow
