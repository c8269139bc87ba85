import Workflow.Proofs.Spec.Modelled
import Workflow.Proofs.Spec.Violations

/-!
Values that say the same to a reader. Keys stand in any order, a model's field goes by either of its
names, and a model may have keys that no field has. Main statement: under wire names, and without
the keys that no field has, such values are the same up to the order of keys.
-/

namespace Workflow

open Value (Reordered)

namespace Shape

/-- A value in the place of the shape becomes the other one by steps that say nothing new: keys are
put in another order, at any depth; a model gets or loses a key that no field has; and a field that
is there under one of its names goes by the other one. -/
inductive Disguised : Shape → Value → Value → Prop
  | refl (shape : Shape) (v : Value) : Disguised shape v v
  | symm {shape : Shape} {v w : Value} (back : Disguised shape v w) : Disguised shape w v
  | trans {shape : Shape} {u v w : Value} (first : Disguised shape u v)
      (second : Disguised shape v w) : Disguised shape u w
  | reordered (shape : Shape) {v w : Value} (order : Reordered v w) : Disguised shape v w
  | extra (title : String) (summary : Option String) {fields : List Field} (entries : Entries)
      {key : String} {v : Value} (unknown : ∀ field ∈ fields, ¬ field.Named key)
      (fresh : key ∉ entries.map Prod.fst) (distinct : v.KeysDistinct) :
      Disguised (.model title summary fields) (.table entries) (.table (entries ++ [(key, v)]))
  | renamed (title : String) (summary : Option String) {fields : List Field} {field : Field}
      (listed : field ∈ fields) (before after : Entries) (v : Value)
      (alone : ∀ entry ∈ before ++ after, ¬ field.Named entry.1) :
      Disguised (.model title summary fields) (.table (before ++ (field.name, v) :: after))
        (.table (before ++ (field.wireName, v) :: after))
  | field (title : String) (summary : Option String) {fields : List Field} {field : Field}
      (listed : field ∈ fields) (before after : Entries) {key : String}
      (named : field.Named key) {v w : Value} (inner : Disguised field.shape v w) :
      Disguised (.model title summary fields) (.table (before ++ (key, v) :: after))
        (.table (before ++ (key, w) :: after))
  | item (before after : List Value) {item : Shape} {v w : Value} (inner : Disguised item v w) :
      Disguised (.listOf item) (.list (before ++ v :: after)) (.list (before ++ w :: after))
  | entry (before after : Entries) (key : String) {entry : Shape} {v w : Value}
      (inner : Disguised entry v w) :
      Disguised (.tableOf entry) (.table (before ++ (key, v) :: after))
        (.table (before ++ (key, w) :: after))

end Shape

/-! ## Entries in the middle of a table -/

namespace Entries

variable {entries before after : Entries} {key : String} {v w : Value} {field : Field}

theorem lookup_middle (key' : String) : List.lookup key' (before ++ (key, v) :: after) =
    (before.lookup key').or (if key' = key then some v else after.lookup key') := by
  rw [List.lookup_append, List.lookup_cons]
  by_cases same : key' = key
  · rw [if_pos same, same, beq_self_eq_true]
  · rw [if_neg same, beq_false_of_ne same]

/-- A key that is none of the field's names does not matter. -/
theorem fieldValue?_of_not_named (other : ¬ field.Named key) :
    fieldValue? (before ++ (key, v) :: after) field = fieldValue? (before ++ after) field := by
  have names := not_or.mp other
  rw [fieldValue?_eq, fieldValue?_eq, lookup_middle, lookup_middle, if_neg (Ne.symm names.1),
    if_neg (Ne.symm names.2), List.lookup_append, List.lookup_append]

theorem lookup_eq_none_of_alone (alone : ∀ entry ∈ entries, ¬ field.Named entry.1)
    (named : field.Named key) : entries.lookup key = none := by
  rw [List.lookup_eq_none_iff]
  intro entry listed
  rw [bne_iff_ne]
  rintro rfl
  exact alone entry listed named

theorem fieldValue?_of_alone (alone : ∀ entry ∈ before ++ after, ¬ field.Named entry.1)
    (named : field.Named key) : fieldValue? (before ++ (key, v) :: after) field = some v := by
  rw [List.forall_mem_append] at alone
  rw [fieldValue?_eq, lookup_middle, lookup_middle,
    lookup_eq_none_of_alone alone.1 (.inl rfl), lookup_eq_none_of_alone alone.1 (.inr rfl),
    lookup_eq_none_of_alone alone.2 (.inl rfl), lookup_eq_none_of_alone alone.2 (.inr rfl)]
  rcases named with rfl | rfl
  · by_cases same : field.wireName = field.name <;> simp [same]
  · simp

/-- Where the value of a key is replaced, a field has what it had, or it had the value and has the
replacement. -/
theorem fieldValue?_replaced (field : Field) :
    fieldValue? (before ++ (key, v) :: after) field =
        fieldValue? (before ++ (key, w) :: after) field ∨
      fieldValue? (before ++ (key, v) :: after) field = some v ∧
        fieldValue? (before ++ (key, w) :: after) field = some w := by
  simp only [fieldValue?_eq, lookup_middle]
  cases before.lookup field.wireName with
  | some u => exact .inl rfl
  | none =>
      by_cases wire : field.wireName = key
      · exact .inr (by simp [wire])
      · cases after.lookup field.wireName with
        | some u => exact .inl (by simp [wire])
        | none =>
            cases before.lookup field.name with
            | some u => exact .inl (by simp [wire])
            | none =>
                by_cases own : field.name = key
                · exact .inr (by simp [wire, own])
                · exact .inl (by simp [wire, own])

theorem keysDistinct_middle_iff : (Value.table (before ++ (key, v) :: after)).KeysDistinct ↔
    (key ∉ (before ++ after).map Prod.fst ∧ (Value.table (before ++ after)).KeysDistinct) ∧
      v.KeysDistinct := by
  rw [Value.keysDistinct_table_iff, Value.keysDistinct_table_iff, List.map_append, List.map_append,
    List.map_cons, List.nodup_middle, List.nodup_cons, List.forall_mem_append,
    List.forall_mem_append, List.forall_mem_cons]
  tauto

theorem key_notMem_of_alone (alone : ∀ entry ∈ entries, ¬ field.Named entry.1)
    (named : field.Named key) : key ∉ entries.map Prod.fst := by
  intro member
  obtain ⟨entry, listed, rfl⟩ := List.mem_map.mp member
  exact alone entry listed named

end Entries

/-! ## Disguised values -/

namespace Shape.Disguised

variable {shape : Shape} {v w : Value}

/-- No key is there twice in one of the values exactly if none is in the other. -/
theorem keysDistinct_iff (disguised : shape.Disguised v w) : v.KeysDistinct ↔ w.KeysDistinct := by
  induction disguised with
  | refl => rfl
  | symm _ ih => exact ih.symm
  | trans _ _ first second => exact first.trans second
  | reordered _ order =>
      exact ⟨fun distinct => (order.sorted_eq distinct).2,
        fun distinct => (order.symm.sorted_eq distinct).2⟩
  | extra title summary entries unknown fresh distinct =>
      rw [Entries.keysDistinct_middle_iff, List.append_nil]
      exact ⟨fun held => ⟨⟨fresh, held⟩, distinct⟩, fun all => all.1.2⟩
  | renamed title summary listed before after v alone =>
      have own := Entries.key_notMem_of_alone alone (.inl rfl)
      have wire := Entries.key_notMem_of_alone alone (.inr rfl)
      rw [Entries.keysDistinct_middle_iff, Entries.keysDistinct_middle_iff, iff_true_intro own,
        iff_true_intro wire]
  | field title summary listed before after named _ ih =>
      rw [Entries.keysDistinct_middle_iff, Entries.keysDistinct_middle_iff, ih]
  | item before after _ ih =>
      rw [Value.keysDistinct_list_iff, Value.keysDistinct_list_iff, List.forall_mem_append,
        List.forall_mem_append, List.forall_mem_cons, List.forall_mem_cons, ih]
  | entry before after key _ ih =>
      rw [Entries.keysDistinct_middle_iff, Entries.keysDistinct_middle_iff, ih]

theorem rel_refl (naming : Naming) (shape : Shape) (o : Option Value) :
    Option.Rel Reordered (o.map (shape.rekey naming)) (o.map (shape.rekey naming)) := by
  cases o with
  | none => exact .none
  | some v => exact .some (.refl _)

/-- Under wire names, and without the keys that no field has, the values are the same up to the
order of keys. -/
theorem reordered_rekey (disguised : shape.Disguised v w) (wellNamed : shape.WellNamed)
    (distinct : v.KeysDistinct) (naming : Naming) :
    Reordered (shape.rekey naming v) (shape.rekey naming w) := by
  induction disguised with
  | refl => exact .refl _
  | symm back ih => exact (ih wellNamed (back.keysDistinct_iff.mpr distinct)).symm
  | trans first _ ih ih' =>
      exact (ih wellNamed distinct).trans (ih' wellNamed (first.keysDistinct_iff.mp distinct))
  | reordered shape order => exact Shape.reordered_rekey wellNamed naming distinct order
  | extra title summary entries unknown =>
      apply reordered_rekey_model
      intro field listed
      rw [Entries.fieldValue?_of_not_named (unknown field listed), List.append_nil]
      exact rel_refl naming field.shape _
  | @renamed title summary fields renamed listed before after v alone =>
      have apart := wellNamed.fields.1
      apply reordered_rekey_model
      intro field listed'
      by_cases same : field = renamed
      · subst same
        rw [Entries.fieldValue?_of_alone alone (.inl rfl),
          Entries.fieldValue?_of_alone alone (.inr rfl)]
        exact rel_refl naming field.shape _
      · have other {key : String} (named : renamed.Named key) : ¬ field.Named key :=
          fun named' => same (Field.eq_of_named apart listed' listed named' named)
        rw [Entries.fieldValue?_of_not_named (other (.inl rfl)),
          Entries.fieldValue?_of_not_named (other (.inr rfl))]
        exact rel_refl naming field.shape _
  | @field title summary fields changed listed before after key named v w inner ih =>
      obtain ⟨apart, inside⟩ := wellNamed.fields
      apply reordered_rekey_model
      intro field listed'
      by_cases same : field = changed
      · subst same
        rcases Entries.fieldValue?_replaced field with unchanged | ⟨before, after⟩
        · rw [unchanged]
          exact rel_refl naming field.shape _
        · rw [before, after]
          exact .some (ih (inside field listed) (Entries.keysDistinct_middle_iff.mp distinct).2)
      · have other : ¬ field.Named key :=
          fun named' => same (Field.eq_of_named apart listed' listed named' named)
        rw [Entries.fieldValue?_of_not_named other, Entries.fieldValue?_of_not_named other]
        exact rel_refl naming field.shape _
  | item before after _ ih =>
      rw [rekey_list, rekey_list, List.map_append, List.map_append, List.map_cons, List.map_cons]
      exact .item _ _ (ih wellNamed.item (distinct.item (by simp)))
  | entry before after key _ ih =>
      rw [rekey_entries, rekey_entries, List.map_append, List.map_append, List.map_cons,
        List.map_cons]
      exact .entry _ _ key (ih wellNamed.entry (Entries.keysDistinct_middle_iff.mp distinct).2)

/-- The violations of the values are the same in some order, but for the names of fields. -/
theorem perm_wired_violations (disguised : shape.Disguised v w) (wellNamed : shape.WellNamed)
    (distinct : v.KeysDistinct) :
    ((shape.violations [] v).map shape.wired).Perm ((shape.violations [] w).map shape.wired) := by
  rw [map_wired_violations wellNamed, map_wired_violations wellNamed]
  exact perm_violations wellNamed [] (keysDistinct_rekey wellNamed .wire distinct)
    (disguised.reordered_rekey wellNamed distinct .wire)

end Shape.Disguised

/-! ## Reading disguised values -/

namespace Modelled

open Shape (keysDistinct_rekey)

variable {α : Type} {shape : Shape} {read : Value → Option α} {write : Form → α → Value}
  {v w : Value}

/-- What is read of the values has the same forms up to the order of keys. -/
theorem exists_of_disguised (laws : Modelled shape read write) (disguised : shape.Disguised v w)
    (distinct : v.KeysDistinct) {a : α} (found : read v = some a) :
    ∃ b, read w = some b ∧ ∀ form, form.Standard → Reordered (write form a) (write form b) := by
  have renamed := keysDistinct_rekey laws.wellNamed .wire distinct
  have reordered := disguised.reordered_rekey laws.wellNamed distinct .wire
  rw [← laws.renamed .wire] at found
  obtain ⟨b, found', same⟩ := laws.lawful.steady renamed reordered found
  exact ⟨b, (laws.renamed .wire w).symm.trans found', same⟩

theorem eq_none_of_disguised (laws : Modelled shape read write) (disguised : shape.Disguised v w)
    (distinct : v.KeysDistinct) (refused : read v = none) : read w = none := by
  by_contra accepted
  obtain ⟨b, found⟩ := Option.ne_none_iff_exists'.mp accepted
  obtain ⟨a, found', -⟩ := laws.exists_of_disguised disguised.symm
    (disguised.keysDistinct_iff.mp distinct) found
  rw [refused] at found'
  cases found'

end Modelled

end Workflow
