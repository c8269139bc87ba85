import Workflow.Proofs.Spec.Record

/-!
Values under other names. A field of a model goes by its own name or by its name on the wire, and a
value can be brought to either naming, without the keys that no field has. Main statement: where no
two fields share a name, a renamed value holds for each field what the value held.
-/

namespace Workflow

open Value (Reordered SameEntry)

/-! ## Names of fields -/

/-- Which of a field's two names a value is written with. -/
inductive Naming where
  | own
  | wire
  deriving DecidableEq

namespace Field

def name : Field → String
  | .mk name .. => name

def wireName : Field → String
  | .mk _ wireName .. => wireName

def optional : Field → Bool
  | .mk _ _ optional _ => optional

def shape : Field → Shape
  | .mk _ _ _ shape => shape

def key (naming : Naming) (field : Field) : String :=
  match naming with
  | .own => field.name
  | .wire => field.wireName

/-- The key is one of the field's two names. -/
def Named (field : Field) (key : String) : Prop := key = field.name ∨ key = field.wireName

/-- The fields have no name in common. -/
def Apart (field other : Field) : Prop :=
  (field.name ≠ other.name ∧ field.name ≠ other.wireName) ∧
    field.wireName ≠ other.name ∧ field.wireName ≠ other.wireName

instance (field : Field) (key : String) : Decidable (field.Named key) :=
  inferInstanceAs (Decidable (_ ∨ _))

instance (field other : Field) : Decidable (field.Apart other) :=
  inferInstanceAs (Decidable (_ ∧ _))

theorem named_key (naming : Naming) (field : Field) : field.Named (field.key naming) := by
  cases naming
  · exact .inl rfl
  · exact .inr rfl

theorem Apart.symm {field other : Field} (apart : field.Apart other) : other.Apart field :=
  ⟨⟨apart.1.1.symm, apart.2.1.symm⟩, apart.1.2.symm, apart.2.2.symm⟩

theorem Apart.not_named {field other : Field} (apart : field.Apart other) {key : String}
    (named : field.Named key) : ¬ other.Named key := by
  rcases named with rfl | rfl
  · exact fun same => same.elim apart.1.1 apart.1.2
  · exact fun same => same.elim apart.2.1 apart.2.2

/-- A key names no more than one of some fields that are apart. -/
theorem eq_of_named {fields : List Field} (apart : fields.Pairwise Apart) {field other : Field}
    (listed : field ∈ fields) (listed' : other ∈ fields) {key : String}
    (named : field.Named key) (named' : other.Named key) : field = other := by
  induction apart with
  | nil => cases listed
  | @cons first rest apart _ ih =>
      rcases List.mem_cons.mp listed with rfl | later <;>
        rcases List.mem_cons.mp listed' with rfl | later'
      · rfl
      · exact absurd named' ((apart other later').not_named named)
      · exact absurd named ((apart field later).not_named named')
      · exact ih later later'

theorem nodup_keys {fields : List Field} (apart : fields.Pairwise Apart) (naming : Naming) :
    (fields.map (key naming)).Nodup := by
  rw [List.Nodup, List.pairwise_map]
  apply apart.imp
  intro field other apart same
  exact apart.not_named (field.named_key naming) (same ▸ other.named_key naming)

end Field

/-- The shape has no other shape inside. -/
inductive Shape.Leaf : Shape → Prop
  | text (required : Bool) : Leaf (.text required)
  | timestamp : Leaf .timestamp
  | choice (name : String) (summary : Option String) (options : List String) :
      Leaf (.choice name summary options)
  | count : Leaf .count
  | number (range : Range) : Leaf (.number range)
  | freeTable : Leaf .freeTable

/-- No two fields of a model share a name. -/
inductive Shape.WellNamed : Shape → Prop
  | leaf {shape : Shape} (isLeaf : shape.Leaf) : WellNamed shape
  | tableOf {entry : Shape} (inside : WellNamed entry) : WellNamed (.tableOf entry)
  | listOf {item : Shape} (inside : WellNamed item) : WellNamed (.listOf item)
  | model {title : String} {summary : Option String} {fields : List Field}
      (apart : fields.Pairwise Field.Apart)
      (inside : ∀ field ∈ fields, WellNamed field.shape) : WellNamed (.model title summary fields)

namespace Shape.WellNamed

theorem entry {entry : Shape} (wellNamed : (Shape.tableOf entry).WellNamed) : entry.WellNamed := by
  cases wellNamed with
  | leaf isLeaf => cases isLeaf
  | tableOf inside => exact inside

theorem item {item : Shape} (wellNamed : (Shape.listOf item).WellNamed) : item.WellNamed := by
  cases wellNamed with
  | leaf isLeaf => cases isLeaf
  | listOf inside => exact inside

theorem fields {title : String} {summary : Option String} {fields : List Field}
    (wellNamed : (Shape.model title summary fields).WellNamed) :
    fields.Pairwise Field.Apart ∧ ∀ field ∈ fields, field.shape.WellNamed := by
  cases wellNamed with
  | leaf isLeaf => cases isLeaf
  | model apart inside => exact ⟨apart, inside⟩

end Shape.WellNamed

/-! ## Renamed values -/

/-- What a model finds for a field. -/
def Entries.fieldValue? (entries : Entries) (field : Field) : Option Value :=
  (entries.read? field.name field.wireName).map Prod.snd

namespace Shape

mutual
/-- The value with the fields of its models under one of their names, in the order of their
declaration. Keys that no field has are left out. -/
def rekey (naming : Naming) : Shape → Value → Value
  | .tableOf entry, .table entries =>
    .table (entries.map fun (key, value) => (key, rekey naming entry value))
  | .listOf item, .list items => .list (items.map (rekey naming item))
  | .model _ _ fields, .table entries => .table (rekeyFields naming entries fields)
  | _, v => v
def rekeyFields (naming : Naming) (entries : Entries) : List Field → Entries
  | [] => []
  | .mk name wireName optional shape :: rest =>
    (((entries.read? name wireName).map fun entry =>
        ((Field.mk name wireName optional shape).key naming, rekey naming shape entry.2)).toList) ++
      rekeyFields naming entries rest
end

/-- The entry of a field in a renamed table. -/
def rekeyed? (naming : Naming) (entries : Entries) (field : Field) : Option (String × Value) :=
  (entries.fieldValue? field).map fun v => (field.key naming, field.shape.rekey naming v)

section

variable {naming : Naming} {entries : Entries} {fields : List Field} {field : Field}

@[simp]
theorem Leaf.rekey_eq {shape : Shape} (leaf : shape.Leaf) (naming : Naming) (v : Value) :
    shape.rekey naming v = v := by
  cases leaf <;> simp [rekey]

theorem rekey_eq_null_iff (naming : Naming) (shape : Shape) (v : Value) :
    shape.rekey naming v = .null ↔ v = .null := by
  cases shape <;> cases v <;> simp [rekey]

theorem rekey_list (naming : Naming) (item : Shape) (items : List Value) :
    (listOf item).rekey naming (.list items) = .list (items.map (item.rekey naming)) := by
  rw [rekey]

theorem rekey_entries (naming : Naming) (entry : Shape) (entries : Entries) :
    (tableOf entry).rekey naming (.table entries) =
      .table (entries.map fun item => (item.1, entry.rekey naming item.2)) := by
  rw [rekey]

theorem rekeyFields_eq_filterMap (naming : Naming) (entries : Entries) (fields : List Field) :
    rekeyFields naming entries fields = fields.filterMap (rekeyed? naming entries) := by
  induction fields with
  | nil => rw [rekeyFields, List.filterMap_nil]
  | cons field fields ih =>
      obtain ⟨name, wireName, optional, shape⟩ := field
      have first : (entries.read? name wireName).map (fun entry =>
          ((Field.mk name wireName optional shape).key naming, shape.rekey naming entry.2)) =
            rekeyed? naming entries (.mk name wireName optional shape) := by
        rw [rekeyed?, Entries.fieldValue?, Option.map_map]
        rfl
      rw [rekeyFields, first, ih, List.filterMap_cons]
      cases rekeyed? naming entries (.mk name wireName optional shape) <;> rfl

theorem rekey_model (naming : Naming) (title : String) (summary : Option String)
    (fields : List Field) (entries : Entries) :
    (model title summary fields).rekey naming (.table entries) =
      .table (fields.filterMap (rekeyed? naming entries)) := by
  rw [rekey, rekeyFields_eq_filterMap]

theorem named_of_rekeyed? {entry : String × Value}
    (found : rekeyed? naming entries field = some entry) : field.Named entry.1 := by
  obtain ⟨v, -, rfl⟩ := Option.map_eq_some_iff.mp found
  exact field.named_key naming

theorem keys_rekeyed_sublist (naming : Naming) (entries : Entries) (fields : List Field) :
    ((fields.filterMap (rekeyed? naming entries)).map Prod.fst).Sublist
      (fields.map (Field.key naming)) := by
  induction fields with
  | nil => exact .refl _
  | cons field fields ih =>
      cases found : rekeyed? naming entries field with
      | none =>
          rw [List.filterMap_cons_none found]
          exact ih.cons _
      | some entry =>
          obtain ⟨v, -, rfl⟩ := Option.map_eq_some_iff.mp found
          rw [List.filterMap_cons_some found]
          exact ih.cons_cons _

/-- A field that is apart from all others finds nothing among their entries. -/
theorem not_named_of_mem (apart : ∀ other ∈ fields, field.Apart other) {entry : String × Value}
    (member : entry ∈ fields.filterMap (rekeyed? naming entries)) : ¬ field.Named entry.1 := by
  obtain ⟨other, listed, found⟩ := List.mem_filterMap.mp member
  exact (apart other listed).symm.not_named (named_of_rekeyed? found)

end

end Shape

/-! ## Reading renamed values -/

namespace Entries

variable {entries : Entries} {entry : String × Value} {field : Field}

theorem fieldValue?_eq (entries : Entries) (field : Field) : entries.fieldValue? field =
    (entries.lookup field.wireName).or (entries.lookup field.name) := by
  rw [fieldValue?, read?]
  cases entries.lookup field.wireName <;> simp

theorem named_of_read? {v : Value} {key : String}
    (found : entries.read? field.name field.wireName = some (key, v)) : field.Named key := by
  rw [read?] at found
  split at found
  · exact .inr (congrArg Prod.fst (Option.some_inj.mp found)).symm
  · obtain ⟨w, -, same⟩ := Option.map_eq_some_iff.mp found
    exact .inl (congrArg Prod.fst same).symm

theorem read?_cons_of_not_named (other : ¬ field.Named entry.1) :
    read? (entry :: entries) field.name field.wireName =
      entries.read? field.name field.wireName := by
  have names := not_or.mp other
  rw [read?, read?, List.lookup_cons, List.lookup_cons, beq_false_of_ne (Ne.symm names.1),
    beq_false_of_ne (Ne.symm names.2)]

theorem read?_eq_none_of_not_named (others : ∀ entry ∈ entries, ¬ field.Named entry.1) :
    entries.read? field.name field.wireName = none := by
  induction entries with
  | nil => rfl
  | cons entry entries ih =>
      rw [List.forall_mem_cons] at others
      rw [read?_cons_of_not_named others.1, ih others.2]

theorem read?_cons_of_named (named : field.Named entry.1)
    (others : ∀ entry ∈ entries, ¬ field.Named entry.1) :
    read? (entry :: entries) field.name field.wireName = some entry := by
  have none (key : String) (named : field.Named key) : entries.lookup key = none := by
    rw [List.lookup_eq_none_iff]
    intro other listed
    rw [bne_iff_ne]
    rintro rfl
    exact others other listed named
  rw [read?, List.lookup_cons, List.lookup_cons, none field.wireName (.inr rfl),
    none field.name (.inl rfl)]
  by_cases wire : field.wireName = entry.1
  · rw [wire, beq_self_eq_true]
  · have own : field.name = entry.1 := (named.resolve_right (Ne.symm wire)).symm
    rw [beq_false_of_ne wire, own, beq_self_eq_true]
    rfl

end Entries

namespace Shape

variable {fields : List Field}

theorem read?_rekeyed (apart : fields.Pairwise Field.Apart) {field : Field}
    (listed : field ∈ fields) (naming : Naming) (entries : Entries) :
    Entries.read? (fields.filterMap (rekeyed? naming entries)) field.name field.wireName =
      rekeyed? naming entries field := by
  induction apart with
  | nil => cases listed
  | @cons first rest apart _ ih =>
      rw [List.filterMap_cons]
      rcases List.mem_cons.mp listed with rfl | later
      · have others : ∀ entry ∈ rest.filterMap (rekeyed? naming entries), ¬ field.Named entry.1 :=
          fun _ => not_named_of_mem apart
        cases found : rekeyed? naming entries field with
        | none => exact Entries.read?_eq_none_of_not_named others
        | some entry => exact Entries.read?_cons_of_named (named_of_rekeyed? found) others
      · rw [← ih later]
        cases found : rekeyed? naming entries first with
        | none => rfl
        | some entry =>
            exact Entries.read?_cons_of_not_named
              ((apart field later).not_named (named_of_rekeyed? found))

theorem fieldValue?_rekeyed (apart : fields.Pairwise Field.Apart) {field : Field}
    (listed : field ∈ fields) (naming : Naming) (entries : Entries) :
    Entries.fieldValue? (fields.filterMap (rekeyed? naming entries)) field =
      (entries.fieldValue? field).map (field.shape.rekey naming) := by
  rw [Entries.fieldValue?, read?_rekeyed apart listed, rekeyed?, Option.map_map]
  rfl

/-! ## Renaming reordered values -/

/-- Tables in which each field of a model has the same are the same when they are renamed. -/
theorem reordered_rekey_model {naming : Naming} {fields : List Field} {entries others : Entries}
    (title : String) (summary : Option String) (same : ∀ field ∈ fields, Option.Rel Reordered
      ((entries.fieldValue? field).map (field.shape.rekey naming))
      ((others.fieldValue? field).map (field.shape.rekey naming))) :
    Reordered ((model title summary fields).rekey naming (.table entries))
      ((model title summary fields).rekey naming (.table others)) := by
  rw [rekey_model, rekey_model]
  apply Reordered.table_of_forall₂
  refine List.rel_filterMap (R := fun field other => field = other ∧ field ∈ fields) ?_
    (List.forall₂_same.mpr fun field listed => ⟨rfl, listed⟩)
  rintro field _ ⟨rfl, listed⟩
  have keyed (v w : Value) (value : Reordered v w) :
      SameEntry (field.key naming, v) (field.key naming, w) := ⟨rfl, value⟩
  have paired := rel_map (same field listed) fun v w _ => keyed v w
  rwa [Option.map_map, Option.map_map] at paired

theorem rel_fieldValue? {entries others : Entries} (same : Record.SameValues entries others)
    (field : Field) :
    Option.Rel Reordered (entries.fieldValue? field) (others.fieldValue? field) :=
  rel_map (Record.rel_read? same field.name field.wireName) fun _ _ _ value => value.2

theorem keysDistinct_fieldValue? {entries : Entries} (distinct : (Value.table entries).KeysDistinct)
    {field : Field} {v : Value} (found : entries.fieldValue? field = some v) : v.KeysDistinct := by
  obtain ⟨entry, there, rfl⟩ := Option.map_eq_some_iff.mp found
  exact (Record.valuesDistinct distinct).read? there

theorem keysDistinct_rekey {shape : Shape} (wellNamed : shape.WellNamed) (naming : Naming)
    {v : Value} (distinct : v.KeysDistinct) : (shape.rekey naming v).KeysDistinct := by
  induction wellNamed generalizing v with
  | leaf isLeaf => rwa [isLeaf.rekey_eq]
  | tableOf _ ih =>
      cases v with
      | table entries =>
          rw [Value.keysDistinct_table_iff] at distinct
          rw [rekey_entries, Value.keysDistinct_table_iff, List.map_map, List.forall_mem_map]
          exact ⟨distinct.1, fun item listed => ih (distinct.2 item listed)⟩
      | _ => simpa only [rekey] using distinct
  | listOf _ ih =>
      cases v with
      | list items =>
          rw [rekey_list, Value.keysDistinct_list_iff, List.forall_mem_map]
          exact fun item listed => ih (distinct.item listed)
      | _ => simpa only [rekey] using distinct
  | @model title summary fields apart _ ih =>
      cases v with
      | table entries =>
          rw [rekey_model, Value.keysDistinct_table_iff]
          refine ⟨(Field.nodup_keys apart naming).sublist (keys_rekeyed_sublist ..), ?_⟩
          intro entry member
          obtain ⟨field, listed, found⟩ := List.mem_filterMap.mp member
          obtain ⟨v, there, rfl⟩ := Option.map_eq_some_iff.mp found
          exact ih field listed (keysDistinct_fieldValue? distinct there)
      | _ => simpa only [rekey] using distinct

theorem reordered_rekey {shape : Shape} (wellNamed : shape.WellNamed) (naming : Naming)
    {v w : Value} (distinct : v.KeysDistinct) (reordered : Reordered v w) :
    Reordered (shape.rekey naming v) (shape.rekey naming w) := by
  induction wellNamed generalizing v w with
  | leaf isLeaf => rwa [isLeaf.rekey_eq, isLeaf.rekey_eq]
  | @tableOf entry _ ih =>
      rcases reordered.eq_or_collections distinct with rfl | ⟨items, others, rfl, rfl⟩ |
        ⟨entries, others, rfl, rfl⟩
      · exact .refl _
      · simpa [rekey] using reordered
      · obtain ⟨middle, paired, perm⟩ := reordered.exists_entries distinct
        rw [rekey_entries, rekey_entries]
        have inside := (List.forall₂_and_left ..).mpr
          ⟨(Value.keysDistinct_table_iff.mp distinct).2, paired⟩
        have renamed : Reordered
            (.table (entries.map fun item => (item.1, entry.rekey naming item.2)))
            (.table (middle.map fun item => (item.1, entry.rekey naming item.2))) := by
          apply Reordered.table_of_forall₂
          rw [List.forall₂_map_left_iff, List.forall₂_map_right_iff]
          exact inside.imp fun _ _ both => ⟨both.2.1, ih both.1 both.2.2⟩
        exact renamed.trans (.keys (perm.map _))
  | @listOf item _ ih =>
      rcases reordered.eq_or_collections distinct with rfl | ⟨items, others, rfl, rfl⟩ |
        ⟨entries, others, rfl, rfl⟩
      · exact .refl _
      · obtain ⟨others', same, paired⟩ := reordered.exists_list distinct
        obtain rfl := Value.list.inj same
        rw [rekey_list, rekey_list]
        apply Reordered.list_of_forall₂
        rw [List.forall₂_map_left_iff, List.forall₂_map_right_iff]
        have inside := (List.forall₂_and_left ..).mpr
          ⟨Value.keysDistinct_list_iff.mp distinct, paired⟩
        exact inside.imp fun _ _ both => ih both.1 both.2
      · simpa [rekey] using reordered
  | @model title summary fields _ _ ih =>
      rcases reordered.eq_or_collections distinct with rfl | ⟨items, others, rfl, rfl⟩ |
        ⟨entries, others, rfl, rfl⟩
      · exact .refl _
      · simpa [rekey] using reordered
      · apply reordered_rekey_model
        intro field listed
        exact rel_map (rel_fieldValue? (reordered.lookup distinct) field)
          fun _ _ there => ih field listed (keysDistinct_fieldValue? distinct there)

end Shape

end Workflow
