import Workflow.Proofs.Spec.Lawful

/-!
Records out of their fields. Each field keeps the laws of readers and writers, and so does a record
whose fields all do, provided that no field is read under another one's name.
-/

namespace Workflow

open Value (Reordered SameEntry)

/-- How some fields of a record are read and written. -/
structure Record (α : Type) where
  /-- The name of each field, and its name on the wire. -/
  names : List (String × String)
  read : Entries → Option α
  write : Form → α → List (String × Option Value)

namespace Record

variable {α β : Type}

def required (name wireName : String) (read : Value → Option α) (write : Form → α → Value) :
    Record α where
  names := [(name, wireName)]
  read entries := entries.required name wireName read
  write form a := [(wireName, some (write form a))]

def optional (name wireName : String) (read : Value → Option α) (write : Form → α → Value) :
    Record (Option α) where
  names := [(name, wireName)]
  read entries := entries.optional name wireName read
  write form a := [(wireName, a.map (write form))]

/-- The fields of both. -/
def and (first : Record α) (second : Record β) : Record (α × β) where
  names := first.names ++ second.names
  read entries := (first.read entries).bind fun a => (second.read entries).map (a, ·)
  write form both := first.write form both.1 ++ second.write form both.2

@[simp]
theorem read_required (name wireName : String) (read : Value → Option α)
    (write : Form → α → Value) (entries : Entries) :
    (required name wireName read write).read entries = entries.required name wireName read := rfl

@[simp]
theorem read_optional (name wireName : String) (read : Value → Option α)
    (write : Form → α → Value) (entries : Entries) :
    (optional name wireName read write).read entries = entries.optional name wireName read := rfl

@[simp]
theorem bind_read_and {γ : Type} (first : Record α) (second : Record β) (make : α × β → Option γ)
    (entries : Entries) : ((first.and second).read entries).bind make =
      (first.read entries).bind fun a => (second.read entries).bind fun b => make (a, b) := by
  simp [and, Option.bind_assoc, Option.map_eq_bind]

/-! ## Laws of fields -/

/-- No key twice in a value of the table. -/
def ValuesDistinct (entries : Entries) : Prop :=
  ∀ key v, entries.lookup key = some v → v.KeysDistinct

theorem valuesDistinct {entries : Entries} (distinct : (Value.table entries).KeysDistinct) :
    ValuesDistinct entries :=
  fun _ _ there => distinct.entry (Entries.mem_of_lookup there)

/-- Every key has values in both tables, one reordered from the other, or in neither. -/
def SameValues (entries others : Entries) : Prop :=
  ∀ key, Option.Rel Reordered (entries.lookup key) (others.lookup key)

/-- The same field, and the same value up to the order of keys where the field is set. -/
def SameField (field other : String × Option Value) : Prop :=
  field.1 = other.1 ∧ Option.Rel Reordered field.2 other.2

/-- The entries hold the fields, and nothing under the other names of the fields. -/
structure HeldBy (form : Form) (names : List (String × String))
    (fields : List (String × Option Value)) (entries : Entries) : Prop where
  values : ∀ field ∈ fields, entries.lookup field.1 = field.2.or form.unset
  others : ∀ pair ∈ names, pair.1 = pair.2 ∨ entries.lookup pair.1 = none

/-- What is read of the fields can be written and read again, whatever the order of keys. -/
structure Lawful (r : Record α) : Prop where
  keys : ∀ form a, (r.write form a).map Prod.fst = r.names.map Prod.snd
  set : ∀ {form : Form}, form.Standard → ∀ a, ∀ field ∈ r.write form a, field.2 ≠ some .null
  again : ∀ {form : Form}, form.Standard → ∀ {entries a}, r.read entries = some a →
    ∀ {others}, HeldBy form r.names (r.write form a) others →
      ∃ b, r.read others = some b ∧ ∀ next, r.write next b = r.write (form.andThen next) a
  steady : ∀ {entries others a}, ValuesDistinct entries → SameValues entries others →
    r.read entries = some a → ∃ b, r.read others = some b ∧ ∀ form, form.Standard →
      List.Forall₂ SameField (r.write form a) (r.write form b)
  distinct : ∀ {form : Form}, form.Standard → ∀ {entries a}, ValuesDistinct entries →
    r.read entries = some a → ∀ field ∈ r.write form a, ∀ v, field.2 = some v → v.KeysDistinct
  dropNulls : ∀ a, r.write .bare a =
    (r.write .wire a).map fun field => (field.1, field.2.map Value.dropNulls)

theorem rel_read? {entries others : Entries} (same : SameValues entries others)
    (name wireName : String) :
    Option.Rel SameEntry (entries.read? name wireName) (others.read? name wireName) := by
  have first := same wireName
  have second := same name
  unfold Entries.read?
  revert first second
  generalize entries.lookup wireName = v
  generalize others.lookup wireName = w
  generalize entries.lookup name = v'
  generalize others.lookup name = w'
  intro first second
  cases first with
  | some value => exact .some ⟨rfl, value⟩
  | none =>
      cases second with
      | some value => exact .some ⟨rfl, value⟩
      | none => exact .none

theorem read?_of_same {entries others : Entries} (same : SameValues entries others)
    {name wireName : String} {entry : String × Value}
    (there : entries.read? name wireName = some entry) :
    ∃ other, others.read? name wireName = some other ∧ SameEntry entry other := by
  have matched := rel_read? same name wireName
  rw [there] at matched
  generalize others.read? name wireName = found at matched
  cases matched with
  | some value => exact ⟨_, rfl, value⟩

theorem read?_none_of_same {entries others : Entries} (same : SameValues entries others)
    {name wireName : String} (missing : entries.read? name wireName = none) :
    others.read? name wireName = none := by
  have matched := rel_read? same name wireName
  rw [missing] at matched
  generalize others.read? name wireName = found at matched
  cases matched
  rfl

theorem ValuesDistinct.read? {entries : Entries} (distinct : ValuesDistinct entries)
    {name wireName : String} {found : String × Value}
    (there : entries.read? name wireName = some found) : found.2.KeysDistinct := by
  rw [Entries.read?] at there
  split at there
  next v found => exact Option.some_inj.mp there ▸ distinct wireName v found
  next =>
    obtain ⟨v, found, rfl⟩ := Option.map_eq_some_iff.mp there
    exact distinct name v found

section

variable {entries : Entries} {name wireName key : String} {read : Value → Option α} {v : Value}

theorem read?_of_lookup (found : entries.lookup wireName = some v) :
    entries.read? name wireName = some (wireName, v) := by
  rw [Entries.read?, found]

theorem read?_eq_none (missing : entries.lookup wireName = none)
    (other : name = wireName ∨ entries.lookup name = none) :
    entries.read? name wireName = none := by
  have missing' : entries.lookup name = none := by
    rcases other with rfl | missing'
    · exact missing
    · exact missing'
  rw [Entries.read?, missing, missing', Option.map_none]

theorem optional_of_none (missing : entries.read? name wireName = none) :
    entries.optional name wireName read = some none := by
  rw [Entries.optional, missing]

theorem optional_of_null (found : entries.read? name wireName = some (key, .null)) :
    entries.optional name wireName read = some none := by
  rw [Entries.optional, found]

theorem optional_of_some (found : entries.read? name wireName = some (key, v)) (set : v ≠ .null) :
    entries.optional name wireName read = (read v).map some := by
  rw [Entries.optional, found]
  cases v <;> first | contradiction | rfl

theorem exists_read?_of_optional {a : α}
    (found : entries.optional name wireName read = some (some a)) :
    ∃ entry, entries.read? name wireName = some entry ∧ read entry.2 = some a := by
  rw [Entries.optional] at found
  split at found
  · cases found
  · cases found
  next key v _ there =>
    obtain ⟨b, result, same⟩ := Option.map_eq_some_iff.mp found
    obtain rfl := Option.some_inj.mp same
    exact ⟨_, there, result⟩

end

namespace Lawful

variable {read : Value → Option α} {write : Form → α → Value}

theorem required (laws : Workflow.Lawful read write) (name wireName : String) :
    (required name wireName read write).Lawful where
  keys _ _ := rfl
  set standard a := by simpa [Record.required] using laws.set standard a
  again {form} standard entries a found others held := by
    obtain ⟨entry, -, found⟩ := Option.bind_eq_some_iff.mp found
    obtain ⟨b, again, same⟩ := laws.again standard found
    have there := held.values (wireName, some (write form a)) List.mem_cons_self
    refine ⟨b, ?_, fun next => by simp [Record.required, same]⟩
    simp only [Record.required, Entries.required, read?_of_lookup there, Option.bind_some, again]
  steady {entries others a} distinct same found := by
    obtain ⟨entry, there, found⟩ := Option.bind_eq_some_iff.mp found
    obtain ⟨other, there', matched⟩ := read?_of_same same there
    obtain ⟨b, found', alike⟩ := laws.steady (distinct.read? there) matched.2 found
    refine ⟨b, ?_, fun form standard => .cons ⟨rfl, .some (alike form standard)⟩ .nil⟩
    simp only [Record.required, Entries.required, there', Option.bind_some, found']
  distinct {form} standard entries a distinct found := by
    obtain ⟨entry, there, found⟩ := Option.bind_eq_some_iff.mp found
    simpa [Record.required] using laws.distinct standard (distinct.read? there) found
  dropNulls a := by simp [Record.required, laws.dropNulls]

theorem optional (laws : Workflow.Lawful read write) (name wireName : String) :
    (optional name wireName read write).Lawful where
  keys _ _ := rfl
  set standard a := by
    cases a with
    | none => simp [Record.optional]
    | some a => simpa [Record.optional] using laws.set standard a
  again {form} standard entries a found others held := by
    have there := held.values (wireName, a.map (write form)) List.mem_cons_self
    have apart := held.others (name, wireName) List.mem_cons_self
    cases a with
    | none =>
        refine ⟨none, ?_, fun _ => rfl⟩
        rcases standard.unset with missing | null
        · rw [missing] at there
          exact optional_of_none (read?_eq_none there apart)
        · rw [null] at there
          exact optional_of_null (read?_of_lookup there)
    | some a =>
        obtain ⟨entry, -, found⟩ := exists_read?_of_optional found
        obtain ⟨b, again, same⟩ := laws.again standard found
        refine ⟨some b, ?_, fun next => by simp [Record.optional, same]⟩
        have filled : others.read? name wireName = some (wireName, write form a) :=
          read?_of_lookup there
        exact (optional_of_some filled (laws.set standard a)).trans
          (congrArg (Option.map some) again)
  steady {entries others a} distinct same found := by
    cases there : entries.read? name wireName with
    | none =>
        obtain rfl := Option.some_inj.mp ((optional_of_none there).symm.trans found)
        refine ⟨none, optional_of_none (read?_none_of_same same there), fun _ _ => ?_⟩
        exact .cons ⟨rfl, .none⟩ .nil
    | some entry =>
        obtain ⟨other, there', matched⟩ := read?_of_same same there
        by_cases null : entry.2 = .null
        · have there : entries.read? name wireName = some (entry.1, .null) := null ▸ there
          have null' : other.2 = .null := matched.2.eq_null_iff.mp null
          have there' : others.read? name wireName = some (other.1, .null) := null' ▸ there'
          obtain rfl := Option.some_inj.mp ((optional_of_null there).symm.trans found)
          exact ⟨none, optional_of_null there', fun _ _ => .cons ⟨rfl, .none⟩ .nil⟩
        · have null' : other.2 ≠ .null := mt matched.2.eq_null_iff.mpr null
          obtain ⟨a, set, rfl⟩ :=
            Option.map_eq_some_iff.mp ((optional_of_some there null).symm.trans found)
          obtain ⟨b, set', alike⟩ := laws.steady (distinct.read? there) matched.2 set
          refine ⟨some b, ?_, fun form standard => .cons ⟨rfl, .some (alike form standard)⟩ .nil⟩
          exact (optional_of_some there' null').trans (congrArg (Option.map some) set')
  distinct {form} standard entries a distinct found := by
    cases a with
    | none => simp [Record.optional]
    | some a =>
        obtain ⟨entry, there, found⟩ := exists_read?_of_optional found
        simpa [Record.optional] using laws.distinct standard (distinct.read? there) found
  dropNulls a := by
    cases a with
    | none => rfl
    | some a => simp [Record.optional, laws.dropNulls]

theorem and {first : Record α} {second : Record β} (laws : first.Lawful) (laws' : second.Lawful) :
    (first.and second).Lawful where
  keys form both := by simp [Record.and, laws.keys, laws'.keys]
  set standard both := by
    rw [Record.and, List.forall_mem_append]
    exact ⟨laws.set standard both.1, laws'.set standard both.2⟩
  again {form} standard entries both all others held := by
    obtain ⟨a, found, later⟩ := Option.bind_eq_some_iff.mp all
    obtain ⟨b, found', rfl⟩ := Option.map_eq_some_iff.mp later
    have values := List.forall_mem_append.mp held.values
    have apart := List.forall_mem_append.mp held.others
    obtain ⟨a', again, same⟩ := laws.again standard found ⟨values.1, apart.1⟩
    obtain ⟨b', again', same'⟩ := laws'.again standard found' ⟨values.2, apart.2⟩
    refine ⟨(a', b'), ?_, fun next => by simp [Record.and, same, same']⟩
    simp [Record.and, again, again']
  steady {entries others both} distinct same all := by
    obtain ⟨a, found, later⟩ := Option.bind_eq_some_iff.mp all
    obtain ⟨b, found', rfl⟩ := Option.map_eq_some_iff.mp later
    obtain ⟨a', again, alike⟩ := laws.steady distinct same found
    obtain ⟨b', again', alike'⟩ := laws'.steady distinct same found'
    refine ⟨(a', b'), by simp [Record.and, again, again'], fun form standard => ?_⟩
    exact List.rel_append (alike form standard) (alike' form standard)
  distinct {form} standard entries both distinct all := by
    obtain ⟨a, found, later⟩ := Option.bind_eq_some_iff.mp all
    obtain ⟨b, found', rfl⟩ := Option.map_eq_some_iff.mp later
    rw [Record.and, List.forall_mem_append]
    exact ⟨laws.distinct standard distinct found, laws'.distinct standard distinct found'⟩
  dropNulls both := by simp [Record.and, laws.dropNulls, laws'.dropNulls]

end Lawful

end Record

/-! ## Whole records -/

namespace Form

variable {form : Form} {fields : List (String × Option Value)}

/-- The entries of a record. -/
def entries (form : Form) (fields : List (String × Option Value)) : Entries :=
  fields.filterMap fun (key, value) => (value.or form.unset).map (key, ·)

theorem record_eq (form : Form) (fields : List (String × Option Value)) :
    form.record fields = .table (form.entries fields) := rfl

theorem mem_entries {entry : String × Value} : entry ∈ form.entries fields ↔
    ∃ value, (entry.1, value) ∈ fields ∧ value.or form.unset = some entry.2 := by
  simp only [entries, List.mem_filterMap, Option.map_eq_some_iff, Prod.exists]
  constructor
  · rintro ⟨key, value, member, v, found, rfl⟩
    exact ⟨value, member, found⟩
  · rintro ⟨value, member, found⟩
    exact ⟨entry.1, value, member, entry.2, found, rfl⟩

theorem keys_entries_sublist (form : Form) (fields : List (String × Option Value)) :
    ((form.entries fields).map Prod.fst).Sublist (fields.map Prod.fst) := by
  induction fields with
  | nil => exact .refl _
  | cons field fields ih =>
      obtain ⟨key, value⟩ := field
      cases held : value.or form.unset with
      | none =>
          rw [entries, List.filterMap_cons_none (by simp [held])]
          exact ih.cons key
      | some v =>
          rw [entries, List.filterMap_cons_some (by simp [held]; rfl)]
          exact ih.cons_cons key

theorem lookup_entries (nodup : (fields.map Prod.fst).Nodup) {field : String × Option Value}
    (member : field ∈ fields) : (form.entries fields).lookup field.1 = field.2.or form.unset := by
  cases held : field.2.or form.unset with
  | some v =>
      apply Entries.lookup_of_mem (nodup.sublist (keys_entries_sublist form fields))
      exact mem_entries.mpr ⟨field.2, member, held⟩
  | none =>
      simp only [List.lookup_eq_none_iff, bne_iff_ne]
      intro entry listed same
      obtain ⟨value, member', held'⟩ := mem_entries.mp listed
      obtain rfl := List.inj_on_of_nodup_map nodup member member' same
      rw [held] at held'
      cases held'

theorem lookup_entries_eq_none {key : String} (missing : key ∉ fields.map Prod.fst) :
    (form.entries fields).lookup key = none := by
  simp only [List.lookup_eq_none_iff, bne_iff_ne]
  rintro entry listed rfl
  exact missing ((keys_entries_sublist form fields).subset (List.mem_map_of_mem listed))

theorem entries_same {others : List (String × Option Value)}
    (paired : List.Forall₂ Record.SameField fields others) :
    List.Forall₂ SameEntry (form.entries fields) (form.entries others) := by
  induction paired with
  | nil => exact .nil
  | @cons field other fields others first _ ih =>
      obtain ⟨key, value⟩ := field
      obtain ⟨key', value'⟩ := other
      obtain ⟨rfl, same⟩ := first
      cases same with
      | some same =>
          rw [entries, entries, List.filterMap_cons_some (by rfl),
            List.filterMap_cons_some (by rfl)]
          exact .cons ⟨rfl, same⟩ ih
      | none =>
          cases unset : form.unset with
          | none =>
              rw [entries, entries, List.filterMap_cons_none (by simp [unset]),
                List.filterMap_cons_none (by simp [unset])]
              exact ih
          | some v =>
              rw [entries, entries, List.filterMap_cons_some (by simp [unset]; rfl),
                List.filterMap_cons_some (by simp [unset]; rfl)]
              exact .cons ⟨rfl, .refl v⟩ ih

end Form

theorem Record.exists_of_reads {α β : Type} {r : Record β} {make : β → α}
    {read : Value → Option α} (reads : ∀ v, read v = v.entries?.bind fun entries =>
      (r.read entries).map make) {v : Value} {a : α} (found : read v = some a) :
    ∃ entries b, v = .table entries ∧ r.read entries = some b ∧ make b = a := by
  rw [reads, Option.bind_eq_some_iff] at found
  obtain ⟨entries, isTable, found⟩ := found
  obtain ⟨b, found, made⟩ := Option.map_eq_some_iff.mp found
  exact ⟨entries, b, Lawful.eq_table_of_entries? isTable, found, made⟩

/-- What is written of the fields holds them. -/
theorem Record.Lawful.heldBy {β : Type} {r : Record β} (laws : r.Lawful)
    (distinctNames : (r.names.map Prod.snd).Nodup)
    (apart : ∀ pair ∈ r.names, pair.1 = pair.2 ∨ pair.1 ∉ r.names.map Prod.snd) (form : Form)
    (b : β) : Record.HeldBy form r.names (r.write form b) (form.entries (r.write form b)) := by
  have keys := laws.keys form b
  exact
    { values := fun field member => Form.lookup_entries (keys ▸ distinctNames) member
      others := fun pair member => (apart pair member).imp_right fun missing =>
        Form.lookup_entries_eq_none (keys ▸ missing) }

/-- The laws of a record's fields are laws of the record, where `make` and `fields` take it together
and apart. -/
theorem Lawful.record {α β : Type} (make : β → α) (fields : α → β) {r : Record β}
    (laws : r.Lawful) (inverse : ∀ b, fields (make b) = b)
    (distinctNames : (r.names.map Prod.snd).Nodup)
    (apart : ∀ pair ∈ r.names, pair.1 = pair.2 ∨ pair.1 ∉ r.names.map Prod.snd)
    {read : Value → Option α} (reads : ∀ v, read v = v.entries?.bind fun entries =>
      (r.read entries).map make)
    {write : Form → α → Value}
    (writes : ∀ form a, write form a = form.record (r.write form (fields a))) :
    Lawful read write where
  set {form} _ a := by
    rw [writes]
    simp [Form.record]
  again {form} standard v a found := by
    obtain ⟨entries, b, -, held, rfl⟩ := Record.exists_of_reads reads found
    obtain ⟨b', again, same⟩ := laws.again standard held (laws.heldBy distinctNames apart form b)
    refine ⟨make b', ?_, fun next => ?_⟩
    · rw [writes, inverse, Form.record_eq, reads, Value.entries?, Option.bind_some, again,
        Option.map_some]
    · rw [writes, writes, inverse, inverse, same]
      rfl
  steady {v w a} distinct reordered found := by
    obtain ⟨entries, b, rfl, held, rfl⟩ := Record.exists_of_reads reads found
    obtain ⟨others, rfl⟩ := reordered.eq_table distinct
    obtain ⟨b', held', alike⟩ :=
      laws.steady (Record.valuesDistinct distinct) (reordered.lookup distinct) held
    refine ⟨make b', ?_, fun form standard => ?_⟩
    · rw [reads, Value.entries?, Option.bind_some, held', Option.map_some]
    · rw [writes, writes, inverse, inverse]
      exact Reordered.table_of_forall₂ (Form.entries_same (alike form standard))
  distinct {form} standard v a distinct found := by
    obtain ⟨entries, b, rfl, held, rfl⟩ := Record.exists_of_reads reads found
    rw [writes, inverse, Form.record_eq, Value.keysDistinct_table_iff]
    have keys := laws.keys form b
    refine ⟨(keys ▸ distinctNames).sublist (Form.keys_entries_sublist form _), ?_⟩
    intro entry member
    obtain ⟨value, listed, filled⟩ := Form.mem_entries.mp member
    rcases Option.or_eq_some_iff.mp filled with set | ⟨-, unset⟩
    · exact laws.distinct standard (Record.valuesDistinct distinct) held _ listed entry.2 set
    · rcases standard.unset with missing | null
      · rw [missing] at unset
        cases unset
      · rw [null] at unset
        rw [← Option.some_inj.mp unset]
        exact .null
  dropNulls a := by
    have set : ∀ entry ∈ Form.setFields (r.write .wire (fields a)), entry.2 ≠ .null := by
      intro entry member null
      have listed := Form.mem_setFields.mp member
      exact laws.set Form.wire_standard (fields a) _ listed (congrArg some null)
    rw [writes, writes, laws.dropNulls, Form.wire_record, Value.dropNulls_table,
      Value.filterMap_keep?_eq_map set]
    simp [Form.record, Form.bare, Form.setFields, List.map_filterMap, List.filterMap_map,
      Function.comp_def]

end Workflow
