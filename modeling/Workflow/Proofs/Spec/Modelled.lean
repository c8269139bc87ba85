import Workflow.Proofs.Spec.Violations

/-!
Shapes, readers and writers of one model. Beside the laws of reading and writing, the raw form of
what was read is read as the same, the reader looks at nothing but the fields of the shape, under
either of their names, and it reads just the values in which the shape finds nothing wrong. The laws
are proved for scalars, lists and tables, and for a model out of its fields.
-/

namespace Workflow

variable {α β : Type}

/-- What is read in the place of the shape can be written back, in any form and naming, and a value
is read exactly if the shape finds nothing wrong with it. -/
structure Modelled (shape : Shape) (read : Value → Option α) (write : Form → α → Value) :
    Prop where
  lawful : Lawful read write
  restored : ∀ {v a}, read v = some a → read (write .raw a) = some a
  wellNamed : shape.WellNamed
  renamed : ∀ naming v, read (shape.rekey naming v) = read v
  accepts : ∀ location v, (∃ a, read v = some a) ↔ shape.violations location v = []

namespace Modelled

variable {shape : Shape} {read : Value → Option α} {write : Form → α → Value}

/-! ## Scalars and free tables -/

theorem leaf (lawful : Lawful read write) (isLeaf : shape.Leaf)
    (restored : ∀ {v a}, read v = some a → read (write .raw a) = some a)
    (accepts : ∀ v, (∃ a, read v = some a) ↔ shape.violations [] v = []) :
    Modelled shape read write where
  lawful := lawful
  restored := restored
  wellNamed := .leaf isLeaf
  renamed naming v := by rw [isLeaf.rekey_eq]
  accepts location v := by
    obtain ⟨problems, same⟩ := isLeaf.exists_problems v
    rw [accepts, same, same, List.map_eq_nil_iff, List.map_eq_nil_iff]

theorem scalar {write : α → Value} (lawful : Lawful read fun _ => write) (isLeaf : shape.Leaf)
    (injective : Function.Injective write)
    (accepts : ∀ v, (∃ a, read v = some a) ↔ shape.violations [] v = []) :
    Modelled shape read fun _ => write := by
  apply leaf lawful isLeaf _ accepts
  intro v a found
  obtain ⟨b, again, same⟩ := lawful.again Form.raw_standard found
  rw [again, injective (same .raw)]

theorem string : Modelled (.text false) Value.string? fun _ => Value.text := by
  apply scalar .string (.text false) fun _ _ => Value.text.inj
  intro v
  cases v <;> simp [Value.string?, Shape.violations]

theorem nonEmpty : Modelled (.text true) Value.nonEmpty? fun _ => Value.text := by
  apply scalar .nonEmpty (.text true) fun _ _ => Value.text.inj
  intro v
  cases v <;> simp [Value.nonEmpty?, Shape.violations]

theorem timestamp : Modelled .timestamp Value.timestamp? fun _ => Value.text := by
  apply scalar .timestamp .timestamp fun _ _ => Value.text.inj
  intro v
  cases v <;> simp [Value.timestamp?, Shape.violations]

theorem count : Modelled .count Value.count? fun _ => Value.int := by
  apply scalar .count .count fun _ _ => Value.int.inj
  intro v
  cases v <;> simp [Value.count?, Shape.violations, Range.integerProblem?, Range.ofInt?]

/-- A value that is no integer of the range is a double of it if it is a number at all. -/
theorem exists_number?_iff (range : Range) (v : Value) :
    (∃ n, v.number? range = some n) ↔ range.problems v = [] := by
  cases v with
  | int n =>
      rw [Value.number?, Range.problems, Range.integerProblem?, Range.realProblem?]
      generalize Binary64.holdsInt n = holds
      cases range.ofInt? n <;> cases holds <;> simp
  | real x =>
      cases broken : range.ofReal? x <;>
        simp [Value.number?, Range.problems, Range.integerProblem?, Range.realProblem?, broken]
  | _ => simp [Value.number?, Range.problems, Range.integerProblem?, Range.realProblem?]

theorem number (range : Range) :
    Modelled (.number range) (Value.number? range) fun _ => Number.toValue := by
  refine scalar (.number range) (.number range) ?_ fun v => ?_
  · intro n m same
    cases n <;> cases m <;> simp_all [Number.toValue]
  · rw [exists_number?_iff, Shape.violations, List.map_eq_nil_iff]

theorem choice [Labelled α] (name : String) (summary : Option String) :
    Modelled (Labelled.shape α name summary) (Value.choice? (α := α))
      fun _ => Labelled.toValue := by
  have isLeaf : (Labelled.shape α name summary).Leaf := .choice name summary (Labelled.labels α)
  refine leaf .choice isLeaf ?_ fun v => ?_
  · intro v a found
    cases v with
    | text s =>
        have label := List.find?_some found
        obtain rfl : Labelled.label a = s := beq_iff_eq.mp label
        exact found
    | _ => cases found
  · cases v <;> simp [Value.choice?, Labelled.ofLabel?, Labelled.shape, Labelled.labels,
      Shape.violations, ← Option.isSome_iff_exists]

theorem freeTable : Modelled .freeTable Value.entries? Form.freeTable := by
  refine leaf .freeTable .freeTable (fun _ => rfl) fun v => ?_
  cases v <;> simp [Value.entries?, Shape.violations]

/-! ## Collections -/

theorem exists_mapM_eq_some_iff {γ : Type} {f : γ → Option β} {items : List γ} :
    (∃ results, items.mapM f = some results) ↔ ∀ item ∈ items, ∃ b, f item = some b := by
  simp only [Lawful.mapM_eq_some_iff]
  constructor
  · rintro ⟨results, each⟩ item listed
    obtain ⟨b, -, found⟩ := exists_left_of_forall₂ each.flip listed
    exact ⟨b, found⟩
  · exact Lawful.exists_forall₂

theorem list (laws : Modelled shape read write) :
    Modelled (.listOf shape) (Value.listOf? read) fun form => listValue (write form) where
  lawful := laws.lawful.list
  restored {v items} found := by
    obtain ⟨values, -, each⟩ := Lawful.listOf?_eq_some_iff.mp found
    rw [Lawful.listOf?_eq_some_iff]
    refine ⟨_, rfl, ?_⟩
    rw [List.forall₂_map_left_iff, List.forall₂_same]
    intro a listed
    obtain ⟨value, -, found⟩ := exists_left_of_forall₂ each listed
    exact laws.restored found
  wellNamed := .listOf laws.wellNamed
  renamed naming v := by
    cases v with
    | list items =>
        rw [Shape.rekey_list, Value.listOf?, Value.listOf?, List.mapM_map]
        exact congrArg (items.mapM ·) (funext (laws.renamed naming))
    | _ => simp [Shape.rekey]
  accepts location v := by
    cases v with
    | list values =>
        have items : (∀ place ∈ values.zipIdx, ∃ a, read place.1 = some a) ↔
            ∀ v ∈ values, ∃ a, read v = some a := by
          rw [← List.forall_mem_map (f := Prod.fst) (P := fun v => ∃ a, read v = some a),
            List.zipIdx_map_fst]
        rw [Value.listOf?, exists_mapM_eq_some_iff, Shape.violations_items,
          List.flatMap_eq_nil_iff, ← items]
        simp only [← laws.accepts]
    | _ => simp [Value.listOf?, Shape.violations]

theorem table (laws : Modelled shape read write) :
    Modelled (.tableOf shape) (Value.tableOf? read) fun form => tableValue (write form) where
  lawful := laws.lawful.table
  restored {v results} found := by
    obtain ⟨entries, -, each⟩ := Lawful.tableOf?_eq_some_iff.mp found
    rw [Lawful.tableOf?_eq_some_iff]
    refine ⟨_, rfl, ?_⟩
    rw [List.forall₂_map_left_iff, List.forall₂_same]
    intro result listed
    obtain ⟨entry, -, -, found⟩ := exists_left_of_forall₂ each listed
    exact ⟨rfl, laws.restored found⟩
  wellNamed := .tableOf laws.wellNamed
  renamed naming v := by
    cases v with
    | table entries =>
        rw [Shape.rekey_entries, Value.tableOf?, Value.tableOf?, List.mapM_map]
        apply congrArg (entries.mapM ·)
        funext entry
        simp only [Function.comp_apply, laws.renamed]
    | _ => simp [Shape.rekey]
  accepts location v := by
    cases v with
    | table entries =>
        rw [Value.tableOf?, exists_mapM_eq_some_iff, Shape.violations_entries,
          List.flatMap_eq_nil_iff]
        simp [← laws.accepts]
    | _ => simp [Value.tableOf?, Shape.violations]

end Modelled

/-! ## Fields -/

namespace Record

/-- The record reads and writes the fields and nothing else. -/
structure Modelled (r : Record α) (fields : List Field) : Prop where
  lawful : r.Lawful
  names : r.names = fields.map fun field => (field.name, field.wireName)
  wellNamed : ∀ field ∈ fields, field.shape.WellNamed
  restored : ∀ {entries a}, r.read entries = some a →
    ∀ {others}, HeldBy .raw r.names (r.write .raw a) others → r.read others = some a
  renamed : ∀ naming {entries others : Entries}, (∀ field ∈ fields, others.fieldValue? field =
    (entries.fieldValue? field).map (field.shape.rekey naming)) → r.read others = r.read entries
  accepts : ∀ location entries, (∃ a, r.read entries = some a) ↔
    ∀ field ∈ fields, field.violations location entries = []

namespace Modelled

variable {shape : Shape} {read : Value → Option α} {write : Form → α → Value}

theorem required (laws : Workflow.Modelled shape read write) (name wireName : String) :
    (required name wireName read write).Modelled [.mk name wireName false shape] where
  lawful := .required laws.lawful name wireName
  names := rfl
  wellNamed := List.forall_mem_singleton.mpr laws.wellNamed
  restored {entries a} found others held := by
    obtain ⟨entry, -, found⟩ := Option.bind_eq_some_iff.mp found
    have there := held.values (wireName, some (write .raw a)) List.mem_cons_self
    rw [read_required, Entries.required, read?_of_lookup there]
    exact laws.restored found
  renamed naming entries others same := by
    have reads (entries : Entries) : entries.required name wireName read =
        (entries.fieldValue? (.mk name wireName false shape)).bind read := by
      rw [Entries.required, Entries.fieldValue?, Option.bind_map]
      rfl
    rw [read_required, read_required, reads, reads, same _ List.mem_cons_self, Option.bind_map]
    exact congrArg _ (funext (laws.renamed naming))
  accepts location entries := by
    rw [read_required, Entries.required, List.forall_mem_singleton]
    cases there : entries.read? name wireName with
    | none =>
        have missing : Field.violations location entries (.mk name wireName false shape) =
            [Problem.missing.violation (location ++ [.key wireName])] :=
          Field.violations_of_missing location there
        simp [missing]
    | some entry =>
        rw [Field.violations_of_value location (by simp [Field.optional]) there,
          Option.bind_some]
        exact laws.accepts _ _

theorem optional (laws : Workflow.Modelled shape read write) (name wireName : String) :
    (optional name wireName read write).Modelled [.mk name wireName true shape] where
  lawful := .optional laws.lawful name wireName
  names := rfl
  wellNamed := List.forall_mem_singleton.mpr laws.wellNamed
  restored {entries a} found others held := by
    have there := held.values (wireName, a.map (write .raw)) List.mem_cons_self
    cases a with
    | none => exact optional_of_null (read?_of_lookup there)
    | some a =>
        obtain ⟨entry, -, found⟩ := exists_read?_of_optional found
        have filled : others.read? name wireName = some (wireName, write .raw a) :=
          read?_of_lookup there
        exact (optional_of_some filled (laws.lawful.set Form.raw_standard a)).trans
          (congrArg (Option.map some) (laws.restored found))
  renamed naming entries others same := by
    have found : (others.read? name wireName).map Prod.snd =
        ((entries.read? name wireName).map Prod.snd).map (shape.rekey naming) :=
      same _ List.mem_cons_self
    rw [read_optional, read_optional]
    cases there : entries.read? name wireName with
    | none =>
        have there' : others.read? name wireName = none := by simpa [there] using found
        rw [optional_of_none there, optional_of_none there']
    | some entry =>
        obtain ⟨key, v⟩ := entry
        obtain ⟨key', there'⟩ : ∃ key',
            others.read? name wireName = some (key', shape.rekey naming v) := by
          simpa [there] using found
        by_cases unset : v = .null
        · rw [(shape.rekey_eq_null_iff naming v).mpr unset] at there'
          rw [unset] at there
          rw [optional_of_null there, optional_of_null there']
        · have set := mt (shape.rekey_eq_null_iff naming v).mp unset
          rw [optional_of_some there unset, optional_of_some there' set, laws.renamed]
  accepts location entries := by
    rw [read_optional, List.forall_mem_singleton]
    cases there : entries.read? name wireName with
    | none =>
        rw [optional_of_none there, Field.violations_of_missing location there]
        simp [Field.optional]
    | some entry =>
        obtain ⟨key, v⟩ := entry
        by_cases unset : v = .null
        · subst unset
          rw [optional_of_null there, Field.violations_of_unset location rfl there]
          simp
        · rw [optional_of_some there unset,
            Field.violations_of_value location (fun both => unset both.2) there]
          refine Iff.trans ?_ (laws.accepts _ v)
          simp

theorem and {first : Record α} {second : Record β} {fields others : List Field}
    (laws : first.Modelled fields) (laws' : second.Modelled others) :
    (first.and second).Modelled (fields ++ others) where
  lawful := .and laws.lawful laws'.lawful
  names := by simp [Record.and, laws.names, laws'.names]
  wellNamed := List.forall_mem_append.mpr ⟨laws.wellNamed, laws'.wellNamed⟩
  restored {entries both} all held' held := by
    obtain ⟨a, found, later⟩ := Option.bind_eq_some_iff.mp all
    obtain ⟨b, found', rfl⟩ := Option.map_eq_some_iff.mp later
    have values := List.forall_mem_append.mp held.values
    have apart := List.forall_mem_append.mp held.others
    have again := laws.restored found ⟨values.1, apart.1⟩
    have again' := laws'.restored found' ⟨values.2, apart.2⟩
    simp [Record.and, again, again']
  renamed naming entries held same := by
    rw [List.forall_mem_append] at same
    simp [Record.and, laws.renamed naming same.1, laws'.renamed naming same.2]
  accepts location entries := by
    rw [List.forall_mem_append, ← laws.accepts, ← laws'.accepts]
    simp [Record.and, Option.bind_eq_some_iff]

end Modelled

end Record

/-! ## Models -/

namespace Field

variable {fields : List Field}

theorem name_notMem (apart : fields.Pairwise Apart) {field : Field} (listed : field ∈ fields) :
    field.name = field.wireName ∨ field.name ∉ fields.map wireName := by
  by_contra both
  obtain ⟨different, member⟩ := not_or.mp both
  obtain ⟨other, listed', same⟩ := List.mem_map.mp (not_not.mp member)
  obtain rfl := eq_of_named apart listed listed' (.inl rfl) (.inr same.symm)
  exact different same.symm

end Field

/-- The laws of a record's fields are laws of the model, where `make` and `parts` take it together
and apart. -/
theorem Modelled.record (make : β → α) (parts : α → β) {r : Record β} {fields : List Field}
    (laws : r.Modelled fields) (inverse : ∀ b, parts (make b) = b)
    (apart : fields.Pairwise Field.Apart) {title : String} {summary : Option String}
    {read : Value → Option α} (reads : ∀ v, read v = v.entries?.bind fun entries =>
      (r.read entries).map make)
    {write : Form → α → Value}
    (writes : ∀ form a, write form a = form.record (r.write form (parts a))) :
    Modelled (.model title summary fields) read write := by
  have wireNames : r.names.map Prod.snd = fields.map Field.wireName := by
    rw [laws.names, List.map_map]
    rfl
  have distinctNames : (r.names.map Prod.snd).Nodup := wireNames ▸ Field.nodup_keys apart .wire
  have others : ∀ pair ∈ r.names, pair.1 = pair.2 ∨ pair.1 ∉ r.names.map Prod.snd := by
    rw [wireNames, laws.names, List.forall_mem_map]
    exact fun field => Field.name_notMem apart
  refine ⟨.record make parts laws.lawful inverse distinctNames others reads writes, ?_,
    .model apart laws.wellNamed, ?_, ?_⟩
  · intro v a found
    obtain ⟨entries, b, -, held, rfl⟩ := Record.exists_of_reads reads found
    have again := laws.restored held (laws.lawful.heldBy distinctNames others .raw b)
    rw [writes, inverse, Form.record_eq, reads, Value.entries?, Option.bind_some, again,
      Option.map_some]
  · intro naming v
    cases v with
    | table entries =>
        have same := laws.renamed naming fun field listed =>
          Shape.fieldValue?_rekeyed apart listed naming entries
        rw [Shape.rekey_model, reads, reads, Value.entries?, Option.bind_some, same]
        rfl
    | _ => simp [Shape.rekey]
  · intro location v
    cases v with
    | table entries =>
        rw [Shape.violations_model, List.flatMap_eq_nil_iff, ← laws.accepts, reads, Value.entries?,
          Option.bind_some]
        simp
    | _ => simp [reads, Value.entries?, Shape.violations]

end Workflow
