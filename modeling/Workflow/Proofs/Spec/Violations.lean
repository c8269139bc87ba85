import Workflow.Proofs.Spec.Renaming

/-!
The violations of values that hold the same. Renaming the fields of a value renames them in the
locations of its violations, and reordering its keys reorders the violations; nothing else about
them changes.
-/

namespace Workflow

open Value (Reordered SameEntry)

/-- The violation of what stands at a location. -/
def Violation.within (location : Location) (x : Violation) : Violation :=
  { x with location := location ++ x.location }

namespace Shape

mutual
/-- The location with every field under its wire name. -/
def wireLocation : Shape → Location → Location
  | .tableOf entry, step :: rest => step :: wireLocation entry rest
  | .listOf item, step :: rest => step :: wireLocation item rest
  | .model _ _ fields, .key key :: rest => wireLocationIn key rest fields
  | _, location => location
def wireLocationIn (key : String) (rest : Location) : List Field → Location
  | [] => .key key :: rest
  | .mk name wireName _ shape :: others =>
    if key = name ∨ key = wireName then .key wireName :: wireLocation shape rest
    else wireLocationIn key rest others
end

/-- The violation with every field of its location under its wire name. -/
def wired (shape : Shape) (x : Violation) : Violation :=
  { x with location := shape.wireLocation x.location }

end Shape

/-! ## Violations of fields -/

/-- What is wrong with the entries of a model in the place of a field. -/
def Field.violations (location : Location) (entries : Entries) (field : Field) : List Violation :=
  Shape.fieldViolations location entries [field]

namespace Field

variable {entries : Entries} {field : Field} {key : String} {v : Value}

theorem violations_of_missing (location : Location)
    (missing : entries.read? field.name field.wireName = none) :
    field.violations location entries =
      if field.optional then [] else [Problem.missing.violation (location ++ [.key field.wireName])]
    := by
  obtain ⟨name, wireName, optional, shape⟩ := field
  replace missing : entries.read? name wireName = none := missing
  simp only [violations, Shape.fieldViolations, missing, List.append_nil]
  rfl

theorem violations_of_unset (location : Location) (optional : field.optional = true)
    (found : entries.read? field.name field.wireName = some (key, .null)) :
    field.violations location entries = [] := by
  obtain ⟨name, wireName, optional', shape⟩ := field
  obtain rfl : optional' = true := optional
  replace found : entries.read? name wireName = some (key, .null) := found
  simp [violations, Shape.fieldViolations, found]

theorem violations_of_value (location : Location)
    (set : ¬ (field.optional = true ∧ v = .null))
    (found : entries.read? field.name field.wireName = some (key, v)) :
    field.violations location entries = field.shape.violations (location ++ [.key key]) v := by
  obtain ⟨name, wireName, optional', shape⟩ := field
  replace found : entries.read? name wireName = some (key, v) := found
  replace set : ¬ (optional' = true ∧ v = .null) := set
  simp only [violations, Shape.fieldViolations, found, List.append_nil]
  split
  · exact absurd ⟨rfl, rfl⟩ set
  · rfl

end Field

namespace Shape

theorem fieldViolations_eq_flatMap (location : Location) (entries : Entries)
    (fields : List Field) : fieldViolations location entries fields =
      fields.flatMap (Field.violations location entries) := by
  induction fields with
  | nil => rfl
  | cons field fields ih =>
      rw [List.flatMap_cons, ← ih]
      cases field
      simp [Field.violations, fieldViolations]

theorem violations_entries (location : Location) (entry : Shape) (entries : Entries) :
    (tableOf entry).violations location (.table entries) =
      entries.flatMap fun item => entry.violations (location ++ [.key item.1]) item.2 := by
  rw [violations]

theorem violations_items (location : Location) (item : Shape) (items : List Value) :
    (listOf item).violations location (.list items) =
      items.zipIdx.flatMap fun place => item.violations (location ++ [.index place.2]) place.1 := by
  rw [violations]

theorem violations_model (location : Location) (title : String) (summary : Option String)
    (fields : List Field) (entries : Entries) :
    (model title summary fields).violations location (.table entries) =
      fields.flatMap (Field.violations location entries) := by
  rw [violations, fieldViolations_eq_flatMap]

/-- The problems of a value in the place of a leaf do not depend on where the value is. -/
theorem Leaf.exists_problems {shape : Shape} (leaf : shape.Leaf) (v : Value) :
    ∃ problems : List (Location × Problem), ∀ location, shape.violations location v =
      problems.map fun problem => problem.2.violation (location ++ problem.1) := by
  have one (o : Option Problem) (location : Location) :
      (o.map (·.violation location)).toList =
        (o.toList.map fun p => (([] : Location), p)).map
          fun problem => problem.2.violation (location ++ problem.1) := by
    cases o <;> simp
  cases leaf with
  | text required =>
      cases v with
      | text s =>
          by_cases empty : required = true ∧ s = ""
          · exact ⟨[([], .emptyText)], fun location => by simp [violations, empty]⟩
          · exact ⟨[], fun location => by simp [violations, empty]⟩
      | _ => exact ⟨[([], .notText)], fun location => by simp [violations]⟩
  | timestamp =>
      cases v with
      | text s => exact ⟨_, fun location => by rw [violations, one]⟩
      | _ => exact ⟨[([], .notText)], fun location => by simp [violations]⟩
  | choice name summary options =>
      cases v with
      | text s =>
          by_cases listed : s ∈ options
          · exact ⟨[], fun location => by simp [violations, listed]⟩
          · exact ⟨[([], .notChoice options)], fun location => by simp [violations, listed]⟩
      | _ => exact ⟨[([], .notChoice options)], fun location => by simp [violations]⟩
  | count => exact ⟨_, fun location => by rw [violations, one]⟩
  | number range =>
      refine ⟨(range.problems v).map fun problem => ([problem.1], problem.2), fun location => ?_⟩
      rw [violations, List.map_map]
      rfl
  | freeTable =>
      cases v with
      | table entries => exact ⟨[], fun location => by simp [violations]⟩
      | _ => exact ⟨[([], .notTable)], fun location => by simp [violations]⟩

/-! ## Violations of renamed values -/

@[simp]
theorem wireLocation_nil (shape : Shape) : shape.wireLocation [] = [] := by
  cases shape <;> rw [wireLocation] <;> simp

theorem Leaf.wireLocation_eq {shape : Shape} (leaf : shape.Leaf) (location : Location) :
    shape.wireLocation location = location := by
  cases leaf <;> rw [wireLocation] <;> simp

theorem wireLocationIn_cons (key : String) (rest : Location) (field : Field)
    (others : List Field) : wireLocationIn key rest (field :: others) =
      if field.Named key then .key field.wireName :: field.shape.wireLocation rest
      else wireLocationIn key rest others := by
  cases field
  rw [wireLocationIn]
  rfl

theorem wireLocationIn_of_named {fields : List Field} (apart : fields.Pairwise Field.Apart)
    {field : Field} (listed : field ∈ fields) {key : String} (named : field.Named key)
    (rest : Location) :
    wireLocationIn key rest fields = .key field.wireName :: field.shape.wireLocation rest := by
  induction apart with
  | nil => cases listed
  | @cons first others apart _ ih =>
      rcases List.mem_cons.mp listed with rfl | later
      · rw [wireLocationIn_cons, if_pos named]
      · rw [wireLocationIn_cons, if_neg ((apart field later).symm.not_named named), ih later]

/-- The same problem at the same place below either location, but for the names of fields. -/
structure SameViolation (shape : Shape) (location location' : Location) (x y : Violation) :
    Prop where
  steps : ∃ rest, x.location = location ++ rest ∧
    y.location = location' ++ shape.wireLocation rest
  message : x.message = y.message
  kind : x.kind = y.kind

section

variable {shape inner : Shape} {location location' : Location} {x y : Violation}

theorem SameViolation.here (shape : Shape) (problem : Problem) (location location' : Location) :
    shape.SameViolation location location' (problem.violation location)
      (problem.violation location') where
  steps := ⟨[], by simp [Problem.violation]⟩
  message := rfl
  kind := rfl

theorem SameViolation.inside {step step' : Step}
    (same : inner.SameViolation (location ++ [step]) (location' ++ [step']) x y)
    (renamed : ∀ rest, shape.wireLocation (step :: rest) = step' :: inner.wireLocation rest) :
    shape.SameViolation location location' x y where
  steps := by
    obtain ⟨rest, first, second⟩ := same.steps
    refine ⟨step :: rest, ?_, ?_⟩
    · rw [first, List.append_assoc, List.singleton_append]
    · rw [second, renamed, List.append_assoc, List.singleton_append]
  message := same.message
  kind := same.kind

end

/-- A field has the same violations in a renamed table. -/
theorem sameViolations_field {field : Field} {entries others : Entries} {shape : Shape}
    (found : others.read? field.name field.wireName = rekeyed? .wire entries field)
    (renamed : ∀ key, field.Named key → ∀ rest, shape.wireLocation (.key key :: rest) =
      .key field.wireName :: field.shape.wireLocation rest)
    (inside : ∀ location location' v, List.Forall₂ (field.shape.SameViolation location location')
      (field.shape.violations location v)
      (field.shape.violations location' (field.shape.rekey .wire v)))
    (location location' : Location) :
    List.Forall₂ (shape.SameViolation location location') (field.violations location entries)
      (field.violations location' others) := by
  rw [rekeyed?, Entries.fieldValue?] at found
  cases there : entries.read? field.name field.wireName with
  | none =>
      rw [there] at found
      rw [Field.violations_of_missing location there, Field.violations_of_missing location' found]
      split
      · exact .nil
      · have missing := SameViolation.here field.shape .missing
          (location ++ [.key field.wireName]) (location' ++ [.key field.wireName])
        exact .cons (missing.inside (renamed field.wireName (.inr rfl))) .nil
  | some entry =>
      obtain ⟨key, v⟩ := entry
      rw [there] at found
      by_cases unset : field.optional = true ∧ v = .null
      · have null := (field.shape.rekey_eq_null_iff .wire v).mpr unset.2
        simp only [Option.map_some, null] at found
        rw [Field.violations_of_unset location unset.1 (unset.2 ▸ there),
          Field.violations_of_unset location' unset.1 found]
        exact .nil
      · have set : ¬ (field.optional = true ∧ field.shape.rekey .wire v = .null) := by
          rwa [rekey_eq_null_iff]
        rw [Field.violations_of_value location unset there,
          Field.violations_of_value location' set found]
        exact (inside _ _ v).imp fun _ _ same =>
          same.inside (renamed key (Entries.named_of_read? there))

theorem sameViolations_rekey {shape : Shape} (wellNamed : shape.WellNamed)
    (location location' : Location) (v : Value) :
    List.Forall₂ (shape.SameViolation location location') (shape.violations location v)
      (shape.violations location' (shape.rekey .wire v)) := by
  induction wellNamed generalizing location location' v with
  | leaf isLeaf =>
      obtain ⟨problems, same⟩ := isLeaf.exists_problems v
      rw [isLeaf.rekey_eq, same, same, List.forall₂_map_left_iff, List.forall₂_map_right_iff,
        List.forall₂_same]
      intro problem _
      exact ⟨⟨problem.1, rfl, by rw [isLeaf.wireLocation_eq]; rfl⟩, rfl, rfl⟩
  | @tableOf entry _ ih =>
      cases v with
      | table entries =>
          rw [rekey_entries, violations_entries, violations_entries]
          apply forall₂_flatMap
          rw [List.forall₂_map_right_iff, List.forall₂_same]
          intro item _
          exact (ih _ _ item.2).imp fun _ _ same => same.inside fun rest => by rw [wireLocation]
      | _ => simp [violations, rekey, SameViolation.here]
  | @listOf item _ ih =>
      cases v with
      | list items =>
          rw [rekey_list, violations_items, violations_items, List.zipIdx_map]
          apply forall₂_flatMap
          rw [List.forall₂_map_right_iff, List.forall₂_same]
          intro item _
          exact (ih _ _ item.1).imp fun _ _ same =>
            same.inside fun rest => by rw [wireLocation]; rfl
      | _ => simp [violations, rekey, SameViolation.here]
  | @model title summary fields apart _ ih =>
      cases v with
      | table entries =>
          rw [rekey_model, violations_model, violations_model]
          apply forall₂_flatMap
          rw [List.forall₂_same]
          intro field listed
          refine sameViolations_field (read?_rekeyed apart listed .wire entries) ?_
            (ih field listed) location location'
          intro key named rest
          rw [wireLocation, wireLocationIn_of_named apart listed named]
      | _ => simp [violations, rekey, SameViolation.here]

/-- The violations of a value are those of the value under wire names, but for these names. -/
theorem map_wired_violations {shape : Shape} (wellNamed : shape.WellNamed) (v : Value) :
    (shape.violations [] v).map shape.wired = shape.violations [] (shape.rekey .wire v) := by
  rw [← List.forall₂_eq_eq_eq, List.forall₂_map_left_iff]
  refine (sameViolations_rekey wellNamed [] [] v).imp fun x y same => ?_
  obtain ⟨rest, first, second⟩ := same.steps
  cases y with
  | mk location message kind =>
      rw [wired, same.message, same.kind, first]
      rw [List.nil_append] at second ⊢
      exact congrArg (Violation.mk · message kind) second.symm

/-! ## Violations of reordered values -/

theorem perm_violations_field {field : Field} {entries others : Entries}
    (same : Record.SameValues entries others) (distinct : (Value.table entries).KeysDistinct)
    (inside : ∀ location {v w}, v.KeysDistinct → Reordered v w →
      (field.shape.violations location v).Perm (field.shape.violations location w))
    (location : Location) :
    (field.violations location entries).Perm (field.violations location others) := by
  cases there : entries.read? field.name field.wireName with
  | none =>
      have there' := Record.read?_none_of_same same there
      rw [Field.violations_of_missing location there, Field.violations_of_missing location there']
  | some entry =>
      obtain ⟨key, v⟩ := entry
      obtain ⟨⟨key', w⟩, there', sameKey, value⟩ := Record.read?_of_same same there
      obtain rfl : key = key' := sameKey
      by_cases unset : field.optional = true ∧ v = .null
      · have null : w = .null := value.eq_null_iff.mp unset.2
        rw [Field.violations_of_unset location unset.1 (unset.2 ▸ there),
          Field.violations_of_unset location unset.1 (null ▸ there')]
      · have set : ¬ (field.optional = true ∧ w = .null) := by
          rwa [← value.eq_null_iff]
        rw [Field.violations_of_value location unset there,
          Field.violations_of_value location set there']
        exact inside _ ((Record.valuesDistinct distinct).read? there) value

/-- Reordering the keys of a value reorders its violations. -/
theorem perm_violations {shape : Shape} (wellNamed : shape.WellNamed) (location : Location)
    {v w : Value} (distinct : v.KeysDistinct) (reordered : Reordered v w) :
    (shape.violations location v).Perm (shape.violations location w) := by
  induction wellNamed generalizing location v w with
  | leaf isLeaf =>
      rcases reordered.eq_or_collections distinct with rfl | ⟨items, others, rfl, rfl⟩ |
        ⟨entries, others, rfl, rfl⟩
      · rfl
      · cases isLeaf <;> simp [violations, Range.problems, Range.integerProblem?,
          Range.realProblem?]
      · cases isLeaf <;> simp [violations, Range.problems, Range.integerProblem?,
          Range.realProblem?]
  | @tableOf entry _ ih =>
      rcases reordered.eq_or_collections distinct with rfl | ⟨items, others, rfl, rfl⟩ |
        ⟨entries, others, rfl, rfl⟩
      · rfl
      · simp [violations]
      · obtain ⟨middle, paired, perm⟩ := reordered.exists_entries distinct
        rw [violations_entries, violations_entries]
        have inside := (List.forall₂_and_left ..).mpr
          ⟨(Value.keysDistinct_table_iff.mp distinct).2, paired⟩
        refine (flatMap_perm_of_forall₂ inside fun item other both => ?_).trans
          (perm.flatMap_right _)
        rw [both.2.1]
        exact ih _ both.1 both.2.2
  | @listOf item _ ih =>
      rcases reordered.eq_or_collections distinct with rfl | ⟨items, others, rfl, rfl⟩ |
        ⟨entries, others, rfl, rfl⟩
      · rfl
      · obtain ⟨others', same, paired⟩ := reordered.exists_list distinct
        obtain rfl := Value.list.inj same
        rw [violations_items, violations_items]
        have inside := (List.forall₂_and_left ..).mpr
          ⟨Value.keysDistinct_list_iff.mp distinct, paired⟩
        refine flatMap_perm_of_forall₂ (forall₂_zipIdx inside 0) fun item other both => ?_
        rw [both.2]
        exact ih _ both.1.1 both.1.2
      · simp [violations]
  | @model title summary fields _ _ ih =>
      rcases reordered.eq_or_collections distinct with rfl | ⟨items, others, rfl, rfl⟩ |
        ⟨entries, others, rfl, rfl⟩
      · rfl
      · simp [violations]
      · rw [violations_model, violations_model]
        refine List.Perm.flatMap_left fields fun field listed => ?_
        exact perm_violations_field (reordered.lookup distinct) distinct (ih field listed) location

end Shape

end Workflow
