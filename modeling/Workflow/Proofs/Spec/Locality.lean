import Workflow.Proofs.Spec.Validated

/-!
How far a violation reaches. A place of a document is reached through the fields of models, the
items of lists and the entries of tables, and what is expected there hangs on the way alone. Main
statement: where the value in a place is replaced, the violations outside of the place stay as they
are, and those inside are the new value's.
-/

namespace Workflow

/-! ## Violations and locations -/

namespace Violation

variable {location steps : Location} {step : Step} {x : Violation}

/-- The violation is one of what stands at the location or further inside. -/
def Inside (x : Violation) (location : Location) : Prop := location <+: x.location

instance (x : Violation) (location : Location) : Decidable (x.Inside location) :=
  inferInstanceAs (Decidable (location <+: x.location))

theorem inside_within (x : Violation) (location : Location) : (x.within location).Inside location :=
  List.prefix_append location x.location

theorem inside_within_cons : (x.within [step]).Inside (step :: steps) ↔ x.Inside steps := by
  rw [Inside, within, List.singleton_append, List.cons_prefix_cons, and_iff_right rfl]
  rfl

theorem map_within_within (location other : Location) (xs : List Violation) :
    (xs.map (within other)).map (within location) = xs.map (within (location ++ other)) := by
  rw [List.map_map]
  apply List.map_congr_left
  intro x _
  simp [within]

end Violation

open Violation (within map_within_within inside_within inside_within_cons)

/-- What is wrong with a field further down is the same there, below a longer location. -/
theorem Field.violations_append {field : Field} (entries : Entries)
    (inside : ∀ location other v, field.shape.violations (location ++ other) v =
      (field.shape.violations other v).map (within location)) (location other : Location) :
    field.violations (location ++ other) entries =
      (field.violations other entries).map (within location) := by
  cases there : entries.read? field.name field.wireName with
  | none =>
      rw [violations_of_missing _ there, violations_of_missing _ there]
      split
      · rfl
      · simp [Problem.violation, within]
  | some entry =>
      obtain ⟨key, v⟩ := entry
      by_cases unset : field.optional = true ∧ v = .null
      · rw [violations_of_unset _ unset.1 (unset.2 ▸ there),
          violations_of_unset _ unset.1 (unset.2 ▸ there), List.map_nil]
      · rw [violations_of_value _ unset there, violations_of_value _ unset there,
          List.append_assoc, inside]

namespace Shape

/-- The violations of a value do not depend on where the value is, but for their locations. -/
theorem violations_append {shape : Shape} (wellNamed : shape.WellNamed) (location other : Location)
    (v : Value) : shape.violations (location ++ other) v =
      (shape.violations other v).map (within location) := by
  induction wellNamed generalizing location other v with
  | leaf isLeaf =>
      obtain ⟨problems, same⟩ := isLeaf.exists_problems v
      rw [same, same, List.map_map]
      apply List.map_congr_left
      intro problem _
      simp [Problem.violation, within]
  | @tableOf entry _ ih =>
      cases v with
      | table entries =>
          simp only [violations_entries, List.map_flatMap, List.append_assoc, ih]
      | _ => simp [violations, Problem.violation, within]
  | @listOf item _ ih =>
      cases v with
      | list items =>
          simp only [violations_items, List.map_flatMap, List.append_assoc, ih]
      | _ => simp [violations, Problem.violation, within]
  | @model title summary fields _ _ ih =>
      cases v with
      | table entries =>
          rw [violations_model, violations_model, List.map_flatMap]
          apply List.flatMap_congr
          intro field listed
          exact Field.violations_append entries (ih field listed) location other
      | _ => simp [violations, Problem.violation, within]

theorem violations_eq_map {shape : Shape} (wellNamed : shape.WellNamed) (location : Location)
    (v : Value) : shape.violations location v = (shape.violations [] v).map (within location) := by
  rw [← violations_append wellNamed, List.append_nil]

end Shape

/-! ## Places -/

/-- What is expected in a place: a value of the shape, or `null` as well where it is optional. -/
structure Slot where
  optional : Bool
  shape : Shape

def Field.slot (field : Field) : Slot := ⟨field.optional, field.shape⟩

namespace Slot

variable {slot inner : Slot} {v w : Value} {steps : Location}

/-- What is wrong with a value in the place. -/
def violations (location : Location) (slot : Slot) (v : Value) : List Violation :=
  match slot.optional, v with
  | true, .null => []
  | _, v => slot.shape.violations location v

theorem violations_of_ne_null (location : Location) (slot : Slot) (set : v ≠ .null) :
    slot.violations location v = slot.shape.violations location v := by
  unfold violations
  split
  next null => exact absurd rfl set
  next => rfl

theorem violations_eq_map (wellNamed : slot.shape.WellNamed) (location : Location) (v : Value) :
    slot.violations location v = (slot.violations [] v).map (within location) := by
  unfold violations
  split
  next => rfl
  next => exact Shape.violations_eq_map wellNamed location _

/-- The steps lead from a value into a place where `inner` is expected and `w` stands. A field of a
model is reached through the key that the model reads. -/
inductive Reaches : Slot → Value → Location → Slot → Value → Prop
  | here (slot : Slot) (v : Value) : Reaches slot v [] slot v
  | field {optional : Bool} {title : String} {summary : Option String} {fields : List Field}
      {field : Field} {entries : Entries} {key : String} {v w : Value} {steps : Location}
      {inner : Slot} (listed : field ∈ fields)
      (read : entries.read? field.name field.wireName = some (key, v))
      (rest : Reaches field.slot v steps inner w) :
      Reaches ⟨optional, .model title summary fields⟩ (.table entries) (.key key :: steps) inner w
  | item {optional : Bool} {item : Shape} {items : List Value} {i : Nat} {v w : Value}
      {steps : Location} {inner : Slot} (listed : items[i]? = some v)
      (rest : Reaches ⟨false, item⟩ v steps inner w) :
      Reaches ⟨optional, .listOf item⟩ (.list items) (.index i :: steps) inner w
  | entry {optional : Bool} {entry : Shape} {entries : Entries} {key : String} {v w : Value}
      {steps : Location} {inner : Slot} (listed : (key, v) ∈ entries)
      (rest : Reaches ⟨false, entry⟩ v steps inner w) :
      Reaches ⟨optional, .tableOf entry⟩ (.table entries) (.key key :: steps) inner w

end Slot

theorem Field.violations_of_read? {field : Field} {entries : Entries} {key : String} {v : Value}
    (location : Location) (found : entries.read? field.name field.wireName = some (key, v)) :
    field.violations location entries = field.slot.violations (location ++ [.key key]) v := by
  unfold Slot.violations
  split
  next optional => exact violations_of_unset location optional found
  next set => exact violations_of_value location (fun unset => set unset.1 unset.2) found

/-! ## Replaced values -/

/-- The entries with a change to what stands under a key. -/
def Entries.alter (entries : Entries) (key : String) (change : Value → Value) : Entries :=
  entries.map fun entry => if entry.1 = key then (key, change entry.2) else entry

/-- The value with another one put in the place at the end of some steps. -/
def Value.replaced : Value → Location → Value → Value
  | _, [], new => new
  | .table entries, .key key :: steps, new => .table (Entries.alter entries key (replaced · steps new))
  | .list items, .index i :: steps, new => .list (items.modify i.toNat (replaced · steps new))
  | v, _, _ => v

@[simp]
theorem Value.replaced_nil (v new : Value) : v.replaced [] new = new := by
  cases v <;> rfl

namespace Entries

variable {entries before after : Entries} {key other : String} {v : Value} {field : Field}
  {change : Value → Value}

theorem alter_of_notMem (fresh : key ∉ entries.map Prod.fst) (change : Value → Value) :
    entries.alter key change = entries := by
  rw [alter, List.map_congr_left (g := id), List.map_id]
  intro entry listed
  have different : entry.1 ≠ key := fun same => fresh (same ▸ List.mem_map_of_mem listed)
  rw [if_neg different, id]

theorem alter_middle (distinct : ((before ++ (key, v) :: after).map Prod.fst).Nodup)
    (change : Value → Value) :
    alter (before ++ (key, v) :: after) key change = before ++ (key, change v) :: after := by
  rw [List.map_append, List.map_cons, List.nodup_middle, List.nodup_cons, List.mem_append,
    not_or] at distinct
  have first := alter_of_notMem distinct.1.1 change
  have last := alter_of_notMem distinct.1.2 change
  rw [alter] at first last ⊢
  rw [List.map_append, List.map_cons, first, last, if_pos rfl]

theorem lookup_alter (entries : Entries) (key other : String) (change : Value → Value) :
    (entries.alter key change).lookup other =
      (entries.lookup other).map (if other = key then change else id) := by
  induction entries with
  | nil => rfl
  | cons entry entries ih =>
      obtain ⟨own, v⟩ := entry
      have rest : alter ((own, v) :: entries) key change =
          (own, (if own = key then change else id) v) :: alter entries key change := by
        rw [alter, List.map_cons]
        split
        next same => exact congrArg (fun name => (name, change v) :: alter entries key change) same.symm
        next => rfl
      rw [rest, List.lookup_cons, List.lookup_cons]
      by_cases same : other = own
      · rw [same, beq_self_eq_true]
        rfl
      · rw [beq_false_of_ne same, ih]

theorem read?_alter_self {name wireName : String}
    (found : entries.read? name wireName = some (key, v)) (change : Value → Value) :
    (entries.alter key change).read? name wireName = some (key, change v) := by
  rw [read?] at found ⊢
  rw [lookup_alter, lookup_alter]
  cases wire : entries.lookup wireName with
  | some u =>
      rw [wire] at found
      obtain ⟨rfl, rfl⟩ := Prod.mk.inj (Option.some_inj.mp found)
      simp
  | none =>
      rw [wire] at found
      obtain ⟨u, own, same⟩ := Option.map_eq_some_iff.mp found
      obtain ⟨rfl, rfl⟩ := Prod.mk.inj same
      simp [own]

theorem read?_alter_of_not_named (other : ¬ field.Named key) (change : Value → Value) :
    (entries.alter key change).read? field.name field.wireName =
      entries.read? field.name field.wireName := by
  have names := not_or.mp other
  rw [read?, read?, lookup_alter, lookup_alter, if_neg (Ne.symm names.1), if_neg (Ne.symm names.2),
    Option.map_id]
  rfl

theorem alter_self (distinct : (entries.map Prod.fst).Nodup) (listed : (key, v) ∈ entries)
    (same : change v = v) : entries.alter key change = entries := by
  obtain ⟨before, after, rfl⟩ := List.append_of_mem listed
  rw [alter_middle distinct, same]

theorem mem_of_read? {name wireName : String}
    (found : entries.read? name wireName = some (key, v)) : (key, v) ∈ entries := by
  rw [read?] at found
  split at found
  next there =>
    obtain ⟨rfl, rfl⟩ := Prod.mk.inj (Option.some_inj.mp found)
    exact mem_of_lookup there
  next =>
    obtain ⟨u, there, same⟩ := Option.map_eq_some_iff.mp found
    obtain ⟨rfl, rfl⟩ := Prod.mk.inj same
    exact mem_of_lookup there

end Entries

theorem Field.violations_congr {field : Field} {entries others : Entries} (location : Location)
    (same : entries.read? field.name field.wireName = others.read? field.name field.wireName) :
    field.violations location entries = field.violations location others := by
  obtain ⟨name, wireName, optional, shape⟩ := field
  replace same : entries.read? name wireName = others.read? name wireName := same
  rw [violations, violations, Shape.fieldViolations, Shape.fieldViolations, same]
  rfl

/-! ## Items in the middle of a list -/

section

variable {α : Type} {items before after : List α} {a : α} {i : Nat}

theorem exists_middle_of_getElem? (found : items[i]? = some a) :
    ∃ before after, items = before ++ a :: after ∧ before.length = i := by
  obtain ⟨short, rfl⟩ := List.getElem?_eq_some_iff.mp found
  refine ⟨items.take i, items.drop (i + 1), ?_, List.length_take_of_le short.le⟩
  rw [← List.drop_eq_getElem_cons short, List.take_append_drop]

theorem modify_middle (before after : List α) (a : α) (change : α → α) :
    (before ++ a :: after).modify before.length change = before ++ change a :: after := by
  induction before with
  | nil => rfl
  | cons first before ih => exact congrArg (first :: ·) ih

theorem mem_middle_of_mem {b : α} (listed : b ∈ before ++ after) : b ∈ before ++ a :: after :=
  List.perm_middle.mem_iff.mpr (List.mem_cons_of_mem a listed)

end

/-! ## Violations around a place -/

/-- Whatever is put into the place at the end of the steps, the violations are those of the value
there, between others that are not inside of the place. -/
def Slot.Surrounded (inner : Slot) (steps : Location) (violations : Value → List Violation) :
    Prop :=
  ∃ before after, (∀ x ∈ before ++ after, ¬ x.Inside steps) ∧ ∀ new,
    violations new = before ++ (inner.violations [] new).map (within steps) ++ after

theorem Slot.Surrounded.outwards {inner : Slot} {steps : Location} {step : Step}
    {violations outer : Value → List Violation} (surrounded : inner.Surrounded steps violations)
    (before after : List Violation) (beside : ∀ x ∈ before ++ after, ¬ x.Inside [step])
    (same : ∀ new, outer new = before ++ (violations new).map (within [step]) ++ after) :
    inner.Surrounded (step :: steps) outer := by
  obtain ⟨first, last, apart, between⟩ := surrounded
  refine ⟨before ++ first.map (within [step]), last.map (within [step]) ++ after, ?_, ?_⟩
  · intro x listed inside
    have under : x.Inside [step] := List.IsPrefix.trans ⟨steps, rfl⟩ inside
    have notBefore : x ∉ before := fun member => beside x (List.mem_append_left _ member) under
    have notAfter : x ∉ after := fun member => beside x (List.mem_append_right _ member) under
    have moved : x ∈ (first ++ last).map (within [step]) := by
      simpa [notBefore, notAfter] using listed
    obtain ⟨y, among, rfl⟩ := List.mem_map.mp moved
    exact apart y among (inside_within_cons.mp inside)
  · intro new
    rw [same, between, List.map_append, List.map_append, map_within_within]
    simp

/-! ## What is beside a place -/

theorem Shape.not_inside_of_mem {shape : Shape} (wellNamed : shape.WellNamed) {step other : Step}
    (different : other ≠ step) {v : Value} {x : Violation} (member : x ∈ shape.violations [other] v) :
    ¬ x.Inside [step] := by
  rw [violations_eq_map wellNamed] at member
  obtain ⟨y, -, rfl⟩ := List.mem_map.mp member
  intro inside
  exact different (List.cons_prefix_cons.mp inside).1.symm

theorem Field.not_inside_of_mem {field : Field} (wellNamed : field.shape.WellNamed) {key : String}
    (unnamed : ¬ field.Named key) {entries : Entries} {x : Violation}
    (member : x ∈ field.violations [] entries) : ¬ x.Inside [.key key] := by
  cases there : entries.read? field.name field.wireName with
  | none =>
      rw [violations_of_missing [] there] at member
      split at member
      next => cases member
      next =>
        obtain rfl := List.mem_singleton.mp member
        intro inside
        have same := Step.key.inj (List.cons_prefix_cons.mp inside).1
        exact unnamed (.inr same)
  | some entry =>
      obtain ⟨other, v⟩ := entry
      have named := Entries.named_of_read? there
      rw [violations_of_read? [] there, Slot.violations_eq_map wellNamed] at member
      obtain ⟨y, -, rfl⟩ := List.mem_map.mp member
      intro inside
      have same := Step.key.inj (List.cons_prefix_cons.mp inside).1
      exact unnamed (same ▸ named)

theorem Field.beside {before after : List Field} {field : Field}
    (apart : (before ++ field :: after).Pairwise Apart) {key : String} (named : field.Named key) :
    ∀ other ∈ before ++ after, ¬ other.Named key := by
  rw [List.pairwise_middle Apart.symm, List.pairwise_cons] at apart
  exact fun other listed => (apart.1 other listed).not_named named

namespace Slot.Surrounded

variable {inner : Slot} {optional : Bool} {steps : Location} {v : Value} {key : String}
  {entries : Entries}

theorem field {name : String} {summary : Option String} {fields : List Field} {field : Field}
    (surrounded : inner.Surrounded steps fun new => field.slot.violations [] (v.replaced steps new))
    (wellNamed : (Shape.model name summary fields).WellNamed) (listed : field ∈ fields)
    (read : entries.read? field.name field.wireName = some (key, v)) :
    inner.Surrounded (.key key :: steps) fun new =>
      Slot.violations [] ⟨optional, .model name summary fields⟩
        ((Value.table entries).replaced (.key key :: steps) new) := by
  obtain ⟨apart, named⟩ := wellNamed.fields
  obtain ⟨before, after, rfl⟩ := List.append_of_mem listed
  have beside := Field.beside apart (Entries.named_of_read? read)
  refine surrounded.outwards (before.flatMap (Field.violations [] entries))
    (after.flatMap (Field.violations [] entries)) ?_ fun new => ?_
  · rw [← List.flatMap_append]
    intro x member
    obtain ⟨other, among, member⟩ := List.mem_flatMap.mp member
    have wellNamed' := named other (mem_middle_of_mem among)
    exact Field.not_inside_of_mem wellNamed' (beside other among) member
  · have same (other : Field) (among : other ∈ before ++ after) :
        other.violations [] (Entries.alter entries key (·.replaced steps new)) =
          other.violations [] entries :=
      Field.violations_congr [] (Entries.read?_alter_of_not_named (beside other among) _)
    have first := List.flatMap_congr fun other among =>
      same other (List.mem_append_left after among)
    have last := List.flatMap_congr fun other among =>
      same other (List.mem_append_right before among)
    rw [Value.replaced, violations_of_ne_null [] _ (by simp), Shape.violations_model,
      List.flatMap_append, List.flatMap_cons, first, last,
      field.violations_of_read? [] (Entries.read?_alter_self read _), List.nil_append,
      violations_eq_map (named field listed), List.append_assoc]

theorem item {item : Shape} {before after : List Value}
    (surrounded : inner.Surrounded steps fun new =>
      Slot.violations [] ⟨false, item⟩ (v.replaced steps new))
    (wellNamed : item.WellNamed) :
    inner.Surrounded (.index before.length :: steps) fun new =>
      Slot.violations [] ⟨optional, .listOf item⟩
        ((Value.list (before ++ v :: after)).replaced (.index before.length :: steps) new) := by
  let below (place : Value × Nat) := item.violations [.index place.2] place.1
  refine surrounded.outwards (before.zipIdx.flatMap below)
    ((after.zipIdx (before.length + 1)).flatMap below) ?_ fun new => ?_
  · rw [← List.flatMap_append]
    intro x member
    obtain ⟨place, among, member⟩ := List.mem_flatMap.mp member
    refine Shape.not_inside_of_mem wellNamed ?_ member
    have other : place.2 ≠ before.length := by
      rcases List.mem_append.mp among with first | last
      · have bound := List.snd_lt_of_mem_zipIdx first
        omega
      · have bound := List.le_snd_of_mem_zipIdx last
        omega
    intro same
    exact other (Int.ofNat.inj (Step.index.inj same))
  · rw [Value.replaced, violations_of_ne_null [] _ (by simp), Shape.violations_items,
      Int.toNat_natCast, modify_middle, List.zipIdx_append, List.zipIdx_cons, List.flatMap_append,
      List.flatMap_cons, ← violations_eq_map wellNamed, List.append_assoc, Nat.zero_add]
    rfl

theorem entry {entry : Shape}
    (surrounded : inner.Surrounded steps fun new =>
      Slot.violations [] ⟨false, entry⟩ (v.replaced steps new))
    (wellNamed : entry.WellNamed) (keys : (entries.map Prod.fst).Nodup)
    (listed : (key, v) ∈ entries) :
    inner.Surrounded (.key key :: steps) fun new =>
      Slot.violations [] ⟨optional, .tableOf entry⟩
        ((Value.table entries).replaced (.key key :: steps) new) := by
  obtain ⟨before, after, rfl⟩ := List.append_of_mem listed
  have others : key ∉ (before ++ after).map Prod.fst := by
    have apart := keys
    rw [List.map_append, List.map_cons, List.nodup_middle, List.nodup_cons] at apart
    rw [List.map_append]
    exact apart.1
  let below (other : String × Value) := entry.violations [.key other.1] other.2
  refine surrounded.outwards (before.flatMap below) (after.flatMap below) ?_ fun new => ?_
  · rw [← List.flatMap_append]
    intro x member
    obtain ⟨other, among, member⟩ := List.mem_flatMap.mp member
    refine Shape.not_inside_of_mem wellNamed ?_ member
    intro same
    exact others (Step.key.inj same ▸ List.mem_map_of_mem among)
  · rw [Value.replaced, violations_of_ne_null [] _ (by simp), Shape.violations_entries,
      Entries.alter_middle keys, List.flatMap_append, List.flatMap_cons,
      ← violations_eq_map wellNamed, List.append_assoc]
    rfl

end Slot.Surrounded

namespace Slot.Reaches

variable {slot inner : Slot} {v w : Value} {steps : Location}

/-- By induction on the way: at each step the place lies inside of one field, item or entry, and the
violations of those beside it have another first step. -/
theorem surrounded (reaches : slot.Reaches v steps inner w) (wellNamed : slot.shape.WellNamed)
    (distinct : v.KeysDistinct) :
    inner.Surrounded steps fun new => slot.violations [] (v.replaced steps new) := by
  induction reaches with
  | here slot v =>
      refine ⟨[], [], nofun, fun new => ?_⟩
      dsimp only
      rw [Value.replaced_nil, List.nil_append, List.append_nil]
      exact violations_eq_map wellNamed [] new
  | field listed read rest ih =>
      have inside := (Record.valuesDistinct distinct).read? read
      exact (ih (wellNamed.fields.2 _ listed) inside).field wellNamed listed read
  | item listed rest ih =>
      obtain ⟨before, after, rfl, rfl⟩ := exists_middle_of_getElem? listed
      have inside := distinct.item (List.mem_append_right before List.mem_cons_self)
      exact (ih wellNamed.item inside).item wellNamed.item
  | entry listed rest ih =>
      have keys := (Value.keysDistinct_table_iff.mp distinct).1
      exact (ih wellNamed.entry (distinct.entry listed)).entry wellNamed.entry keys listed

/-- Replacing what stands in a place by itself changes nothing. -/
theorem replaced_self (reaches : slot.Reaches v steps inner w) (distinct : v.KeysDistinct) :
    v.replaced steps w = v := by
  induction reaches with
  | here slot v => exact Value.replaced_nil v v
  | @field optional title summary fields field entries key v w steps inner listed read rest ih =>
      have same := ih ((Record.valuesDistinct distinct).read? read)
      rw [Value.replaced, Entries.alter_self (Value.keysDistinct_table_iff.mp distinct).1
        (Entries.mem_of_read? read) same]
  | @item optional item items i v w steps inner listed rest ih =>
      obtain ⟨before, after, rfl, rfl⟩ := exists_middle_of_getElem? listed
      have same := ih (distinct.item (List.mem_append_right before List.mem_cons_self))
      rw [Value.replaced, Int.toNat_natCast, modify_middle, same]
  | @entry optional entry entries key v w steps inner listed rest ih =>
      rw [Value.replaced, Entries.alter_self (Value.keysDistinct_table_iff.mp distinct).1 listed
        (ih (distinct.entry listed))]

end Slot.Reaches

theorem filter_of_inside {steps : Location} {violations : List Violation}
    (inside : ∀ x ∈ violations, x.Inside steps) :
    violations.filter (¬ ·.Inside steps) = [] ∧
      violations.filter (·.Inside steps) = violations := by
  constructor
  · exact List.filter_eq_nil_iff.mpr fun x listed => by simpa using inside x listed
  · exact List.filter_eq_self.mpr fun x listed => decide_eq_true (inside x listed)

theorem filter_of_outside {steps : Location} {violations : List Violation}
    (outside : ∀ x ∈ violations, ¬ x.Inside steps) :
    violations.filter (¬ ·.Inside steps) = violations ∧
      violations.filter (·.Inside steps) = [] := by
  constructor
  · exact List.filter_eq_self.mpr fun x listed => decide_eq_true (outside x listed)
  · exact List.filter_eq_nil_iff.mpr fun x listed => by simpa using outside x listed

theorem Slot.Surrounded.filter_eq {inner : Slot} {steps : Location}
    {violations : Value → List Violation} (surrounded : inner.Surrounded steps violations) :
    ∃ others, ∀ new, (violations new).filter (¬ ·.Inside steps) = others ∧
      (violations new).filter (·.Inside steps) = (inner.violations [] new).map (within steps) := by
  obtain ⟨before, after, apart, between⟩ := surrounded
  obtain ⟨first, last⟩ := List.forall_mem_append.mp apart
  refine ⟨before ++ after, fun new => ?_⟩
  have inside : ∀ x ∈ (inner.violations [] new).map (within steps), x.Inside steps := by
    rw [List.forall_mem_map]
    exact fun x _ => x.inside_within steps
  obtain ⟨keptFirst, noneFirst⟩ := filter_of_outside first
  obtain ⟨keptLast, noneLast⟩ := filter_of_outside last
  obtain ⟨noneInside, keptInside⟩ := filter_of_inside inside
  rw [between]
  simp only [List.filter_append, keptFirst, noneFirst, keptLast, noneLast, noneInside, keptInside,
    List.append_nil, List.nil_append, true_and]

/-! ## Reported violations -/

namespace Project

/-- The violations that reading a document as a project reports. -/
def reported (document : Value) : List Violation :=
  match read document with
  | .ok _ => []
  | .error violations => violations

/-- What is expected of the whole document. -/
def slot : Slot := ⟨false, shape⟩

theorem reported_eq (document : Value) : reported document = slot.violations [] document := by
  have accepts := modelled.accepts [] document
  have whole : slot.violations [] document = shape.violations [] document := rfl
  rw [reported, read, readAs, whole]
  cases found : ofValue? document with
  | none => rfl
  | some p => exact (accepts.mp ⟨p, found⟩).symm

theorem exists_read_iff (document : Value) :
    (∃ p, read document = .ok p) ↔ reported document = [] := by
  simp only [read, readAs_eq_ok_iff, reported_eq]
  exact modelled.accepts [] document

/-- A document is a project exactly if no violation is reported. Where the value in some place of it
is replaced, the violations outside of the place are reported as before and in the same order, and
those inside are what is wrong with the new value for what is expected there. -/
theorem reported_replaced {document found : Value} {steps : Location} {inner : Slot}
    (distinct : document.KeysDistinct) (reaches : slot.Reaches document steps inner found) :
    (∀ v, (∃ p, read v = .ok p) ↔ reported v = []) ∧
      (reported document).filter (·.Inside steps) = (inner.violations [] found).map (within steps) ∧
      ∀ new,
        (reported (document.replaced steps new)).filter (¬ ·.Inside steps) =
          (reported document).filter (¬ ·.Inside steps) ∧
        (reported (document.replaced steps new)).filter (·.Inside steps) =
          (inner.violations [] new).map (within steps) := by
  obtain ⟨others, filtered⟩ := (reaches.surrounded modelled.wellNamed distinct).filter_eq
  have before := filtered found
  rw [reaches.replaced_self distinct] at before
  simp only [reported_eq]
  refine ⟨fun v => ?_, before.2, fun new => ⟨?_, (filtered new).2⟩⟩
  · rw [exists_read_iff, reported_eq]
  · rw [(filtered new).1, before.1]

/-- A document in which a credential of a tool is a number, and much is missing. -/
def looseDocument : Value :=
  .table [
    ("id", .text ""),
    ("orchestration", .table [
      ("agents", .list []),
      ("tools", .list [
        .null,
        .table [
          ("kind", .text "rest"),
          ("auth", .table [
            ("type", .text "magic"),
            ("credentials", .table [("user", .text "u"), ("token", .int 7)])])]]),
      ("start_node", .int 1)])]

/-- The way to the credential. -/
def credentialSteps : Location :=
  [.key "orchestration", .key "tools", .index 1, .key "auth", .key "credentials", .key "token"]

/-- With a text as the credential, its violation is gone and all others are reported as before. -/
theorem reported_replaced_credential :
    let repaired := looseDocument.replaced credentialSteps (.text "t")
    (reported looseDocument).filter (·.Inside credentialSteps) =
        [Problem.notText.violation credentialSteps] ∧
      (reported repaired).filter (·.Inside credentialSteps) = [] ∧
      (reported repaired).filter (¬ ·.Inside credentialSteps) =
        (reported looseDocument).filter (¬ ·.Inside credentialSteps) := by
  have distinct : looseDocument.KeysDistinct := by simp [looseDocument]
  have reaches : slot.Reaches looseDocument credentialSteps ⟨false, .text false⟩ (.int 7) := by
    refine .field (List.mem_of_getElem? (i := 4) rfl) rfl ?_
    refine .field (List.mem_of_getElem? (i := 3) rfl) rfl ?_
    refine .item rfl ?_
    refine .field (List.mem_of_getElem? (i := 4) rfl) rfl ?_
    refine .field (List.mem_of_getElem? (i := 1) rfl) rfl ?_
    exact .entry (by simp) (.here _ _)
  obtain ⟨-, before, changed⟩ := reported_replaced distinct reaches
  obtain ⟨outside, inside⟩ := changed (.text "t")
  exact ⟨before, inside, outside⟩

end Project

end Workflow
