import Workflow.Value.Basic
import Mathlib.Data.List.Nodup
import Mathlib.Data.List.Perm.Basic
import Mathlib.Data.List.Sort

/-!
Values up to the order of keys. Main statement: where no table has a key twice, the sorted form of a
value tells exactly which values it becomes by reordering the entries of its tables.
-/

namespace Workflow.Value

/-! ## Values and what they hold -/

/-- What holds of each value if it does of those right inside it. -/
theorem induct {motive : Value → Prop} (null : motive .null) (bool : ∀ b, motive (.bool b))
    (int : ∀ n, motive (.int n)) (real : ∀ x, motive (.real x)) (text : ∀ s, motive (.text s))
    (moment : ∀ m, motive (.moment m))
    (list : ∀ items, (∀ item ∈ items, motive item) → motive (.list items))
    (table : ∀ entries, (∀ entry ∈ entries, motive entry.2) → motive (.table entries)) :
    ∀ v, motive v
  | .null => null
  | .bool b => bool b
  | .int n => int n
  | .real x => real x
  | .text s => text s
  | .moment m => moment m
  | .list items =>
      list items fun item _ => induct null bool int real text moment list table item
  | .table entries =>
      table entries fun entry _ => induct null bool int real text moment list table entry.2
termination_by v => sizeOf v
decreasing_by
  · have inside := List.sizeOf_lt_of_mem ‹_›
    rw [Value.list.sizeOf_spec]
    omega
  · have inside := List.sizeOf_lt_of_mem ‹_›
    rw [Prod.mk.sizeOf_spec entry.1 entry.2] at inside
    rw [Value.table.sizeOf_spec]
    omega

theorem sortedItems_eq_map (items : List Value) : sortedItems items = items.map sorted := by
  induction items with
  | nil => rfl
  | cons item items ih => rw [sortedItems, ih, List.map_cons]

theorem sortedEntries_eq_map (entries : Entries) :
    sortedEntries entries = entries.map fun entry => (entry.1, entry.2.sorted) := by
  induction entries with
  | nil => rfl
  | cons entry entries ih => rw [sortedEntries, ih, List.map_cons]

theorem plainItems_eq_map (items : List Value) : plainItems items = items.map plain := by
  induction items with
  | nil => rfl
  | cons item items ih => rw [plainItems, ih, List.map_cons]

theorem plainEntries_eq_map (entries : Entries) :
    plainEntries entries = entries.map fun entry => (entry.1, entry.2.plain) := by
  induction entries with
  | nil => rfl
  | cons entry entries ih => rw [plainEntries, ih, List.map_cons]

theorem sortEntries_perm (entries : Entries) : (sortEntries entries).Perm entries :=
  List.mergeSort_perm entries _

theorem sortEntries_pairwise (entries : Entries) :
    (sortEntries entries).Pairwise fun entry other => entry.1 ≤ other.1 :=
  List.pairwise_mergeSort' (fun entry other => entry.1 ≤ other.1) entries

theorem sortEntries_of_pairwise {entries : Entries}
    (ascending : entries.Pairwise fun entry other => entry.1 ≤ other.1) :
    sortEntries entries = entries :=
  List.mergeSort_of_pairwise (ascending.imp decide_eq_true)

/-- Entries with different keys have one ascending order. -/
theorem sortEntries_eq_of_perm {entries others : Entries}
    (distinct : (entries.map Prod.fst).Nodup) (perm : entries.Perm others) :
    sortEntries entries = sortEntries others := by
  have sorted : (sortEntries entries).Perm (sortEntries others) := by
    calc
      (sortEntries entries).Perm entries := sortEntries_perm entries
      entries.Perm others := perm
      others.Perm (sortEntries others) := (sortEntries_perm others).symm
  apply sorted.eq_of_pairwise _ (sortEntries_pairwise entries) (sortEntries_pairwise others)
  intro a b aMember bMember first second
  have aListed := (sortEntries_perm entries).mem_iff.mp aMember
  have bListed := perm.mem_iff.mpr ((sortEntries_perm others).mem_iff.mp bMember)
  exact List.inj_on_of_nodup_map distinct aListed bListed (String.le_antisymm first second)

/-! ## Values without moments -/

/-- The value holds no date and no time. -/
inductive Momentless : Value → Prop
  | null : Momentless .null
  | bool (b : Bool) : Momentless (.bool b)
  | int (n : Int) : Momentless (.int n)
  | real (x : Binary64) : Momentless (.real x)
  | text (s : String) : Momentless (.text s)
  | list {items : List Value} (inside : ∀ item ∈ items, Momentless item) :
      Momentless (.list items)
  | table {entries : Entries} (inside : ∀ entry ∈ entries, Momentless entry.2) :
      Momentless (.table entries)

attribute [simp] Momentless.null Momentless.bool Momentless.int Momentless.real Momentless.text

@[simp]
theorem momentless_list_iff {items : List Value} :
    (list items).Momentless ↔ ∀ item ∈ items, item.Momentless := by
  refine ⟨?_, .list⟩
  intro momentless
  cases momentless with
  | list inside => exact inside

@[simp]
theorem momentless_table_iff {entries : Entries} :
    (table entries).Momentless ↔ ∀ entry ∈ entries, entry.2.Momentless := by
  refine ⟨?_, .table⟩
  intro momentless
  cases momentless with
  | table inside => exact inside

@[simp]
theorem momentless_plain (v : Value) : v.plain.Momentless := by
  induction v using induct with
  | null => exact .null
  | bool b => exact .bool b
  | int n => exact .int n
  | real x =>
      rw [plain]
      split
      · exact .real x
      · exact .null
  | text s => exact .text s
  | moment m => exact .text _
  | list items ih =>
      rw [plain, plainItems_eq_map, momentless_list_iff, List.forall_mem_map]
      exact ih
  | table entries ih =>
      rw [plain, plainEntries_eq_map, momentless_table_iff, List.forall_mem_map]
      exact ih

theorem Momentless.sorted {v : Value} (momentless : v.Momentless) : v.sorted.Momentless := by
  induction momentless with
  | null => exact .null
  | bool b => exact .bool b
  | int n => exact .int n
  | real x => exact .real x
  | text s => exact .text s
  | list _ ih =>
      rw [Value.sorted, sortedItems_eq_map, momentless_list_iff, List.forall_mem_map]
      exact ih
  | table _ ih =>
      rw [Value.sorted, sortedEntries_eq_map, momentless_table_iff]
      simp only [(sortEntries_perm _).mem_iff, List.forall_mem_map]
      exact ih

/-! ## Values without repeated keys -/

/-- No table in the value has a key twice. -/
inductive KeysDistinct : Value → Prop
  | null : KeysDistinct .null
  | bool (b : Bool) : KeysDistinct (.bool b)
  | int (n : Int) : KeysDistinct (.int n)
  | real (x : Binary64) : KeysDistinct (.real x)
  | text (s : String) : KeysDistinct (.text s)
  | moment (m : Moment) : KeysDistinct (.moment m)
  | list {items : List Value} (inside : ∀ item ∈ items, KeysDistinct item) :
      KeysDistinct (.list items)
  | table {entries : Entries} (distinct : (entries.map Prod.fst).Nodup)
      (inside : ∀ entry ∈ entries, KeysDistinct entry.2) : KeysDistinct (.table entries)

attribute [simp] KeysDistinct.null KeysDistinct.bool KeysDistinct.int KeysDistinct.real
  KeysDistinct.text KeysDistinct.moment

@[simp]
theorem keysDistinct_list_iff {items : List Value} :
    (list items).KeysDistinct ↔ ∀ item ∈ items, item.KeysDistinct := by
  refine ⟨?_, .list⟩
  intro distinct
  cases distinct with
  | list inside => exact inside

@[simp]
theorem keysDistinct_table_iff {entries : Entries} : (table entries).KeysDistinct ↔
    (entries.map Prod.fst).Nodup ∧ ∀ entry ∈ entries, entry.2.KeysDistinct := by
  constructor
  · intro distinct
    cases distinct with
    | table keys inside => exact ⟨keys, inside⟩
  · intro both
    exact .table both.1 both.2

theorem KeysDistinct.item {items : List Value} (distinct : (Value.list items).KeysDistinct)
    {item : Value} (listed : item ∈ items) : item.KeysDistinct :=
  keysDistinct_list_iff.mp distinct item listed

theorem KeysDistinct.entry {entries : Entries} (distinct : (Value.table entries).KeysDistinct)
    {entry : String × Value} (listed : entry ∈ entries) : entry.2.KeysDistinct :=
  (keysDistinct_table_iff.mp distinct).2 entry listed

theorem KeysDistinct.plain {v : Value} (distinct : v.KeysDistinct) : v.plain.KeysDistinct := by
  induction distinct with
  | null => exact .null
  | bool b => exact .bool b
  | int n => exact .int n
  | real x =>
      rw [Value.plain]
      split
      · exact .real x
      · exact .null
  | text s => exact .text s
  | moment m => exact .text _
  | list _ ih =>
      rw [Value.plain, plainItems_eq_map, keysDistinct_list_iff, List.forall_mem_map]
      exact ih
  | table keys _ ih =>
      rw [Value.plain, plainEntries_eq_map, keysDistinct_table_iff, List.forall_mem_map,
        List.map_map]
      exact ⟨keys, ih⟩

/-! ## Reordering -/

/-- Entries of tables, at any depth, stand in another order. -/
inductive Reordered : Value → Value → Prop
  | refl (v : Value) : Reordered v v
  | trans {u v w : Value} (first : Reordered u v) (second : Reordered v w) : Reordered u w
  | keys {entries others : Entries} (perm : entries.Perm others) :
      Reordered (.table entries) (.table others)
  | item (before after : List Value) {v w : Value} (inner : Reordered v w) :
      Reordered (.list (before ++ v :: after)) (.list (before ++ w :: after))
  | entry (before after : Entries) (key : String) {v w : Value} (inner : Reordered v w) :
      Reordered (.table (before ++ (key, v) :: after)) (.table (before ++ (key, w) :: after))

namespace Reordered

theorem symm {v w : Value} (reordered : Reordered v w) : Reordered w v := by
  induction reordered with
  | refl v => exact .refl v
  | trans _ _ first second => exact second.trans first
  | keys perm => exact .keys perm.symm
  | item before after _ ih => exact .item before after ih
  | entry before after key _ ih => exact .entry before after key ih

theorem list_map {change : Value → Value} {items : List Value}
    (inside : ∀ item ∈ items, Reordered item (change item)) (before : List Value) :
    Reordered (.list (before ++ items)) (.list (before ++ items.map change)) := by
  induction items generalizing before with
  | nil => exact .refl _
  | cons item items ih =>
      have first := Reordered.item before items (inside item List.mem_cons_self)
      have later := ih (fun other member => inside other (List.mem_cons_of_mem item member))
        (before ++ [change item])
      rw [List.append_assoc, List.append_assoc] at later
      exact first.trans later

theorem table_map {change : Value → Value} {entries : Entries}
    (inside : ∀ entry ∈ entries, Reordered entry.2 (change entry.2)) (before : Entries) :
    Reordered (.table (before ++ entries))
      (.table (before ++ entries.map fun entry => (entry.1, change entry.2))) := by
  induction entries generalizing before with
  | nil => exact .refl _
  | cons entry entries ih =>
      have first := Reordered.entry before entries entry.1 (inside entry List.mem_cons_self)
      have later := ih (fun other member => inside other (List.mem_cons_of_mem entry member))
        (before ++ [(entry.1, change entry.2)])
      rw [List.append_assoc, List.append_assoc] at later
      exact first.trans later

/-- Every value becomes its sorted form. -/
theorem sorted (v : Value) : Reordered v v.sorted := by
  induction v using induct with
  | null => exact .refl _
  | bool b => exact .refl _
  | int n => exact .refl _
  | real x => exact .refl _
  | text s => exact .refl _
  | moment m => exact .refl _
  | list items ih =>
      rw [Value.sorted, sortedItems_eq_map]
      exact list_map ih []
  | table entries ih =>
      rw [Value.sorted, sortedEntries_eq_map]
      exact (table_map ih []).trans (.keys (sortEntries_perm _).symm)

theorem sorted_eq {v w : Value} (reordered : Reordered v w) (distinct : v.KeysDistinct) :
    v.sorted = w.sorted ∧ w.KeysDistinct := by
  induction reordered with
  | refl v => exact ⟨rfl, distinct⟩
  | trans _ _ first second =>
      obtain ⟨same, distinct⟩ := first distinct
      obtain ⟨same', distinct⟩ := second distinct
      exact ⟨same.trans same', distinct⟩
  | keys perm =>
      rw [keysDistinct_table_iff] at distinct
      obtain ⟨keys, inside⟩ := distinct
      constructor
      · rw [Value.sorted, Value.sorted, sortedEntries_eq_map, sortedEntries_eq_map]
        apply congrArg table
        apply sortEntries_eq_of_perm _ (perm.map _)
        rwa [List.map_map]
      · rw [keysDistinct_table_iff]
        refine ⟨(perm.map Prod.fst).nodup_iff.mp keys, ?_⟩
        intro entry member
        exact inside entry (perm.mem_iff.mpr member)
  | item before after _ ih =>
      rw [keysDistinct_list_iff, List.forall_mem_append, List.forall_mem_cons] at distinct
      obtain ⟨early, inner, later⟩ := distinct
      obtain ⟨same, distinct⟩ := ih inner
      constructor
      · simp only [Value.sorted, sortedItems_eq_map, List.map_append, List.map_cons, same]
      · rw [keysDistinct_list_iff, List.forall_mem_append, List.forall_mem_cons]
        exact ⟨early, distinct, later⟩
  | entry before after key _ ih =>
      rw [keysDistinct_table_iff, List.forall_mem_append, List.forall_mem_cons, List.map_append,
        List.map_cons] at distinct
      obtain ⟨keys, early, inner, later⟩ := distinct
      obtain ⟨same, distinct⟩ := ih inner
      constructor
      · simp only [Value.sorted, sortedEntries_eq_map, List.map_append, List.map_cons, same]
      · rw [keysDistinct_table_iff, List.forall_mem_append, List.forall_mem_cons, List.map_append,
          List.map_cons]
        exact ⟨keys, early, distinct, later⟩

end Reordered

/-- A value becomes another by reordering entries exactly where both have one sorted form. -/
theorem reordered_iff_sorted_eq {v w : Value} (distinct : v.KeysDistinct) :
    Reordered v w ↔ v.sorted = w.sorted := by
  constructor
  · intro reordered
    exact (reordered.sorted_eq distinct).1
  · intro same
    have back := (Reordered.sorted w).symm
    rw [← same] at back
    exact (Reordered.sorted v).trans back

end Workflow.Value
