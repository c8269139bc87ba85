import Workflow.Proofs.Toml.Value
import Workflow.Toml.Obstacle

/-!
What keeps a table from being written as TOML. Main statements: the writer of a table comes to all
that has no text and to nothing else, whatever its layout, and what has no text after the nulls of
the tables are left out is a null in a list or an integer that is too long.
-/

namespace Workflow

namespace Value

/-- A list in the value, at some depth, has a null among its items. -/
inductive HoldsNullItem : Value → Prop
  | here {items : List Value} (listed : .null ∈ items) : HoldsNullItem (.list items)
  | item {items : List Value} {item : Value} (listed : item ∈ items) (inside : HoldsNullItem item) :
      HoldsNullItem (.list items)
  | entry {entries : Entries} {entry : String × Value} (listed : entry ∈ entries)
      (inside : HoldsNullItem entry.2) : HoldsNullItem (.table entries)

theorem holdsNullItem_list_iff {items : List Value} :
    (list items).HoldsNullItem ↔ ∃ item ∈ items, item = .null ∨ item.HoldsNullItem := by
  constructor
  · rintro (listed | ⟨listed, inside⟩)
    · exact ⟨_, listed, .inl rfl⟩
    · exact ⟨_, listed, .inr inside⟩
  · rintro ⟨item, listed, rfl | inside⟩
    · exact .here listed
    · exact .item listed inside

theorem holdsNullItem_table_iff {entries : Entries} :
    (table entries).HoldsNullItem ↔ ∃ entry ∈ entries, entry.2.HoldsNullItem := by
  constructor
  · rintro ⟨⟩
    exact ⟨_, ‹_›, ‹_›⟩
  · rintro ⟨entry, listed, inside⟩
    exact .entry listed inside

theorem HoldsNullItem.ne_null {v : Value} (holds : v.HoldsNullItem) : v ≠ .null := by
  rintro rfl
  cases holds

theorem not_holdsNullItem_int (n : Int) : ¬ (int n).HoldsNullItem := by
  rintro ⟨⟩

end Value

namespace Toml

variable {v : Value} {items : List Value} {entries : Entries} {o : Obstacle}

/-! ## Obstacles in a value -/

theorem obstacles_list (items : List Value) :
    obstacles (.list items) = items.flatMap obstacles := by
  rw [obstacles]
  induction items with
  | nil => rfl
  | cons item items ih => rw [obstaclesAmong, ih, List.flatMap_cons]

theorem obstacles_table (entries : Entries) :
    obstacles (.table entries) = entries.flatMap fun entry => obstacles entry.2 := by
  rw [obstacles]
  induction entries with
  | nil => rfl
  | cons entry entries ih => rw [obstaclesBelow, ih, List.flatMap_cons]

theorem mem_obstacles_int_iff {n : Int} :
    o ∈ obstacles (.int n) ↔ o = .longInteger ∧ (Value.int n).digitsFit = false := by
  rw [obstacles]
  split
  next fits => simp [fits]
  next long => simp [long]

theorem mem_obstacles_dropNulls_list :
    o ∈ obstacles (Value.list items).dropNulls ↔ ∃ item ∈ items, o ∈ obstacles item.dropNulls := by
  rw [Value.dropNulls_list, obstacles_list, List.flatMap_map, List.mem_flatMap]

theorem mem_obstacles_dropNulls_table : o ∈ obstacles (Value.table entries).dropNulls ↔
    ∃ entry ∈ entries, entry.2 ≠ .null ∧ o ∈ obstacles entry.2.dropNulls := by
  rw [Value.dropNulls_table, obstacles_table, List.mem_flatMap]
  constructor
  · rintro ⟨kept, member, met⟩
    obtain ⟨entry, listed, found⟩ := List.mem_filterMap.mp member
    obtain ⟨set, rfl⟩ := Value.keep?_eq_some_iff.mp found
    exact ⟨entry, listed, set, met⟩
  · rintro ⟨entry, listed, set, met⟩
    exact ⟨_, List.mem_filterMap.mpr ⟨entry, listed, Value.keep?_eq_some set⟩, met⟩

/-- Once the nulls of tables are left out, those of lists are what has no text. -/
theorem nullItem_mem_obstacles_iff :
    .nullItem ∈ obstacles v.dropNulls ↔ v = .null ∨ v.HoldsNullItem := by
  induction v using Value.induct with
  | null => simp [Value.dropNulls, obstacles]
  | int n => simp [Value.dropNulls, mem_obstacles_int_iff, Value.not_holdsNullItem_int]
  | bool | real | text | moment =>
      simp only [Value.dropNulls, obstacles, List.not_mem_nil, reduceCtorEq, false_or, false_iff]
      rintro ⟨⟩
  | list items ih =>
      rw [mem_obstacles_dropNulls_list, Value.holdsNullItem_list_iff, or_iff_right (by simp)]
      exact exists_congr fun item => and_congr_right (ih item)
  | table entries ih =>
      rw [mem_obstacles_dropNulls_table, Value.holdsNullItem_table_iff, or_iff_right (by simp)]
      refine exists_congr fun entry => and_congr_right fun listed => ?_
      rw [ih entry listed]
      constructor
      · rintro ⟨set, found⟩
        exact found.resolve_left set
      · intro inside
        exact ⟨inside.ne_null, .inr inside⟩

theorem longInteger_notMem_obstacles_iff :
    .longInteger ∉ obstacles v.dropNulls ↔ v.digitsFit = true := by
  induction v using Value.induct with
  | int n => simp [Value.dropNulls, mem_obstacles_int_iff]
  | null | bool | real | text | moment => simp [Value.dropNulls, obstacles, Value.digitsFit]
  | list items ih =>
      rw [mem_obstacles_dropNulls_list, Value.digitsFit_list_iff, not_exists]
      exact forall_congr' fun item => not_and.trans (forall_congr' (ih item))
  | table entries ih =>
      rw [mem_obstacles_dropNulls_table, Value.digitsFit_table_iff, not_exists]
      refine forall_congr' fun entry => not_and.trans (forall_congr' fun listed => ?_)
      rw [not_and, ih entry listed]
      by_cases null : entry.2 = .null
      · simp [null, Value.digitsFit]
      · exact forall_prop_of_true null

theorem noNull_of_obstacles (clear : obstacles v = []) : v.NoNull := by
  induction v using Value.induct with
  | null => cases clear
  | bool b => exact .bool b
  | int n => exact .int n
  | real x => exact .real x
  | text s => exact .text s
  | moment m => exact .moment m
  | list items ih =>
      rw [obstacles_list, List.flatMap_eq_nil_iff] at clear
      exact .list fun item listed => ih item listed (clear item listed)
  | table entries ih =>
      rw [obstacles_table, List.flatMap_eq_nil_iff] at clear
      exact .table fun entry listed => ih entry listed (clear entry listed)

/-! ## Obstacles on the way through a table -/

theorem mem_of_mem_trials {item : Value} (tried : item ∈ trials items) : item ∈ items := by
  induction items with
  | nil => cases tried
  | cons first items ih =>
      rw [trials] at tried
      split at tried
      next =>
        rcases List.mem_cons.mp tried with rfl | later
        · exact List.mem_cons_self
        · exact List.mem_cons_of_mem _ (ih later)
      next =>
        obtain rfl := List.mem_singleton.mp tried
        exact List.mem_cons_self

theorem mem_obstacles_of_trial {trial : Value} (tried : trial ∈ trialsOf v)
    (met : o ∈ obstacles trial) : o ∈ obstacles v := by
  rw [trialsOf.eq_def] at tried
  split at tried
  next items =>
    split at tried
    next =>
      rw [obstacles_list]
      exact List.mem_flatMap.mpr ⟨trial, mem_of_mem_trials tried, met⟩
    next => cases tried
  next => cases tried

/-- What the writer comes to below the headers of a section. -/
def sectionObstaclesOf : Value → List Obstacle
  | .table entries => tableObstacles (.table entries)
  | .list items => items.flatMap tableObstacles
  | _ => []

theorem arrayObstacles_eq (items : List Value) :
    arrayObstacles items = items.flatMap tableObstacles := by
  induction items with
  | nil => rfl
  | cons item items ih => rw [arrayObstacles, ih, List.flatMap_cons]

theorem sectionObstacles_cons (entry : String × Value) (entries : Entries) :
    sectionObstacles (entry :: entries) =
      (if isSection entry.2 then sectionObstaclesOf entry.2 else []) ++
        sectionObstacles entries := by
  obtain ⟨key, v⟩ := entry
  cases v with
  | list items => rw [sectionObstacles, arrayObstacles_eq, sectionObstaclesOf]
  | table inner => simp [sectionObstacles, sectionObstaclesOf, isSection]
  | _ => simp [sectionObstacles, isSection]

theorem sectionObstacles_eq (entries : Entries) : sectionObstacles entries =
    (entries.filter (isSection ·.2)).flatMap (sectionObstaclesOf ·.2) := by
  induction entries with
  | nil => rfl
  | cons entry entries ih =>
      rw [sectionObstacles_cons, ih, List.filter_cons]
      split <;> rfl

/-- What the writer comes to at one entry of a table, before the header or below it. -/
def MetAt (o : Obstacle) (v : Value) : Prop :=
  (∃ trial ∈ trialsOf v, o ∈ obstacles trial) ∨ (isSection v = false ∧ o ∈ obstacles v) ∨
    (isSection v = true ∧ o ∈ sectionObstaclesOf v)

theorem mem_tableObstacles_iff_metAt :
    o ∈ tableObstacles (.table entries) ↔ ∃ entry ∈ entries, MetAt o entry.2 := by
  simp only [tableObstacles, layoutObstacles, lineObstacles, sectionObstacles_eq, MetAt,
    List.mem_append, List.mem_flatMap, List.mem_filter, Bool.not_eq_true', ← exists_or,
    and_or_left, and_assoc, or_assoc]

theorem mem_sectionObstaclesOf_iff (header : isSection v = true) :
    o ∈ sectionObstaclesOf v ↔ o ∈ obstacles v := by
  induction v using Value.induct with
  | null | bool | int | real | text | moment => cases header
  | list items ih =>
      simp only [isSection, Bool.and_eq_true, List.all_eq_true] at header
      obtain ⟨⟨-, tables⟩, -⟩ := header
      rw [sectionObstaclesOf, obstacles_list, List.mem_flatMap, List.mem_flatMap]
      refine exists_congr fun item => and_congr_right fun listed => ?_
      have isTable := tables item listed
      cases item with
      | table entries => exact ih _ listed rfl
      | _ => cases isTable
  | table entries ih =>
      rw [sectionObstaclesOf, mem_tableObstacles_iff_metAt, obstacles_table, List.mem_flatMap]
      refine exists_congr fun entry => and_congr_right fun listed => ⟨?_, fun met => ?_⟩
      · rintro (⟨trial, tried, met⟩ | ⟨-, met⟩ | ⟨header, met⟩)
        · exact mem_obstacles_of_trial tried met
        · exact met
        · exact (ih entry listed header).mp met
      · cases header : isSection entry.2 with
        | false => exact .inr (.inl ⟨header, met⟩)
        | true => exact .inr (.inr ⟨header, (ih entry listed header).mpr met⟩)

/-- Whatever its layout, the writer of a table comes to all in it that has no text. -/
theorem mem_tableObstacles_iff :
    o ∈ tableObstacles (.table entries) ↔ o ∈ obstacles (.table entries) :=
  mem_sectionObstaclesOf_iff (v := .table entries) rfl

/-! ## Writing -/

theorem write_eq_ok_iff {written : String} : write entries = .ok written ↔
    obstacles (.table entries) = [] ∧ text entries = written := by
  have clear : tableObstacles (.table entries) = [] ↔ obstacles (.table entries) = [] := by
    simp only [List.eq_nil_iff_forall_not_mem, mem_tableObstacles_iff]
  rw [write, ← clear]
  split <;> simp [*]

theorem mem_of_write_eq_error (stopped : write entries = .error o) :
    o ∈ obstacles (.table entries) := by
  rw [write] at stopped
  split at stopped
  next => cases stopped
  next first later met =>
    cases stopped
    rw [← mem_tableObstacles_iff, met]
    exact List.mem_cons_self

end Toml

end Workflow
