import Workflow.Proofs.Value.Readable
import Workflow.Toml.Namespace

/-!
The table that a key leads to in a document under construction, and what becomes of the document
when that table is changed. Keys go through arrays of tables by their last table, and tables that
are not there count as empty.
-/

namespace Workflow

namespace Entries

variable {entries : Entries} {key : String}

theorem lookup_put (entries : Entries) (key : String) (value : Value) :
    (entries.put key value).lookup key = some value := by
  induction entries with
  | nil => exact List.lookup_cons_self
  | cons entry entries ih =>
      obtain ⟨other, v⟩ := entry
      rw [put]
      split
      next => exact List.lookup_cons_self
      next differs =>
        rw [List.lookup_cons, beq_eq_false_iff_ne.mpr (Ne.symm differs)]
        exact ih

theorem put_put (entries : Entries) (key : String) (first second : Value) :
    (entries.put key first).put key second = entries.put key second := by
  induction entries with
  | nil => simp [put]
  | cons entry entries ih =>
      obtain ⟨other, v⟩ := entry
      by_cases same : other = key
      · simp [put, same]
      · simp [put, same, ih]

theorem lookup_eq_none_iff_notMem : entries.lookup key = none ↔ key ∉ entries.map Prod.fst := by
  rw [List.lookup_eq_none_iff, List.mem_map, not_exists]
  constructor
  · intro other entry listed
    have differs := other entry listed.1
    simp [listed.2] at differs
  · intro other entry listed
    exact bne_iff_ne.mpr fun same => other entry ⟨listed, same.symm⟩

theorem put_append_of_notMem {before : Entries} (fresh : key ∉ before.map Prod.fst)
    (first second : Value) :
    (before ++ [(key, first)]).put key second = before ++ [(key, second)] := by
  rw [← put_of_notMem first fresh, put_put, put_of_notMem second fresh]

end Entries

namespace Toml

/-- `Focus key root cur put`: the key leads from the table `root` to the table `cur`, and `root`
becomes `put new` when `new` takes the place of `cur`. -/
inductive Focus : Key → Entries → Entries → (Entries → Entries) → Prop
  | here (root : Entries) : Focus [] root root id
  | missing {name : String} {key : Key} {root cur : Entries} {put : Entries → Entries}
      (found : root.lookup name = none) (below : Focus key [] cur put) :
      Focus (name :: key) root cur fun new => root.put name (.table (put new))
  | table {name : String} {key : Key} {root inner cur : Entries} {put : Entries → Entries}
      (found : root.lookup name = some (.table inner)) (below : Focus key inner cur put) :
      Focus (name :: key) root cur fun new => root.put name (.table (put new))
  | last {name : String} {key : Key} {root inner cur : Entries} {put : Entries → Entries}
      {before : List Value} (found : root.lookup name = some (.list (before ++ [.table inner])))
      (below : Focus key inner cur put) :
      Focus (name :: key) root cur fun new => root.put name (.list (before ++ [.table (put new)]))

namespace Focus

variable {key : Key} {root cur : Entries} {put : Entries → Entries}

/-- A change at a key is a change of the table there. -/
theorem changeAt (focus : Focus key root cur put) (change : Entries → Except Problem Entries) :
    Toml.changeAt true change key root = (change cur).map put := by
  induction focus with
  | here root =>
      rw [Toml.changeAt]
      cases change root <;> rfl
  | missing found _ ih =>
      rw [Toml.changeAt, found]
      dsimp only
      rw [ih]
      cases change _ <;> rfl
  | table found _ ih =>
      rw [Toml.changeAt, found]
      dsimp only
      rw [ih]
      cases change _ <;> rfl
  | last found _ ih =>
      rw [Toml.changeAt, found]
      simp only [List.getLast?_append, List.getLast?_singleton, Option.some_or,
        List.dropLast_concat, ih]
      cases change _ <;> rfl

/-- The key leads to what has been put there. -/
theorem after (focus : Focus key root cur put) (new : Entries) :
    Focus key (put new) new put := by
  induction focus with
  | here root => exact .here new
  | @missing name key root cur put found _ ih =>
      have later := Focus.table (Entries.lookup_put root name (.table (put new))) ih
      simpa only [Entries.put_put] using later
  | @table name key root inner cur put found _ ih =>
      have later := Focus.table (Entries.lookup_put root name (.table (put new))) ih
      simpa only [Entries.put_put] using later
  | @last name key root inner cur put before found _ ih =>
      have later :=
        Focus.last (Entries.lookup_put root name (.list (before ++ [.table (put new)]))) ih
      simpa only [Entries.put_put] using later

/-- A key that leads on from the table leads on from the root. -/
theorem append {sub : Key} {cur' : Entries} {put' : Entries → Entries}
    (focus : Focus key root cur put) (below : Focus sub cur cur' put') :
    Focus (key ++ sub) root cur' fun new => put (put' new) := by
  induction focus with
  | here root => exact below
  | missing found _ ih => exact .missing found (ih below)
  | table found _ ih => exact .table found (ih below)
  | last found _ ih => exact .last found (ih below)

/-- A name that is not there yet leads to an empty table. -/
theorem new {name : String} (fresh : name ∉ cur.map Prod.fst) :
    Focus [name] cur [] fun new => cur ++ [(name, .table new)] := by
  have focus := Focus.missing (Entries.lookup_eq_none_iff_notMem.mpr fresh) (.here [])
  simpa only [Entries.put_of_notMem _ fresh, id] using focus

/-- The name of an array of tables leads to its last table. -/
theorem ofArray {name : String} {inner : Entries} (fresh : name ∉ cur.map Prod.fst)
    (before : List Value) :
    Focus [name] (cur ++ [(name, .list (before ++ [.table inner]))]) inner
      fun new => cur ++ [(name, .list (before ++ [.table new]))] := by
  have found : (cur ++ [(name, Value.list (before ++ [.table inner]))]).lookup name =
      some (.list (before ++ [.table inner])) := by
    rw [← Entries.put_of_notMem _ fresh, Entries.lookup_put]
  have focus := Focus.last found (.here inner)
  simpa only [Entries.put_append_of_notMem fresh, id] using focus

end Focus

end Toml

end Workflow
