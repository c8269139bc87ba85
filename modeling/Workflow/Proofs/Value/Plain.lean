import Workflow.Proofs.Value.Readable

/-!
Plain forms of values and values without nulls, and what reordering the keys of tables leaves as it
is. Main statement: leaving out the nulls of a value's tables keeps its sorted form exactly where
there are none.
-/

namespace Workflow.Value

variable {v w : Value} {items : List Value} {entries : Entries}

/-! ## Nulls that are left out -/

theorem dropNullsItems_eq_map (items : List Value) : dropNullsItems items = items.map dropNulls := by
  induction items with
  | nil => rfl
  | cons item items ih => rw [dropNullsItems, ih, List.map_cons]

/-- An entry without the nulls below it, unless it is a null itself. -/
def keep? (entry : String × Value) : Option (String × Value) :=
  match entry.2 with
  | .null => none
  | v => some (entry.1, v.dropNulls)

theorem keep?_null (key : String) : keep? (key, .null) = none := rfl

theorem keep?_eq_some {key : String} (set : v ≠ .null) :
    keep? (key, v) = some (key, v.dropNulls) := by
  cases v <;> first | contradiction | rfl

theorem keep?_eq_some_iff {entry kept : String × Value} :
    keep? entry = some kept ↔ entry.2 ≠ .null ∧ kept = (entry.1, entry.2.dropNulls) := by
  obtain ⟨key, value⟩ := entry
  by_cases null : value = .null
  · simp [null, keep?_null]
  · simp [null, keep?_eq_some null, eq_comm]

theorem filterMap_keep?_eq_map (set : ∀ entry ∈ entries, entry.2 ≠ .null) :
    entries.filterMap keep? = entries.map fun entry => (entry.1, entry.2.dropNulls) := by
  rw [← List.filterMap_eq_map]
  exact List.filterMap_congr fun entry member => keep?_eq_some (set entry member)

theorem dropNullsEntries_eq_filterMap (entries : Entries) :
    dropNullsEntries entries = entries.filterMap keep? := by
  induction entries with
  | nil => rfl
  | cons entry entries ih =>
      obtain ⟨key, value⟩ := entry
      cases value <;> simp [dropNullsEntries, keep?, ih, List.filterMap_cons]

theorem dropNulls_list (items : List Value) :
    (list items).dropNulls = list (items.map dropNulls) := by
  rw [dropNulls, dropNullsItems_eq_map]

theorem dropNulls_table (entries : Entries) :
    (table entries).dropNulls = table (entries.filterMap keep?) := by
  rw [dropNulls, dropNullsEntries_eq_filterMap]

theorem plain_list (items : List Value) : (list items).plain = list (items.map plain) := by
  rw [plain, plainItems_eq_map]

theorem plain_table (entries : Entries) :
    (table entries).plain = table (entries.map fun entry => (entry.1, entry.2.plain)) := by
  rw [plain, plainEntries_eq_map]

theorem sorted_list (items : List Value) : (list items).sorted = list (items.map sorted) := by
  rw [sorted, sortedItems_eq_map]

theorem sorted_table (entries : Entries) : (table entries).sorted =
    table (sortEntries (entries.map fun entry => (entry.1, entry.2.sorted))) := by
  rw [sorted, sortedEntries_eq_map]

theorem perm_of_sortEntries_eq {others : Entries}
    (same : sortEntries entries = sortEntries others) : entries.Perm others := by
  have perm := (sortEntries_perm entries).symm
  rw [same] at perm
  exact perm.trans (sortEntries_perm others)

theorem dropNulls_eq_null_iff : v.dropNulls = null ↔ v = null := by
  cases v <;> simp [dropNulls]

theorem keys_filterMap_keep?_sublist (entries : Entries) :
    ((entries.filterMap keep?).map Prod.fst).Sublist (entries.map Prod.fst) := by
  induction entries with
  | nil => exact .refl _
  | cons entry entries ih =>
      obtain ⟨key, value⟩ := entry
      by_cases null : value = .null
      · rw [null, List.filterMap_cons_none (keep?_null key)]
        exact ih.cons key
      · rw [List.filterMap_cons_some (keep?_eq_some null)]
        exact ih.cons_cons key

theorem KeysDistinct.dropNulls (distinct : v.KeysDistinct) : v.dropNulls.KeysDistinct := by
  induction distinct with
  | null => exact .null
  | bool b => exact .bool b
  | int n => exact .int n
  | real x => exact .real x
  | text s => exact .text s
  | moment m => exact .moment m
  | list _ ih =>
      rw [dropNulls_list, keysDistinct_list_iff, List.forall_mem_map]
      exact ih
  | @table entries keys _ ih =>
      rw [dropNulls_table, keysDistinct_table_iff]
      refine ⟨keys.sublist (keys_filterMap_keep?_sublist entries), ?_⟩
      intro kept member
      obtain ⟨entry, listed, found⟩ := List.mem_filterMap.mp member
      obtain ⟨-, rfl⟩ := keep?_eq_some_iff.mp found
      exact ih entry listed

theorem Momentless.dropNulls (momentless : v.Momentless) : v.dropNulls.Momentless := by
  induction momentless with
  | null => exact .null
  | bool b => exact .bool b
  | int n => exact .int n
  | real x => exact .real x
  | text s => exact .text s
  | list _ ih =>
      rw [dropNulls_list, momentless_list_iff, List.forall_mem_map]
      exact ih
  | table _ ih =>
      rw [dropNulls_table, momentless_table_iff]
      intro kept member
      obtain ⟨entry, listed, found⟩ := List.mem_filterMap.mp member
      obtain ⟨-, rfl⟩ := keep?_eq_some_iff.mp found
      exact ih entry listed

theorem digitsFit_dropNulls (fits : v.digitsFit = true) : v.dropNulls.digitsFit = true := by
  induction v using induct with
  | null | bool | int | real | text | moment => exact fits
  | list items ih =>
      rw [digitsFit_list_iff] at fits
      rw [dropNulls_list, digitsFit_list_iff, List.forall_mem_map]
      exact fun item member => ih item member (fits item member)
  | table entries ih =>
      rw [digitsFit_table_iff] at fits
      rw [dropNulls_table, digitsFit_table_iff]
      intro kept member
      obtain ⟨entry, listed, found⟩ := List.mem_filterMap.mp member
      obtain ⟨-, rfl⟩ := keep?_eq_some_iff.mp found
      exact ih entry listed (fits entry listed)

theorem Readable.dropNulls (readable : v.Readable) : v.dropNulls.Readable :=
  ⟨readable.momentless.dropNulls, readable.distinct.dropNulls,
    digitsFit_dropNulls readable.digits⟩

theorem levels_dropNulls_le (v : Value) : v.dropNulls.levels ≤ v.levels := by
  induction v using induct with
  | null | bool | int | real | text | moment => exact Nat.le_refl _
  | list items ih =>
      rw [dropNulls_list, levels.eq_1 items, levels_list_le_iff, List.forall_mem_map]
      intro item member
      exact (ih item member).trans (Nat.le_of_lt_succ (levels_item member))
  | table entries ih =>
      rw [dropNulls_table, levels.eq_2 entries, levels_table_le_iff]
      intro kept member
      obtain ⟨entry, listed, found⟩ := List.mem_filterMap.mp member
      obtain ⟨-, rfl⟩ := keep?_eq_some_iff.mp found
      exact (ih entry listed).trans (Nat.le_of_lt_succ (levels_entry listed))

/-! ## Plain forms -/

theorem plain_plain (v : Value) : v.plain.plain = v.plain := by
  induction v using induct with
  | null | bool | int | text | moment => rfl
  | real x => by_cases finite : x.isFinite = true <;> simp [plain, finite]
  | list items ih =>
      rw [plain_list, plain_list, List.map_map]
      exact congrArg list (List.map_congr_left ih)
  | table entries ih =>
      rw [plain_table, plain_table, List.map_map]
      exact congrArg table (List.map_congr_left fun entry member => Prod.ext rfl (ih entry member))

/-- Values that are plain stay so without their nulls. -/
theorem plain_dropNulls_plain (v : Value) : v.plain.dropNulls.plain = v.plain.dropNulls := by
  induction v using induct with
  | null | bool | int | text | moment => rfl
  | real x => by_cases finite : x.isFinite = true <;> simp [plain, dropNulls, finite]
  | list items ih =>
      rw [plain_list, dropNulls_list, List.map_map, plain_list, List.map_map]
      exact congrArg list (List.map_congr_left ih)
  | table entries ih =>
      rw [plain_table, dropNulls_table, plain_table]
      apply congrArg table
      have each : ∀ kept ∈ (entries.map fun entry => (entry.1, entry.2.plain)).filterMap keep?,
          (kept.1, kept.2.plain) = kept := by
        intro kept member
        obtain ⟨entry, listed, found⟩ := List.mem_filterMap.mp member
        obtain ⟨source, there, rfl⟩ := List.mem_map.mp listed
        obtain ⟨-, rfl⟩ := keep?_eq_some_iff.mp found
        exact Prod.ext rfl (ih source there)
      rw [List.map_congr_left each, List.map_id']

theorem levels_plain (v : Value) : v.plain.levels = v.levels := by
  induction v using induct with
  | null | bool | int | text | moment => rfl
  | real x =>
      rw [plain]
      split <;> rfl
  | list items ih =>
      rw [plain_list, levels_list, levels_list, List.map_map]
      exact congrArg (fun depths => depths.foldr max 0 + 1) (List.map_congr_left ih)
  | table entries ih =>
      rw [plain_table, levels_table, levels_table, List.map_map]
      exact congrArg (fun depths => depths.foldr max 0 + 1) (List.map_congr_left ih)

/-- The value is plain already: it holds no date, and every double is finite. -/
inductive IsPlain : Value → Prop
  | null : IsPlain .null
  | bool (b : Bool) : IsPlain (.bool b)
  | int (n : Int) : IsPlain (.int n)
  | real {x : Binary64} (finite : x.isFinite = true) : IsPlain (.real x)
  | text (s : String) : IsPlain (.text s)
  | list {items : List Value} (inside : ∀ item ∈ items, IsPlain item) : IsPlain (.list items)
  | table {entries : Entries} (inside : ∀ entry ∈ entries, IsPlain entry.2) :
      IsPlain (.table entries)

theorem IsPlain.plain_eq (isPlain : v.IsPlain) : v.plain = v := by
  induction isPlain with
  | null | bool | int | text => rfl
  | real finite => rw [plain, if_pos finite]
  | list _ ih => rw [plain_list, List.map_congr_left ih, List.map_id']
  | @table entries _ ih =>
      have each : ∀ entry ∈ entries, (entry.1, entry.2.plain) = entry :=
        fun entry member => Prod.ext rfl (ih entry member)
      rw [plain_table, List.map_congr_left each, List.map_id']

/-! ## Reordering -/

namespace Reordered

theorem eq_null_iff (reordered : Reordered v w) : v = .null ↔ w = .null := by
  induction reordered with
  | refl v => rfl
  | trans _ _ first second => exact first.trans second
  | keys | item | entry => simp

theorem plain (reordered : Reordered v w) : Reordered v.plain w.plain := by
  induction reordered with
  | refl v => exact .refl _
  | trans _ _ first second => exact first.trans second
  | keys perm =>
      rw [plain_table, plain_table]
      exact .keys (perm.map _)
  | item before after _ ih =>
      rw [plain_list, plain_list, List.map_append, List.map_append, List.map_cons, List.map_cons]
      exact .item _ _ ih
  | entry before after key _ ih =>
      rw [plain_table, plain_table, List.map_append, List.map_append, List.map_cons, List.map_cons]
      exact .entry _ _ key ih

theorem dropNulls (reordered : Reordered v w) : Reordered v.dropNulls w.dropNulls := by
  induction reordered with
  | refl v => exact .refl _
  | trans _ _ first second => exact first.trans second
  | keys perm =>
      rw [dropNulls_table, dropNulls_table]
      exact .keys (perm.filterMap _)
  | item before after _ ih =>
      rw [dropNulls_list, dropNulls_list, List.map_append, List.map_append, List.map_cons,
        List.map_cons]
      exact .item _ _ ih
  | @entry before after key v w inner ih =>
      rw [dropNulls_table, dropNulls_table, List.filterMap_append, List.filterMap_append]
      by_cases null : v = .null
      · rw [null, inner.eq_null_iff.mp null]
        exact .refl _
      · have null' : w ≠ .null := mt inner.eq_null_iff.mpr null
        rw [List.filterMap_cons_some (keep?_eq_some null),
          List.filterMap_cons_some (keep?_eq_some null')]
        exact .entry _ _ key ih

theorem levels_eq (reordered : Reordered v w) : v.levels = w.levels := by
  induction reordered with
  | refl v => rfl
  | trans _ _ first second => exact first.trans second
  | keys perm => rw [levels_table, levels_table, (perm.map _).foldr_eq]
  | item before after _ ih => simp [levels_list, ih]
  | entry before after key _ ih => simp [levels_table, ih]

theorem digitsFit_iff (reordered : Reordered v w) : v.digitsFit = true ↔ w.digitsFit = true := by
  induction reordered with
  | refl v => rfl
  | trans _ _ first second => exact first.trans second
  | keys perm => simp only [digitsFit_table_iff, perm.mem_iff]
  | item before after _ ih => simp [or_imp, forall_and, ih]
  | entry before after key _ ih => simp [or_imp, forall_and, ih]

theorem momentless (reordered : Reordered v w) (momentless : v.Momentless) : w.Momentless := by
  induction reordered with
  | refl v => exact momentless
  | trans _ _ first second => exact second (first momentless)
  | keys perm => simpa [perm.mem_iff] using momentless
  | item before after _ ih =>
      simp only [momentless_list_iff, List.forall_mem_append, List.forall_mem_cons] at momentless ⊢
      exact ⟨momentless.1, ih momentless.2.1, momentless.2.2⟩
  | entry before after key _ ih =>
      simp only [momentless_table_iff, List.forall_mem_append, List.forall_mem_cons] at momentless ⊢
      exact ⟨momentless.1, ih momentless.2.1, momentless.2.2⟩

theorem readable (reordered : Reordered v w) (readable : v.Readable) : w.Readable :=
  { momentless := reordered.momentless readable.momentless
    distinct := (reordered.sorted_eq readable.distinct).2
    digits := reordered.digitsFit_iff.mp readable.digits }

end Reordered

theorem Readable.sorted (readable : v.Readable) : v.sorted.Readable :=
  (Reordered.sorted v).readable readable

/-! ## Values that have no nulls in their tables -/

/-- No table of the value has a null. -/
inductive NullFree : Value → Prop
  | null : NullFree .null
  | bool (b : Bool) : NullFree (.bool b)
  | int (n : Int) : NullFree (.int n)
  | real (x : Binary64) : NullFree (.real x)
  | text (s : String) : NullFree (.text s)
  | moment (m : Moment) : NullFree (.moment m)
  | list {items : List Value} (inside : ∀ item ∈ items, NullFree item) : NullFree (.list items)
  | table {entries : Entries} (set : ∀ entry ∈ entries, entry.2 ≠ .null)
      (inside : ∀ entry ∈ entries, NullFree entry.2) : NullFree (.table entries)

theorem NullFree.dropNulls_eq (free : v.NullFree) : v.dropNulls = v := by
  induction free with
  | null | bool | int | real | text | moment => rfl
  | list _ ih => rw [dropNulls_list, List.map_congr_left ih, List.map_id']
  | @table entries set _ ih =>
      have kept : entries.map (fun entry => (entry.1, entry.2.dropNulls)) = entries.map id :=
        List.map_congr_left fun entry member => Prod.ext rfl (ih entry member)
      rw [dropNulls_table, filterMap_keep?_eq_map set, kept, List.map_id]

theorem nullFree_dropNulls (v : Value) : v.dropNulls.NullFree := by
  induction v using induct with
  | null => exact .null
  | bool b => exact .bool b
  | int n => exact .int n
  | real x => exact .real x
  | text s => exact .text s
  | moment m => exact .moment m
  | list items ih =>
      rw [dropNulls_list]
      exact .list (List.forall_mem_map.mpr ih)
  | table entries ih =>
      rw [dropNulls_table]
      have kept : ∀ entry ∈ entries.filterMap keep?, entry.2 ≠ .null ∧ entry.2.NullFree := by
        intro kept member
        obtain ⟨entry, listed, found⟩ := List.mem_filterMap.mp member
        obtain ⟨set, rfl⟩ := keep?_eq_some_iff.mp found
        exact ⟨mt dropNulls_eq_null_iff.mp set, ih entry listed⟩
      exact .table (fun entry member => (kept entry member).1) fun entry member =>
        (kept entry member).2

/-- Leaving the nulls out changes the sorted form wherever there are some. -/
theorem sorted_dropNulls_eq_iff (distinct : v.KeysDistinct) :
    v.dropNulls.sorted = v.sorted ↔ v.NullFree := by
  refine ⟨fun same => ?_, fun free => by rw [free.dropNulls_eq]⟩
  induction distinct with
  | null => exact .null
  | bool b => exact .bool b
  | int n => exact .int n
  | real x => exact .real x
  | text s => exact .text s
  | moment m => exact .moment m
  | list _ ih =>
      rw [dropNulls_list, sorted_list, sorted_list, List.map_map, list.injEq,
        List.map_inj_left] at same
      exact .list fun item member => ih item member (same item member)
  | @table entries keys _ ih =>
      rw [dropNulls_table, sorted_table, sorted_table, table.injEq] at same
      have perm := perm_of_sortEntries_eq same
      have all : ∀ entry ∈ entries, (keep? entry).isSome := by
        have length := perm.length_eq
        rw [List.length_map, List.length_map] at length
        exact List.filterMap_length_eq_length.mp length
      have set : ∀ entry ∈ entries, entry.2 ≠ .null := by
        intro entry member null
        obtain ⟨kept, found⟩ := Option.isSome_iff_exists.mp (all entry member)
        exact (keep?_eq_some_iff.mp found).1 null
      refine .table set fun entry member => ih entry member ?_
      -- The only entry with the same key is the entry itself.
      rw [filterMap_keep?_eq_map set, List.map_map] at perm
      obtain ⟨other, listed, found⟩ := List.mem_map.mp (perm.mem_iff.mp (List.mem_map_of_mem member))
      obtain ⟨key, value⟩ := Prod.mk.inj found
      obtain rfl := List.inj_on_of_nodup_map keys listed member key
      exact value.symm

end Workflow.Value
