import Workflow.Proofs.Json.Distinct
import Workflow.Toml.Reader

/-!
No table of a TOML document that is read has a key twice: neither the reader of values nor a
statement puts an entry under a key that is there.
-/

namespace Workflow.Toml

variable {cs rest after : List Char} {v : Value} {entries added : Entries}

theorem distinct_empty : (Value.table []).KeysDistinct :=
  .table List.nodup_nil (List.forall_mem_nil _)

/-! ## Scalars -/

theorem prefixedInt_distinct (found : prefixedInt cs = some (v, rest)) : v.KeysDistinct := by
  unfold prefixedInt at found
  split at found
  · obtain ⟨base, -, found⟩ := Option.bind_eq_some_iff.mp found
    obtain ⟨digits, -, found⟩ := Option.bind_eq_some_iff.mp found
    cases found
    exact .int _
  · cases found

theorem decimalNumber_distinct (found : decimalNumber cs = some (.ok (v, rest))) :
    v.KeysDistinct := by
  simp only [decimalNumber, Option.bind_eq_bind, Option.bind_eq_some_iff] at found
  obtain ⟨whole, -, found⟩ := found
  split at found
  · split at found
    · cases found
    · cases found
      exact .int _
  · cases found
    exact .real _

theorem number_distinct (found : number cs = some (.ok (v, rest))) : v.KeysDistinct := by
  rw [number] at found
  split at found
  next result whole =>
    cases found
    exact prefixedInt_distinct whole
  next => exact decimalNumber_distinct found

theorem specialNumber_distinct (found : specialNumber cs = some (v, rest)) : v.KeysDistinct := by
  obtain ⟨pair, -, same⟩ := Option.map_eq_some_iff.mp found
  obtain ⟨rfl, -⟩ := Prod.mk.inj same
  exact .real _

theorem dateTime_distinct (found : dateTime cs = some (.ok (v, rest))) : v.KeysDistinct := by
  simp only [dateTime, Option.bind_eq_bind, Option.bind_eq_some_iff] at found
  obtain ⟨day, -, found⟩ := found
  split at found
  · cases found
  · split at found <;>
      · cases found
        exact .moment _

theorem readScalar_distinct (read : readScalar cs = .ok (v, rest)) : v.KeysDistinct := by
  unfold readScalar at read
  split at read
  · obtain ⟨text, -, same⟩ := Except.map_eq_ok_iff.mp read
    obtain ⟨rfl, -⟩ := Prod.mk.inj same
    exact .text _
  · obtain ⟨text, -, same⟩ := Except.map_eq_ok_iff.mp read
    obtain ⟨rfl, -⟩ := Prod.mk.inj same
    exact .text _
  · split at read
    · cases read
      exact .bool true
    split at read
    · cases read
      exact .bool false
    split at read
    next found => exact dateTime_distinct (found.trans (congrArg some read))
    next =>
      cases read
      exact .moment _
    next found => exact number_distinct (found.trans (congrArg some read))
    next found =>
      cases read
      exact specialNumber_distinct found
    next => cases read

/-! ## Changes to tables -/

/-- The change keeps the keys of tables apart. -/
def KeepsDistinct (change : Entries → Except Problem Entries) : Prop :=
  ∀ entries entries', (Value.table entries).KeysDistinct → change entries = .ok entries' →
    (Value.table entries').KeysDistinct

theorem addEntry_distinct (name : String) (value : v.KeysDistinct) (taken : Problem) :
    KeepsDistinct (addEntry name v taken) := by
  intro entries entries' distinct added
  rw [addEntry] at added
  split at added
  · cases added
  · cases added
    exact distinct.put name value

theorem appendTable_distinct (name : String) : KeepsDistinct (appendTable name) := by
  intro entries entries' distinct added
  rw [appendTable] at added
  split at added
  · cases added
    exact distinct.put name (.list (List.forall_mem_singleton.mpr distinct_empty))
  next items found =>
    cases added
    have list := distinct.entry (Entries.mem_of_lookup found)
    refine distinct.put name (.list (List.forall_mem_append.mpr ⟨?_, ?_⟩))
    · exact Value.keysDistinct_list_iff.mp list
    · exact List.forall_mem_singleton.mpr distinct_empty
  · cases added

theorem changeAt_distinct {change : Entries → Except Problem Entries} (keeps : KeepsDistinct change)
    (throughArrays : Bool) (key : Key) : KeepsDistinct (changeAt throughArrays change key) := by
  induction key with
  | nil => exact keeps
  | cons name key ih =>
      intro entries entries' distinct changed
      rw [changeAt] at changed
      split at changed
      · obtain ⟨inner, below, rfl⟩ := Except.map_eq_ok_iff.mp changed
        exact distinct.put name (ih _ _ distinct_empty below)
      next old found =>
        obtain ⟨inner, below, rfl⟩ := Except.map_eq_ok_iff.mp changed
        exact distinct.put name (ih _ _ (distinct.entry (Entries.mem_of_lookup found)) below)
      next items found =>
        have list := Value.keysDistinct_list_iff.mp (distinct.entry (Entries.mem_of_lookup found))
        split at changed
        next last =>
          obtain ⟨inner, below, rfl⟩ := Except.map_eq_ok_iff.mp changed
          refine distinct.put name (.list (List.forall_mem_append.mpr ⟨?_, ?_⟩))
          · exact fun item listed => list item (List.dropLast_subset items listed)
          · exact List.forall_mem_singleton.mpr
              (ih _ _ (list _ (List.mem_of_getLast? last)) below)
        next => cases changed
      · cases changed

/-! ## Values -/

/-- Whatever the reader reads has no key twice. -/
def ReadsDistinct (readValue : ValueReader) : Prop :=
  ∀ cs v rest, readValue cs = .ok (v, rest) → v.KeysDistinct

variable {readValue : ValueReader}

theorem readItems_distinct (reads : ReadsDistinct readValue) {before : List Value}
    (items : ∀ item ∈ before, item.KeysDistinct) (fuel : Nat)
    (read : readItems readValue before fuel cs = .ok (v, rest)) : v.KeysDistinct := by
  induction fuel generalizing before cs with
  | zero => cases read
  | succ fuel ih =>
      obtain ⟨⟨item, after⟩, first, later⟩ := Except.andThen_eq_ok_iff.mp read
      have items' : ∀ other ∈ item :: before, other.KeysDistinct :=
        List.forall_mem_cons.mpr ⟨reads _ _ _ first, items⟩
      have list : (Value.list (item :: before).reverse).KeysDistinct :=
        .list fun other listed => items' other (List.mem_reverse.mp listed)
      obtain ⟨following, -, later⟩ := Except.andThen_eq_ok_iff.mp later
      split at later
      · cases later
        exact list
      · obtain ⟨more, -, later⟩ := Except.andThen_eq_ok_iff.mp later
        split at later
        · cases later
          exact list
        · exact ih items' later
      · cases later

theorem readArray_distinct (reads : ReadsDistinct readValue) :
    ReadsDistinct (readArray readValue) := by
  intro cs v rest read
  obtain ⟨following, -, later⟩ := Except.andThen_eq_ok_iff.mp read
  split at later
  · cases later
    exact .list (List.forall_mem_nil _)
  · exact readItems_distinct reads (List.forall_mem_nil _) _ later

theorem readEntry_distinct (reads : ReadsDistinct readValue) {key : Key}
    (read : readEntry readValue cs = .ok ((key, v), rest)) : v.KeysDistinct := by
  obtain ⟨⟨name, after⟩, -, later⟩ := Except.andThen_eq_ok_iff.mp read
  dsimp only at later
  split at later
  · obtain ⟨⟨value, after'⟩, found, same⟩ := Except.andThen_eq_ok_iff.mp later
    cases same
    exact reads _ _ _ found
  · cases later

theorem readInlineEntries_distinct (reads : ReadsDistinct readValue) {marks : Marks}
    (distinct : (Value.table entries).KeysDistinct) (fuel : Nat)
    (read : readInlineEntries readValue marks entries fuel cs = .ok (v, rest)) :
    v.KeysDistinct := by
  induction fuel generalizing marks entries cs with
  | zero => cases read
  | succ fuel ih =>
      obtain ⟨⟨⟨key, value⟩, after⟩, first, later⟩ := Except.andThen_eq_ok_iff.mp read
      dsimp only at later
      split at later
      · cases later
      next entries' added =>
        have distinct' : (Value.table entries').KeysDistinct := by
          rw [addInline] at added
          split at added
          · cases added
          · refine changeAt_distinct (addEntry_distinct _ ?_ _) false _ _ _ distinct added
            exact readEntry_distinct reads first
        split at later
        · cases later
          exact distinct'
        · exact ih distinct' later
        · cases later

theorem readInlineTable_distinct (reads : ReadsDistinct readValue) :
    ReadsDistinct (readInlineTable readValue) := by
  intro cs v rest read
  rw [readInlineTable] at read
  split at read
  · cases read
    exact distinct_empty
  · exact readInlineEntries_distinct reads distinct_empty _ read

theorem readValue_distinct (depth : Nat) : ReadsDistinct (Toml.readValue depth) := by
  induction depth with
  | zero =>
      intro cs v rest read
      unfold Toml.readValue at read
      split at read
      · cases read
      · cases read
      · exact readScalar_distinct read
  | succ depth ih =>
      intro cs v rest read
      unfold Toml.readValue at read
      split at read
      · exact readArray_distinct ih _ _ _ read
      · exact readInlineTable_distinct ih _ _ _ read
      · exact readScalar_distinct read

/-! ## Statements -/

namespace Draft

variable {d d' : Draft} {key : Key}

/-- No table of the document so far has a key twice. -/
def Distinct (d : Draft) : Prop := (Value.table d.root).KeysDistinct

theorem openTable_distinct (distinct : d.Distinct) (opened : d.openTable key = .ok d') :
    d'.Distinct := by
  simp only [openTable] at opened
  split at opened
  · cases opened
  · obtain ⟨root, changed, same⟩ := Except.andThen_eq_ok_iff.mp opened
    cases same
    refine changeAt_distinct (fun _ _ inside same => ?_) true key _ _ distinct changed
    exact Except.ok.inj same ▸ inside

theorem openArrayTable_distinct (distinct : d.Distinct) (opened : d.openArrayTable key = .ok d') :
    d'.Distinct := by
  simp only [openArrayTable] at opened
  split at opened
  · cases opened
  · obtain ⟨root, changed, same⟩ := Except.andThen_eq_ok_iff.mp opened
    cases same
    exact changeAt_distinct (appendTable_distinct _) true _ _ _ distinct changed

theorem add_distinct (distinct : d.Distinct) (value : v.KeysDistinct)
    (added : d.add key v = .ok d') : d'.Distinct := by
  simp only [add] at added
  split at added
  · cases added
  · split at added
    · cases added
    · obtain ⟨root, changed, same⟩ := Except.andThen_eq_ok_iff.mp added
      cases same
      exact changeAt_distinct (addEntry_distinct _ value _) true _ _ _ distinct changed

end Draft

variable {d d' : Draft}

theorem readHeader_distinct (distinct : d.Distinct) {array : Bool}
    (read : readHeader array d cs = .ok (d', rest)) : d'.Distinct := by
  obtain ⟨⟨key, after⟩, -, later⟩ := Except.andThen_eq_ok_iff.mp read
  obtain ⟨next, stepped, later⟩ := Except.andThen_eq_ok_iff.mp later
  have opened := Except.mapError_eq_ok_iff.mp stepped
  have distinct' : next.Distinct := by
    split at opened
    · exact Draft.openArrayTable_distinct distinct opened
    · exact Draft.openTable_distinct distinct opened
  split at later
  · cases later
    exact distinct'
  · cases later
    exact distinct'
  · cases later
  · cases later

theorem readStatement_distinct (distinct : d.Distinct)
    (read : readStatement d cs = .ok (d', rest)) : d'.Distinct := by
  unfold readStatement at read
  split at read
  · exact readHeader_distinct distinct read
  · exact readHeader_distinct distinct read
  · cases read
    exact distinct
  · split at read
    · obtain ⟨⟨⟨key, value⟩, after⟩, entry, later⟩ := Except.andThen_eq_ok_iff.mp read
      obtain ⟨next, stepped, same⟩ := Except.andThen_eq_ok_iff.mp later
      cases same
      have added := Except.mapError_eq_ok_iff.mp stepped
      exact Draft.add_distinct distinct (readEntry_distinct (readValue_distinct _) entry) added
    · cases read
  · cases read
    exact distinct

theorem readStatements_distinct (distinct : d.Distinct) (fuel : Nat)
    (read : readStatements fuel d cs = .ok entries) : (Value.table entries).KeysDistinct := by
  induction fuel generalizing d cs with
  | zero =>
      cases read
      exact distinct
  | succ fuel ih =>
      rw [readStatements] at read
      split at read
      · cases read
        exact distinct
      · exact ih distinct read
      · obtain ⟨⟨next, after⟩, stepped, later⟩ := Except.andThen_eq_ok_iff.mp read
        have distinct' := readStatement_distinct distinct stepped
        obtain ⟨following, -, later⟩ := Except.andThen_eq_ok_iff.mp later
        split at later
        · cases later
          exact distinct'
        · exact ih distinct' later
        · cases later

theorem read_distinct {text : String} (found : read text = .ok entries) :
    (Value.table entries).KeysDistinct :=
  readStatements_distinct (d := .empty) distinct_empty _ (Except.mapError_eq_ok_iff.mp found)

end Workflow.Toml
