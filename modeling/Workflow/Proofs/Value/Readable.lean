import Workflow.Proofs.Value.KeyOrder
import Workflow.Value.Digits

/-!
Values that a document can hold: no dates and times, no key twice in a table, and no integer of too
many digits. How deep they are, and how tables are filled, is here too.
-/

namespace Workflow

/-! ## Tables that are filled -/

theorem Entries.put_of_notMem {entries : Entries} {key : String} (value : Value)
    (fresh : key ∉ entries.map Prod.fst) : entries.put key value = entries ++ [(key, value)] := by
  induction entries with
  | nil => rfl
  | cons entry entries ih =>
      obtain ⟨other, value'⟩ := entry
      rw [List.map_cons, List.mem_cons, not_or] at fresh
      rw [put, if_neg (Ne.symm fresh.1), ih fresh.2, List.cons_append]

theorem Entries.notMem_of_nodup {before entries : Entries} {entry : String × Value}
    (distinct : ((before ++ entry :: entries).map Prod.fst).Nodup) :
    entry.1 ∉ before.map Prod.fst := by
  intro member
  rw [List.map_append, List.nodup_append] at distinct
  exact distinct.2.2 entry.1 member entry.1 List.mem_cons_self rfl

theorem Entries.hasKey_eq_false_iff {entries : Entries} {key : String} :
    entries.hasKey key = false ↔ key ∉ entries.map Prod.fst := by
  simp only [hasKey, ← Bool.not_eq_true, List.any_eq_true, List.mem_map, beq_iff_eq]

theorem Entries.mem_of_lookup {α : Type} {entries : List (String × α)} {key : String} {a : α}
    (found : entries.lookup key = some a) : (key, a) ∈ entries := by
  obtain ⟨before, after, rfl, -⟩ := List.lookup_eq_some_iff.mp found
  exact List.mem_append_right before List.mem_cons_self

theorem Entries.lookup_of_mem {α : Type} {entries : List (String × α)}
    (distinct : (entries.map Prod.fst).Nodup) {key : String} {a : α} (member : (key, a) ∈ entries) :
    entries.lookup key = some a := by
  induction entries with
  | nil => cases member
  | cons entry entries ih =>
      obtain ⟨other, b⟩ := entry
      rw [List.map_cons, List.nodup_cons] at distinct
      rcases List.mem_cons.mp member with same | later
      · obtain ⟨rfl, rfl⟩ := Prod.mk.inj same
        rw [List.lookup_cons_self]
      · have differs : key ≠ other := by
          rintro rfl
          exact distinct.1 (List.mem_map.mpr ⟨_, later, rfl⟩)
        rw [List.lookup_cons, beq_eq_false_iff_ne.mpr differs]
        exact ih distinct.2 later

namespace Value

/-! ## Levels -/

variable {items : List Value} {entries : Entries} {v : Value}

theorem levels_list (items : List Value) :
    (list items).levels = (items.map levels).foldr max 0 + 1 := by
  rw [levels]
  induction items with
  | nil => rfl
  | cons item items ih => rw [levelsOfItems, List.map_cons, List.foldr_cons, Nat.succ.inj ih]

theorem levels_table (entries : Entries) :
    (table entries).levels = (entries.map fun entry => entry.2.levels).foldr max 0 + 1 := by
  rw [levels]
  induction entries with
  | nil => rfl
  | cons entry entries ih => rw [levelsOfEntries, List.map_cons, List.foldr_cons, Nat.succ.inj ih]

theorem levels_list_le_iff {bound : Nat} :
    (list items).levels ≤ bound + 1 ↔ ∀ item ∈ items, item.levels ≤ bound := by
  rw [levels_list, Nat.add_le_add_iff_right]
  induction items with
  | nil => simp
  | cons item items ih => simp [ih]

theorem levels_table_le_iff {bound : Nat} :
    (table entries).levels ≤ bound + 1 ↔ ∀ entry ∈ entries, entry.2.levels ≤ bound := by
  rw [levels_table, Nat.add_le_add_iff_right]
  induction entries with
  | nil => simp
  | cons entry entries ih => simp [ih]

theorem levels_item (member : v ∈ items) : v.levels < (list items).levels := by
  rw [levels, Nat.lt_succ_iff]
  exact levels_list_le_iff.mp (Nat.le_refl (levelsOfItems items + 1)) v member

theorem levels_entry {entry : String × Value} (member : entry ∈ entries) :
    entry.2.levels < (table entries).levels := by
  rw [levels, Nat.lt_succ_iff]
  exact levels_table_le_iff.mp (Nat.le_refl (levelsOfEntries entries + 1)) entry member

/-! ## Digits -/

@[simp]
theorem digitsFit_list_iff : (list items).digitsFit = true ↔
    ∀ item ∈ items, item.digitsFit = true := by
  rw [digitsFit]
  induction items with
  | nil => simp [digitsFitItems]
  | cons item items ih => simp [digitsFitItems, ih]

@[simp]
theorem digitsFit_table_iff : (table entries).digitsFit = true ↔
    ∀ entry ∈ entries, entry.2.digitsFit = true := by
  rw [digitsFit]
  induction entries with
  | nil => simp [digitsFitEntries]
  | cons entry entries ih => simp [digitsFitEntries, ih]

/-! ## Values in documents -/

/-- A document can hold the value and give it back. -/
structure Readable (v : Value) : Prop where
  momentless : v.Momentless
  distinct : v.KeysDistinct
  digits : v.digitsFit = true

theorem Readable.item (readable : (list items).Readable) (member : v ∈ items) : v.Readable :=
  { momentless := momentless_list_iff.mp readable.momentless v member
    distinct := readable.distinct.item member
    digits := digitsFit_list_iff.mp readable.digits v member }

theorem Readable.entry (readable : (table entries).Readable) {entry : String × Value}
    (member : entry ∈ entries) : entry.2.Readable :=
  { momentless := momentless_table_iff.mp readable.momentless entry member
    distinct := readable.distinct.entry member
    digits := digitsFit_table_iff.mp readable.digits entry member }

theorem Readable.nodup (readable : (table entries).Readable) :
    (entries.map Prod.fst).Nodup := (keysDistinct_table_iff.mp readable.distinct).1

end Value

end Workflow
