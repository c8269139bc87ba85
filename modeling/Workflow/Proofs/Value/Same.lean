import Workflow.Proofs.Value.Plain
import Workflow.Value.Same

/-!
Values with one sorted form are the same. A NaN is the same as nothing, so this holds of values
without one.
-/

namespace Workflow

theorem Binary64.same_self {x : Binary64} (number : x ≠ .nan) : x.same x = true := by
  cases x <;> simp_all [same]

theorem Moment.same_self (m : Moment) : m.same m = true := by
  cases m <;> simp [same, Stamp.same]

namespace Value

/-- The value holds no NaN. -/
inductive NanFree : Value → Prop
  | null : NanFree .null
  | bool (b : Bool) : NanFree (.bool b)
  | int (n : Int) : NanFree (.int n)
  | real {x : Binary64} (number : x ≠ .nan) : NanFree (.real x)
  | text (s : String) : NanFree (.text s)
  | moment (m : Moment) : NanFree (.moment m)
  | list {items : List Value} (inside : ∀ item ∈ items, NanFree item) : NanFree (.list items)
  | table {entries : Entries} (inside : ∀ entry ∈ entries, NanFree entry.2) :
      NanFree (.table entries)

attribute [simp] NanFree.null NanFree.bool NanFree.int NanFree.text NanFree.moment

@[simp]
theorem nanFree_list_iff {items : List Value} :
    (list items).NanFree ↔ ∀ item ∈ items, item.NanFree := by
  constructor
  · rintro (_ | _ | _ | _ | _ | _ | inside)
    exact inside
  · exact .list

@[simp]
theorem nanFree_table_iff {entries : Entries} :
    (table entries).NanFree ↔ ∀ entry ∈ entries, entry.2.NanFree := by
  constructor
  · rintro (_ | _ | _ | _ | _ | _ | _ | inside)
    exact inside
  · exact .table

theorem NanFree.reordered {v w : Value} (reordered : Reordered v w) (numbers : v.NanFree) :
    w.NanFree := by
  induction reordered with
  | refl v => exact numbers
  | trans _ _ first second => exact second (first numbers)
  | keys perm => simpa [perm.mem_iff] using numbers
  | item before after _ ih =>
      simp only [nanFree_list_iff, List.forall_mem_append, List.forall_mem_cons] at numbers ⊢
      exact ⟨numbers.1, ih numbers.2.1, numbers.2.2⟩
  | entry before after key _ ih =>
      simp only [nanFree_table_iff, List.forall_mem_append, List.forall_mem_cons] at numbers ⊢
      exact ⟨numbers.1, ih numbers.2.1, numbers.2.2⟩

theorem sameItems_of_sorted_eq {items others : List Value}
    (each : ∀ item ∈ items, ∀ w, w.KeysDistinct → item.sorted = w.sorted → item.same w = true)
    (distinct : ∀ other ∈ others, other.KeysDistinct)
    (sorted : items.map sorted = others.map sorted) : sameItems items others = true := by
  induction items generalizing others with
  | nil =>
      obtain rfl := List.map_eq_nil_iff.mp sorted.symm
      rfl
  | cons item items ih =>
      obtain ⟨other, others, rfl, first, rest⟩ := List.map_eq_cons_iff.mp sorted.symm
      rw [List.forall_mem_cons] at each distinct
      rw [sameItems, each.1 other distinct.1 first.symm, ih each.2 distinct.2 rest.symm]
      rfl

theorem sameEntries_of_lookup {entries others : Entries}
    (found : ∀ entry ∈ entries, ∃ w, others.lookup entry.1 = some w ∧ entry.2.same w = true) :
    sameEntries entries others = true := by
  induction entries with
  | nil => rfl
  | cons entry entries ih =>
      rw [List.forall_mem_cons] at found
      obtain ⟨⟨w, there, same⟩, later⟩ := found
      rw [sameEntries, ih later, there]
      simp [same]

/-- A value is the same as any value that has its entries in another order. -/
theorem same_of_sorted_eq {v w : Value} (numbers : v.NanFree) (distinct : w.KeysDistinct)
    (sorted : v.sorted = w.sorted) : v.same w = true := by
  induction numbers generalizing w with
  | null | bool | int | real | text | moment =>
      cases w <;> simp_all [Value.sorted, same, asNumber, sameNumber, Binary64.same_self,
        Moment.same_self]
  | @list items _ ih =>
      cases w with
      | list others =>
          rw [sorted_list, sorted_list, list.injEq] at sorted
          rw [same]
          exact sameItems_of_sorted_eq (fun item member w => ih item member)
            (keysDistinct_list_iff.mp distinct) sorted
      | _ => cases sorted
  | @table entries _ ih =>
      cases w with
      | table others =>
          rw [sorted_table, sorted_table, table.injEq] at sorted
          have perm := perm_of_sortEntries_eq sorted
          have lengths := perm.length_eq
          rw [List.length_map, List.length_map] at lengths
          rw [same, lengths, beq_self_eq_true, Bool.true_and]
          apply sameEntries_of_lookup
          intro entry member
          obtain ⟨other, listed, found⟩ :=
            List.mem_map.mp (perm.mem_iff.mp (List.mem_map_of_mem member))
          obtain ⟨key, value⟩ := Prod.mk.inj found
          have inside := keysDistinct_table_iff.mp distinct
          refine ⟨other.2, ?_, ih entry member (inside.2 other listed) value.symm⟩
          rw [← key]
          exact Entries.lookup_of_mem inside.1 listed
      | _ => cases sorted

end Value

end Workflow
