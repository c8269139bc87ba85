import Workflow.Proofs.Paired
import Workflow.Proofs.Value.Plain

/-!
What reordering says of the parts of a value: the items of a list are reordered one by one, the
entries of a table up to their order, and a scalar stays as it is.
-/

namespace Workflow.Value

/-- The value holds nothing else and is not `null`. -/
inductive Scalar : Value → Prop
  | bool (b : Bool) : Scalar (.bool b)
  | int (n : Int) : Scalar (.int n)
  | real (x : Binary64) : Scalar (.real x)
  | text (s : String) : Scalar (.text s)

attribute [simp] Scalar.bool Scalar.int Scalar.real Scalar.text

namespace Scalar

variable {v : Value}

theorem ne_null (scalar : v.Scalar) : v ≠ .null := by
  cases scalar <;> simp

theorem keysDistinct (scalar : v.Scalar) : v.KeysDistinct := by
  cases scalar <;> simp

theorem dropNulls_eq (scalar : v.Scalar) : v.dropNulls = v := by
  cases scalar <;> rfl

end Scalar

/-- The same key, and the same value up to the order of keys. -/
def SameEntry (entry other : String × Value) : Prop :=
  entry.1 = other.1 ∧ Reordered entry.2 other.2

namespace Reordered

variable {v w : Value} {items others : List Value} {entries entries' : Entries}

/-! ## From a value to its parts -/

theorem eq_of_scalar (reordered : Reordered v w) (scalar : v.Scalar) : w = v := by
  induction reordered with
  | refl v => rfl
  | trans _ _ first second =>
      have same := first scalar
      rw [same] at second
      exact second scalar
  | keys | item | entry => cases scalar

theorem exists_list (reordered : Reordered (.list items) w)
    (distinct : (Value.list items).KeysDistinct) :
    ∃ others, w = .list others ∧ List.Forall₂ Reordered items others := by
  have same := (reordered.sorted_eq distinct).1
  cases w with
  | list others =>
      rw [sorted_list, sorted_list, list.injEq, map_eq_map_iff_forall₂] at same
      refine ⟨others, rfl, ?_⟩
      have paired := (List.forall₂_and_left ..).mpr ⟨keysDistinct_list_iff.mp distinct, same⟩
      exact paired.imp fun _ _ both => (reordered_iff_sorted_eq both.1).mpr both.2
  | _ => cases same

/-- The entries of both tables are the same with their values sorted. -/
theorem sortedEntries_perm (reordered : Reordered (.table entries) (.table entries'))
    (distinct : (table entries).KeysDistinct) :
    (entries.map fun entry => (entry.1, entry.2.sorted)).Perm
      (entries'.map fun entry => (entry.1, entry.2.sorted)) := by
  have same := (reordered.sorted_eq distinct).1
  rw [sorted_table, sorted_table, table.injEq] at same
  exact perm_of_sortEntries_eq same

theorem eq_table (reordered : Reordered (.table entries) w)
    (distinct : (table entries).KeysDistinct) : ∃ others, w = .table others := by
  have same := (reordered.sorted_eq distinct).1
  cases w with
  | table others => exact ⟨others, rfl⟩
  | _ => cases same

theorem exists_entries (reordered : Reordered (.table entries) (.table entries'))
    (distinct : (table entries).KeysDistinct) :
    ∃ middle, List.Forall₂ SameEntry entries middle ∧ middle.Perm entries' := by
  have perm := reordered.sortedEntries_perm distinct
  have split : Relation.Comp (fun sorts middle => sorts =
      List.map (fun entry : String × Value => (entry.1, entry.2.sorted)) middle) List.Perm
        (entries.map fun entry => (entry.1, entry.2.sorted)) entries' := by
    rwa [List.eq_map_comp_perm]
  obtain ⟨middle, sorts, perm⟩ := split
  refine ⟨middle, ?_, perm⟩
  rw [map_eq_map_iff_forall₂] at sorts
  have inside := (keysDistinct_table_iff.mp distinct).2
  refine ((List.forall₂_and_left ..).mpr ⟨inside, sorts⟩).imp ?_
  intro entry other both
  obtain ⟨key, value⟩ := Prod.mk.inj both.2
  exact ⟨key, (reordered_iff_sorted_eq both.1).mpr value⟩

/-- A key has values that are reordered, or it has none in either table. -/
theorem lookup (reordered : Reordered (.table entries) (.table entries'))
    (distinct : (table entries).KeysDistinct) (key : String) :
    Option.Rel Reordered (entries.lookup key) (entries'.lookup key) := by
  have perm := reordered.sortedEntries_perm distinct
  have distinct' := (reordered.sorted_eq distinct).2
  cases found : entries.lookup key with
  | some v =>
      have member := Entries.mem_of_lookup found
      have sorts : (key, v.sorted) ∈ entries'.map fun entry => (entry.1, entry.2.sorted) :=
        perm.mem_iff.mp (List.mem_map.mpr ⟨(key, v), member, rfl⟩)
      obtain ⟨⟨key', w⟩, member', same⟩ := List.mem_map.mp sorts
      obtain ⟨rfl, value⟩ := Prod.mk.inj same
      rw [Entries.lookup_of_mem (keysDistinct_table_iff.mp distinct').1 member']
      exact .some ((reordered_iff_sorted_eq (distinct.entry member)).mpr value.symm)
  | none =>
      cases found' : entries'.lookup key with
      | none => exact .none
      | some w =>
          have sorts : (key, w.sorted) ∈ entries.map fun entry => (entry.1, entry.2.sorted) :=
            perm.mem_iff.mpr (List.mem_map.mpr ⟨(key, w), Entries.mem_of_lookup found', rfl⟩)
          obtain ⟨⟨key', v⟩, member, same⟩ := List.mem_map.mp sorts
          obtain ⟨rfl, -⟩ := Prod.mk.inj same
          rw [Entries.lookup_of_mem (keysDistinct_table_iff.mp distinct).1 member] at found
          cases found

theorem eq_or_collections (reordered : Reordered v w) (distinct : v.KeysDistinct) :
    w = v ∨ (∃ items others, v = .list items ∧ w = .list others) ∨
      ∃ entries others, v = .table entries ∧ w = .table others := by
  cases v with
  | null => exact .inl (reordered.eq_null_iff.mp rfl)
  | bool b => exact .inl (reordered.eq_of_scalar (.bool b))
  | int n => exact .inl (reordered.eq_of_scalar (.int n))
  | real x => exact .inl (reordered.eq_of_scalar (.real x))
  | text s => exact .inl (reordered.eq_of_scalar (.text s))
  | moment m =>
      have same := (reordered.sorted_eq distinct).1
      cases w with
      | moment m' => exact .inl same.symm
      | _ => cases same
  | list items =>
      obtain ⟨others, rfl, -⟩ := reordered.exists_list distinct
      exact .inr (.inl ⟨items, others, rfl, rfl⟩)
  | table entries =>
      obtain ⟨others, rfl⟩ := reordered.eq_table distinct
      exact .inr (.inr ⟨entries, others, rfl, rfl⟩)

/-! ## From parts to a value -/

theorem list_of_forall₂ (paired : List.Forall₂ Reordered items others) :
    Reordered (.list items) (.list others) := by
  have after : ∀ before : List Value,
      Reordered (.list (before ++ items)) (.list (before ++ others)) := by
    induction paired with
    | nil => exact fun _ => .refl _
    | @cons v w items others first _ ih =>
        intro before
        have rest := ih (before ++ [w])
        rw [List.append_assoc, List.append_assoc] at rest
        exact (Reordered.item before items first).trans rest
  exact after []

theorem table_of_forall₂ (paired : List.Forall₂ SameEntry entries entries') :
    Reordered (.table entries) (.table entries') := by
  have after : ∀ before : Entries,
      Reordered (.table (before ++ entries)) (.table (before ++ entries')) := by
    induction paired with
    | nil => exact fun _ => .refl _
    | @cons entry other entries others first _ ih =>
        intro before
        obtain ⟨key, v⟩ := entry
        obtain ⟨key', w⟩ := other
        obtain ⟨rfl, value⟩ := first
        have rest := ih (before ++ [(key, w)])
        rw [List.append_assoc, List.append_assoc] at rest
        exact (Reordered.entry before entries key value).trans rest
  exact after []

end Reordered

end Workflow.Value
