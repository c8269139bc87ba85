import Workflow.Proofs.Graph.Ascending

/-!
Sorting by keys keeps items with equal keys in their order, so it does not matter whether some of
the items are left out before it or after it. Main statement: an item that has an id of its own goes
where its id belongs, and all other items stay as they are.
-/

namespace Workflow

variable {α : Type}

/-! ## Leaving items out -/

/-- An item goes right before the first of the sorted items that may come after it. -/
theorem exists_sortByKey_cons (key : α → String × String) (item : α) (items : List α) :
    ∃ before after, sortByKey key (item :: items) = before ++ item :: after ∧
      sortByKey key items = before ++ after ∧
      (∀ other ∈ before, ¬ KeyLe (key item) (key other)) ∧
      ∀ other ∈ after, KeyLe (key item) (key other) := by
  have trans (a b c : α) (first : decide (KeyLe (key a) (key b)) = true)
      (second : decide (KeyLe (key b) (key c)) = true) :
      decide (KeyLe (key a) (key c)) = true :=
    decide_eq_true (KeyLe.trans _ _ _ (of_decide_eq_true first) (of_decide_eq_true second))
  have total (a b : α) :
      (decide (KeyLe (key a) (key b)) || decide (KeyLe (key b) (key a))) = true := by
    simpa using KeyLe.total (key a) (key b)
  obtain ⟨before, after, sorted, rest, below⟩ := List.mergeSort_cons trans total item items
  have pairwise := List.pairwise_map.mp (sortByKey_pairwise key (item :: items))
  have sorted' : sortByKey key (item :: items) = before ++ item :: after := sorted
  rw [sorted'] at pairwise
  refine ⟨before, after, sorted, rest, ?_, ?_⟩
  · intro other member
    simpa using below other member
  · exact (List.pairwise_cons.mp (List.pairwise_append.mp pairwise).2.1).1

theorem append_inj_of_test {test : α → Prop} [DecidablePred test]
    {before after before' after' : List α} (same : before ++ after = before' ++ after')
    (fails : ∀ item ∈ before, ¬ test item) (passes : ∀ item ∈ after, test item)
    (fails' : ∀ item ∈ before', ¬ test item) (passes' : ∀ item ∈ after', test item) :
    before = before' ∧ after = after' := by
  have cut {first second : List α} (fails : ∀ item ∈ first, ¬ test item)
      (passes : ∀ item ∈ second, test item) : (first ++ second).filter (test ·) = second := by
    rw [List.filter_append, List.filter_eq_nil_iff.mpr (by simpa using fails),
      List.filter_eq_self.mpr (by simpa using passes), List.nil_append]
  have last : after = after' := by rw [← cut fails passes, same, cut fails' passes']
  subst last
  exact ⟨List.append_cancel_right same, rfl⟩

/-- Of items with equal keys the one that came first stays first, so nothing is lost by leaving
items out. -/
theorem filter_sortByKey (key : α → String × String) (keep : α → Bool) (items : List α) :
    (sortByKey key items).filter keep = sortByKey key (items.filter keep) := by
  induction items with
  | nil => simp [sortByKey]
  | cons item items ih =>
      obtain ⟨before, after, sorted, rest, below, above⟩ := exists_sortByKey_cons key item items
      rw [rest, List.filter_append] at ih
      rw [sorted, List.filter_append]
      cases kept : keep item with
      | false =>
          rw [List.filter_cons_of_neg (by simp [kept]), ih,
            List.filter_cons_of_neg (by simp [kept])]
      | true =>
          rw [List.filter_cons_of_pos kept, List.filter_cons_of_pos kept]
          obtain ⟨before', after', sorted', rest', below', above'⟩ :=
            exists_sortByKey_cons key item (items.filter keep)
          obtain ⟨rfl, rfl⟩ := append_inj_of_test (ih.trans rest')
            (fun other member => below other (List.mem_filter.mp member).1)
            (fun other member => above other (List.mem_filter.mp member).1) below' above'
          exact sorted'.symm

/-! ## One more item -/

namespace Inserted

variable {β : Type} {item : α} {items more : List α}

theorem map (inserted : Inserted item items more) (f : α → β) :
    Inserted (f item) (items.map f) (more.map f) := by
  obtain ⟨before, after, rfl, rfl⟩ := inserted
  exact ⟨before.map f, after.map f, List.map_append, List.map_append⟩

theorem append_right (inserted : Inserted item items more) (others : List α) :
    Inserted item (items ++ others) (more ++ others) := by
  obtain ⟨before, after, rfl, rfl⟩ := inserted
  exact ⟨before, after ++ others, List.append_assoc .., List.append_assoc ..⟩

end Inserted

/-- The list `more` is the other one with the item put in after all smaller ids and before all
greater ones, where no id equals the item's. -/
def Placed (id : α → String) (item : α) (items more : List α) : Prop :=
  ∃ before after, items = before ++ after ∧ more = before ++ item :: after ∧
    (∀ other ∈ before, id other < id item) ∧ ∀ other ∈ after, id item < id other

theorem placed_sortByKey (key : α → String × String) {item : α} {items more : List α}
    (inserted : Inserted item items more) (own : ∀ other ∈ items, (key other).1 ≠ (key item).1) :
    Placed (fun other => (key other).1) item (sortByKey key items) (sortByKey key more) := by
  have member : item ∈ sortByKey key more :=
    mem_sortByKey.mpr (inserted.perm.mem_iff.mpr List.mem_cons_self)
  obtain ⟨before, after, split⟩ := List.append_of_mem member
  have perm : (before ++ after).Perm items := by
    refine List.Perm.cons_inv (a := item) ?_
    calc
      (item :: (before ++ after)).Perm (before ++ item :: after) := List.perm_middle.symm
      before ++ item :: after = sortByKey key more := split.symm
      (sortByKey key more).Perm more := sortByKey_perm key more
      more.Perm (item :: items) := inserted.perm
  have differs : ∀ other ∈ before ++ after, (key other).1 ≠ (key item).1 :=
    fun other listed => own other (perm.mem_iff.mp listed)
  have rest : sortByKey key items = before ++ after := by
    have kept : more.filter (fun other => (key other).1 ≠ (key item).1) = items := by
      obtain ⟨first, second, rfl, rfl⟩ := inserted
      rw [List.filter_append, List.filter_cons_of_neg (by simp), ← List.filter_append]
      exact List.filter_eq_self.mpr (by simpa using own)
    calc
      sortByKey key items
          = (sortByKey key more).filter (fun other => (key other).1 ≠ (key item).1) := by
            rw [filter_sortByKey, kept]
      _ = (before ++ after).filter (fun other => (key other).1 ≠ (key item).1) := by
            rw [split, List.filter_append, List.filter_cons_of_neg (by simp), ← List.filter_append]
      _ = before ++ after := List.filter_eq_self.mpr (by simpa using differs)
  have pairwise := List.pairwise_map.mp (sortByKey_pairwise key more)
  rw [split, List.pairwise_append, List.pairwise_cons] at pairwise
  obtain ⟨-, ⟨above, -⟩, below⟩ := pairwise
  refine ⟨before, after, rest, split, ?_, ?_⟩
  · intro other listed
    have le := below other listed item List.mem_cons_self
    exact le.resolve_right fun same => differs other (List.mem_append_left _ listed) same.1
  · intro other listed
    have le := above other listed
    exact le.resolve_right fun same => differs other (List.mem_append_right _ listed) same.1.symm

namespace Placed

variable {id : α → String} {item : α} {items more : List α}

theorem filter (placed : Placed id item items more) {keep keep' : α → Bool}
    (kept : keep' item = true) (same : ∀ other ∈ items, keep' other = keep other) :
    Placed id item (items.filter keep) (more.filter keep') := by
  obtain ⟨before, after, rfl, rfl, below, above⟩ := placed
  refine ⟨before.filter keep, after.filter keep, List.filter_append .., ?_, ?_, ?_⟩
  · rw [List.filter_append, List.filter_cons_of_pos kept,
      List.filter_congr fun other listed => same other (List.mem_append_left _ listed),
      List.filter_congr fun other listed => same other (List.mem_append_right _ listed)]
  · exact fun other listed => below other (List.mem_filter.mp listed).1
  · exact fun other listed => above other (List.mem_filter.mp listed).1

end Placed

theorem placed_ascendingSet {text : String} {texts more : List String}
    (members : ∀ other, other ∈ more ↔ other = text ∨ other ∈ texts) (own : text ∉ texts) :
    Placed (fun other => other) text (ascendingSet texts) (ascendingSet more) := by
  have sorted := ascendingSet_pairwise texts
  have sorted' := ascendingSet_pairwise more
  have perm : (ascendingSet more).Perm (text :: ascendingSet texts) := by
    rw [List.perm_ext_iff_of_nodup (ascendingSet_nodup more)
      (List.nodup_cons.mpr ⟨mt mem_ascendingSet.mp own, ascendingSet_nodup texts⟩)]
    intro other
    rw [mem_ascendingSet, members, List.mem_cons, mem_ascendingSet]
  have antisymm (a b : String) (le : a < b) (ge : b < a) : a = b := absurd ge (String.lt_asymm le)
  obtain ⟨before, after, rest, split⟩ := inserted_of_pairwise antisymm sorted sorted' perm
  rw [split, List.pairwise_append, List.pairwise_cons] at sorted'
  obtain ⟨-, ⟨above, -⟩, below⟩ := sorted'
  refine ⟨before, after, rest, split, ?_, above⟩
  exact fun other listed => below other listed text List.mem_cons_self

end Workflow
