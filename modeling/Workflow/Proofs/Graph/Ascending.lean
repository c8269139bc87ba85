import Workflow.Graph.Ascending
import Workflow.Proofs.Paired
import Mathlib.Data.List.Sort

/-!
Lists in ascending order depend on what they are made of, and not on its order: sorting forgets the
order of texts, and sorting by keys forgets the order of items as far as the keys tell them apart.
-/

namespace Workflow

variable {α β : Type}

/-! ## One more item -/

/-- The list `more` is the other one with the item put in somewhere. -/
def Inserted (item : α) (items more : List α) : Prop :=
  ∃ before after, items = before ++ after ∧ more = before ++ item :: after

theorem Inserted.perm {item : α} {items more : List α} (inserted : Inserted item items more) :
    more.Perm (item :: items) := by
  obtain ⟨before, after, rfl, rfl⟩ := inserted
  exact List.perm_middle

/-- Of two lists in one order, one with an item more, the longer one is the other one with the item
put in. -/
theorem inserted_of_pairwise {le : α → α → Prop} (antisymm : ∀ a b, le a b → le b a → a = b)
    {item : α} {items more : List α} (sorted : items.Pairwise le) (sorted' : more.Pairwise le)
    (perm : more.Perm (item :: items)) : Inserted item items more := by
  have member : item ∈ more := perm.mem_iff.mpr List.mem_cons_self
  obtain ⟨before, after, rfl⟩ := List.append_of_mem member
  have rest : (before ++ after).Perm items := (List.perm_middle.symm.trans perm).cons_inv
  have restSorted : (before ++ after).Pairwise le :=
    sorted'.sublist ((List.sublist_cons_self item after).append_left before)
  refine ⟨before, after, ?_, rfl⟩
  exact rest.symm.eq_of_pairwise (fun a b _ _ => antisymm a b) sorted restSorted

/-! ## Texts -/

theorem ascending_perm (texts : List String) : (ascending texts).Perm texts :=
  List.mergeSort_perm texts _

theorem mem_ascending {texts : List String} {text : String} :
    text ∈ ascending texts ↔ text ∈ texts := (ascending_perm texts).mem_iff

theorem ascending_pairwise (texts : List String) : (ascending texts).Pairwise (· ≤ ·) :=
  List.pairwise_mergeSort' (· ≤ ·) texts

theorem ascending_eq_of_perm {texts others : List String} (perm : texts.Perm others) :
    ascending texts = ascending others := by
  apply List.Perm.eq_of_pairwise' (ascending_pairwise texts) (ascending_pairwise others)
  calc
    (ascending texts).Perm texts := ascending_perm texts
    texts.Perm others := perm
    others.Perm (ascending others) := (ascending_perm others).symm

theorem inserted_ascending {text : String} {texts more : List String}
    (perm : more.Perm (text :: texts)) : Inserted text (ascending texts) (ascending more) := by
  apply inserted_of_pairwise (fun _ _ => String.le_antisymm) (ascending_pairwise texts)
    (ascending_pairwise more)
  calc
    (ascending more).Perm more := ascending_perm more
    more.Perm (text :: texts) := perm
    (text :: texts).Perm (text :: ascending texts) := (ascending_perm texts).symm.cons text

/-! ## Sets of texts -/

theorem mem_dropRepeats [DecidableEq α] {items : List α} {item : α} :
    item ∈ dropRepeats items ↔ item ∈ items := by
  induction items using dropRepeats.induct with
  | case1 => rw [dropRepeats]
  | case2 a => rw [dropRepeats]
  | case3 a rest ih =>
      rw [dropRepeats, if_pos rfl, ih]
      simp
  | case4 a b rest differ ih =>
      rw [dropRepeats, if_neg differ, List.mem_cons, ih, ← List.mem_cons]

theorem dropRepeats_pairwise {texts : List String} (sorted : texts.Pairwise (· ≤ ·)) :
    (dropRepeats texts).Pairwise (· < ·) := by
  induction texts using dropRepeats.induct with
  | case1 => exact List.Pairwise.nil
  | case2 a => exact List.pairwise_singleton _ a
  | case3 a rest ih =>
      rw [dropRepeats, if_pos rfl]
      exact ih sorted.tail
  | case4 a b rest differ ih =>
      rw [dropRepeats, if_neg differ]
      obtain ⟨least, tail⟩ := List.pairwise_cons.mp sorted
      refine List.pairwise_cons.mpr ⟨?_, ih tail⟩
      intro text member
      have above : b ≤ text := by
        rcases List.mem_cons.mp (mem_dropRepeats.mp member) with rfl | later
        · exact String.le_refl _
        · exact (List.pairwise_cons.mp tail).1 text later
      apply String.not_le.mp
      intro below
      have same : b ≤ a := String.le_trans above below
      exact differ (String.le_antisymm (least b List.mem_cons_self) same)

theorem mem_ascendingSet {texts : List String} {text : String} :
    text ∈ ascendingSet texts ↔ text ∈ texts := mem_dropRepeats.trans mem_ascending

theorem ascendingSet_pairwise (texts : List String) : (ascendingSet texts).Pairwise (· < ·) :=
  dropRepeats_pairwise (ascending_pairwise texts)

theorem ascendingSet_nodup (texts : List String) : (ascendingSet texts).Nodup :=
  (ascendingSet_pairwise texts).imp String.ne_of_lt

theorem ascendingSet_eq_of_mem_iff {texts others : List String}
    (same : ∀ text, text ∈ texts ↔ text ∈ others) : ascendingSet texts = ascendingSet others := by
  apply List.Pairwise.eq_of_mem_iff (ascendingSet_pairwise texts) (ascendingSet_pairwise others)
  intro text
  calc
    text ∈ ascendingSet texts ↔ text ∈ texts := mem_ascendingSet
    _ ↔ text ∈ others := same text
    _ ↔ text ∈ ascendingSet others := mem_ascendingSet.symm

/-! ## Sorting by keys -/

/-- The order of keys, part by part. -/
def KeyLe (key other : String × String) : Prop :=
  key.1 < other.1 ∨ (key.1 = other.1 ∧ key.2 ≤ other.2)

instance (key other : String × String) : Decidable (KeyLe key other) :=
  inferInstanceAs (Decidable (_ ∨ _ ∧ _))

namespace KeyLe

theorem trans (key other third : String × String) (first : KeyLe key other)
    (second : KeyLe other third) : KeyLe key third := by
  rcases first with less | ⟨same, le⟩
  · rcases second with less' | ⟨same', -⟩
    · exact .inl (String.lt_trans less less')
    · exact .inl (same' ▸ less)
  · rcases second with less' | ⟨same', le'⟩
    · exact .inl (same ▸ less')
    · exact .inr ⟨same.trans same', String.le_trans le le'⟩

theorem total (key other : String × String) : KeyLe key other ∨ KeyLe other key := by
  by_cases less : key.1 < other.1
  · exact .inl (.inl less)
  · by_cases more : other.1 < key.1
    · exact .inr (.inl more)
    · have same := String.le_antisymm (String.not_lt.mp more) (String.not_lt.mp less)
      exact (String.le_total key.2 other.2).imp (fun le => .inr ⟨same, le⟩)
        (fun le => .inr ⟨same.symm, le⟩)

theorem antisymm (key other : String × String) (first : KeyLe key other)
    (second : KeyLe other key) : key = other := by
  rcases first with less | ⟨same, le⟩
  · rcases second with less' | ⟨same', -⟩
    · exact absurd less' (String.lt_asymm less)
    · exact absurd (same' ▸ less) (String.lt_irrefl _)
  · rcases second with less' | ⟨-, le'⟩
    · exact absurd (same ▸ less') (String.lt_irrefl _)
    · exact Prod.ext same (String.le_antisymm le le')

instance : IsTrans (String × String) KeyLe := ⟨trans⟩

instance : Std.Total KeyLe := ⟨total⟩

instance : Std.Antisymm KeyLe := ⟨antisymm⟩

end KeyLe

variable {key : α → String × String}

theorem sortByKey_perm (key : α → String × String) (items : List α) :
    (sortByKey key items).Perm items := List.mergeSort_perm items _

theorem mem_sortByKey {items : List α} {item : α} : item ∈ sortByKey key items ↔ item ∈ items :=
  (sortByKey_perm key items).mem_iff

theorem sortByKey_pairwise (key : α → String × String) (items : List α) :
    ((sortByKey key items).map key).Pairwise KeyLe := by
  have sorted : (sortByKey key items).Pairwise fun a b => KeyLe (key a) (key b) :=
    List.pairwise_mergeSort' (fun a b => KeyLe (key a) (key b)) items
  exact List.pairwise_map.mpr sorted

/-- The first parts of the keys ascend. -/
theorem sortByKey_pairwise_fst (key : α → String × String) (items : List α) :
    ((sortByKey key items).map fun item => (key item).1).Pairwise (· ≤ ·) := by
  have sorted := List.pairwise_map.mp (sortByKey_pairwise key items)
  apply List.pairwise_map.mpr
  apply sorted.imp
  intro a b le
  rcases le with less | ⟨same, -⟩
  · exact String.not_lt.mp (String.lt_asymm less)
  · exact same ▸ String.le_refl _

theorem inserted_sortByKey (injective : ∀ a b, key a = key b → a = b) {item : α}
    {items more : List α} (perm : more.Perm (item :: items)) :
    Inserted item (sortByKey key items) (sortByKey key more) := by
  have antisymm (a b : α) (le : KeyLe (key a) (key b)) (ge : KeyLe (key b) (key a)) : a = b :=
    injective a b (KeyLe.antisymm _ _ le ge)
  apply inserted_of_pairwise antisymm (List.pairwise_map.mp (sortByKey_pairwise key items))
    (List.pairwise_map.mp (sortByKey_pairwise key more))
  calc
    (sortByKey key more).Perm more := sortByKey_perm key more
    more.Perm (item :: items) := perm
    (item :: items).Perm (item :: sortByKey key items) :=
      (sortByKey_perm key items).symm.cons item

theorem sortByKey_map (key : β → String × String) (f : α → β) (items : List α) :
    sortByKey key (items.map f) = (sortByKey (key ∘ f) items).map f := by
  rw [sortByKey, sortByKey, List.map_mergeSort]
  intro a _ b _
  rfl

/-- Only the order of the keys counts, and not what they are. -/
theorem sortByKey_congr {key key' : α → String × String}
    (same : ∀ a b, KeyLe (key a) (key b) ↔ KeyLe (key' a) (key' b)) (items : List α) :
    sortByKey key items = sortByKey key' items := by
  have le : (fun a b => decide (KeyLe (key a) (key b))) =
      fun a b => decide (KeyLe (key' a) (key' b)) := by
    funext a b
    exact decide_eq_decide.mpr (same a b)
  exact congrArg (fun le => items.mergeSort le) le

/-- Sorting two lists whose items pair up, in whatever order, pairs them up one by one, where the
keys say as much as the pairing does. -/
theorem forall₂_sortByKey {key' : β → String × String} {pair : α → β → Prop}
    {items middle : List α} {others : List β} (perm : items.Perm middle)
    (paired : List.Forall₂ pair middle others)
    (reads : ∀ a ∈ items, ∀ b ∈ others, pair a b ↔ key a = key' b) :
    List.Forall₂ pair (sortByKey key items) (sortByKey key' others) := by
  have keyed : middle.map key = others.map key' := by
    rw [map_eq_map_iff_forall₂]
    rw [List.forall₂_iff_zip] at paired ⊢
    refine ⟨paired.1, ?_⟩
    intro a b member
    obtain ⟨left, right⟩ := List.of_mem_zip member
    exact (reads _ (perm.mem_iff.mpr left) _ right).mp (paired.2 member)
  have sorted : (sortByKey key items).map key = (sortByKey key' others).map key' := by
    apply List.Perm.eq_of_pairwise' (sortByKey_pairwise key items)
      (sortByKey_pairwise key' others)
    calc
      ((sortByKey key items).map key).Perm (items.map key) :=
        (sortByKey_perm key items).map key
      (items.map key).Perm (middle.map key) := perm.map key
      middle.map key = others.map key' := keyed
      (others.map key').Perm ((sortByKey key' others).map key') :=
        ((sortByKey_perm key' others).map key').symm
  rw [map_eq_map_iff_forall₂, List.forall₂_iff_zip] at sorted
  refine List.forall₂_iff_zip.mpr ⟨sorted.1, ?_⟩
  intro a b member
  obtain ⟨left, right⟩ := List.of_mem_zip member
  exact (reads _ (mem_sortByKey.mp left) _ (mem_sortByKey.mp right)).mpr (sorted.2 member)

end Workflow
