import Workflow.Proofs.Success
import Workflow.Proofs.Toml.Focus
import Workflow.Toml.Reader

/-!
Documents under construction. A table that hosts new names, which have no marks yet, takes them one
after the other: entries, tables and arrays of tables. What each of them changes lies below its own
name, so the names that are still to come stay without marks.
-/

namespace Workflow.Toml

/-! ## Marks -/

/-- The key is one of the names under another key, or lies below one. -/
def Below (key : Key) (names : List String) (k : Key) : Prop :=
  ∃ name ∈ names, key ++ [name] <+: k

theorem Below.under {key k : Key} {names : List String} (below : Below key names k) :
    key <+: k ∧ key ≠ k := by
  obtain ⟨name, -, under⟩ := below
  refine ⟨(List.prefix_append key [name]).trans under, ?_⟩
  rintro rfl
  have shorter := under.length_le
  rw [List.length_append, List.length_singleton] at shorter
  omega

theorem not_below_of_above {key k : Key} {names : List String} (above : k <+: key) :
    ¬ Below key names k := by
  intro below
  exact below.under.2 (below.under.1.eq_of_length_le above.length_le)

theorem Below.name_eq {key k : Key} {name other : String} (first : key ++ [name] <+: k)
    (second : key ++ [other] <+: k) : name = other := by
  have same := List.prefix_of_prefix_length_le first second (by simp)
  rw [List.prefix_append_right_inj, List.cons_prefix_cons] at same
  exact same.1

/-- The marks are the same but below these names. -/
def Marks.Agree (m m' : Marks) (key : Key) (names : List String) : Prop :=
  ∀ k, ¬ Below key names k →
    (k ∈ m'.frozen ↔ k ∈ m.frozen) ∧ (k ∈ m'.explicit ↔ k ∈ m.explicit)

namespace Marks.Agree

variable {m m' m'' : Marks} {key : Key} {names : List String} {name : String}

theorem refl (m : Marks) (key : Key) (names : List String) : m.Agree m key names :=
  fun _ _ => ⟨Iff.rfl, Iff.rfl⟩

theorem trans (first : m.Agree m' key names) (second : m'.Agree m'' key names) :
    m.Agree m'' key names := fun k other =>
  ⟨(second k other).1.trans (first k other).1, (second k other).2.trans (first k other).2⟩

theorem append {more : List String} (first : m.Agree m' key names)
    (second : m'.Agree m'' key more) : m.Agree m'' key (names ++ more) := by
  intro k other
  have notFirst : ¬ Below key names k := fun ⟨name, listed, under⟩ =>
    other ⟨name, List.mem_append_left more listed, under⟩
  have notSecond : ¬ Below key more k := fun ⟨name, listed, under⟩ =>
    other ⟨name, List.mem_append_right names listed, under⟩
  exact ⟨(second k notSecond).1.trans (first k notFirst).1,
    (second k notSecond).2.trans (first k notFirst).2⟩

/-- What lies below a name's own names lies below the name. -/
theorem inner (first : m.Agree m' key [name]) (second : m'.Agree m'' (key ++ [name]) names) :
    m.Agree m'' key [name] := by
  intro k other
  have notSecond : ¬ Below (key ++ [name]) names k := fun below =>
    other ⟨name, List.mem_singleton_self name, below.under.1⟩
  exact ⟨(second k notSecond).1.trans (first k other).1,
    (second k notSecond).2.trans (first k other).2⟩

theorem freeze (m : Marks) (key : Key) (name : String) :
    m.Agree (m.freeze (key ++ [name])) key [name] := by
  intro k other
  refine ⟨?_, Iff.rfl⟩
  rw [Marks.freeze, List.mem_cons, or_iff_right]
  rintro rfl
  exact other ⟨name, List.mem_singleton_self name, List.prefix_rfl⟩

theorem opened (m : Marks) (key : Key) (name : String) :
    m.Agree (m.opened (key ++ [name])) key [name] := by
  intro k other
  refine ⟨Iff.rfl, ?_⟩
  rw [Marks.opened, List.mem_cons, or_iff_right]
  rintro rfl
  exact other ⟨name, List.mem_singleton_self name, List.prefix_rfl⟩

theorem clear (m : Marks) (key : Key) (name : String) :
    m.Agree (m.clear (key ++ [name])) key [name] := by
  intro k other
  have kept : (key ++ [name]).isPrefixOf k = false := by
    rw [← Bool.not_eq_true, List.isPrefixOf_iff_prefix]
    exact fun under => other ⟨name, List.mem_singleton_self name, under⟩
  simp [Marks.clear, kept]

end Marks.Agree

theorem Marks.notMem_clear {m : Marks} {key k : Key} (under : key <+: k) :
    k ∉ (m.clear key).frozen ∧ k ∉ (m.clear key).explicit := by
  have cleared := List.isPrefixOf_iff_prefix.mpr under
  simp [Marks.clear, cleared]

theorem Marks.isFrozen_eq_false_iff {m : Marks} {key : Key} :
    m.isFrozen key = false ↔ ∀ k ∈ m.frozen, ¬ k <+: key := by
  simp [isFrozen]

theorem Marks.settle_of_settled {m : Marks} (settled : m.pending = []) : m.settle = m := by
  obtain ⟨frozen, explicit, pending⟩ := m
  obtain rfl : pending = [] := settled
  rfl

/-! ## Tables that take new names -/

namespace Draft

/-- The table at a key may be added to, and has neither entries nor marks for the names. -/
structure Hosts (d : Draft) (key : Key) (cur : Entries) (put : Entries → Entries)
    (names : List String) : Prop where
  focus : Focus key d.root cur put
  settled : d.marks.pending = []
  unfrozen : ∀ k ∈ d.marks.frozen, ¬ k <+: key
  fresh : ∀ k, Below key names k → k ∉ d.marks.frozen ∧ k ∉ d.marks.explicit
  distinct : (cur.map Prod.fst ++ names).Nodup

/-- The table at a key has got these entries, and marks changed below them alone. -/
structure Gains (d d' : Draft) (key : Key) (cur : Entries) (put : Entries → Entries)
    (added : Entries) : Prop where
  root : d'.root = put (cur ++ added)
  settled : d'.marks.pending = []
  marks : d.marks.Agree d'.marks key (added.map Prod.fst)

variable {d d' d'' : Draft} {key : Key} {cur added more : Entries} {put : Entries → Entries}
  {names : List String} {name : String}

theorem Hosts.perm {names' : List String} (hosts : d.Hosts key cur put names)
    (perm : names.Perm names') : d.Hosts key cur put names' where
  focus := hosts.focus
  settled := hosts.settled
  unfrozen := hosts.unfrozen
  fresh k below := by
    obtain ⟨name, listed, under⟩ := below
    exact hosts.fresh k ⟨name, perm.mem_iff.mpr listed, under⟩
  distinct := (perm.append_left _).nodup_iff.mp hosts.distinct

theorem Hosts.gains (hosts : d.Hosts key cur put (added.map Prod.fst ++ names))
    (gains : d.Gains d' key cur put added) : d'.Hosts key (cur ++ added) put names := by
  refine ⟨?_, gains.settled, ?_, ?_, ?_⟩
  · rw [gains.root]
    exact hosts.focus.after _
  · intro k member above
    have old := (gains.marks k (not_below_of_above above)).1.mp member
    exact hosts.unfrozen k old above
  · intro k below
    obtain ⟨name, listed, under⟩ := below
    have other : ¬ Below key (added.map Prod.fst) k := by
      rintro ⟨name', listed', under'⟩
      obtain rfl := Below.name_eq under under'
      have distinct := hosts.distinct
      rw [List.nodup_append] at distinct
      exact (List.nodup_append.mp distinct.2.1).2.2 name listed' name listed rfl
    have old := hosts.fresh k ⟨name, List.mem_append_right _ listed, under⟩
    exact ⟨mt (gains.marks k other).1.mp old.1, mt (gains.marks k other).2.mp old.2⟩
  · rw [List.map_append, List.append_assoc]
    exact hosts.distinct

theorem Gains.append (first : d.Gains d' key cur put added)
    (second : d'.Gains d'' key (cur ++ added) put more) :
    d.Gains d'' key cur put (added ++ more) := by
  refine ⟨?_, second.settled, ?_⟩
  · rw [second.root, List.append_assoc]
  · rw [List.map_append]
    exact first.marks.append second.marks

theorem Hosts.notMem (hosts : d.Hosts key cur put (name :: names)) : name ∉ cur.map Prod.fst :=
  fun member =>
    (List.nodup_append.mp hosts.distinct).2.2 name member name List.mem_cons_self rfl

/-- The name's own key has no marks, and nothing above it is frozen. -/
theorem Hosts.unfrozen_name (hosts : d.Hosts key cur put (name :: names)) :
    ∀ k ∈ d.marks.frozen, ¬ k <+: key ++ [name] := by
  intro k member above
  rcases List.prefix_concat_iff.mp above with rfl | above
  · exact (hosts.fresh _ ⟨name, List.mem_cons_self, List.prefix_rfl⟩).1 member
  · exact hosts.unfrozen k member above

/-- A name that is to come leads to an empty table, which takes any names. -/
theorem Hosts.inner (hosts : d.Hosts key cur put (name :: names)) {inside : List String}
    (distinct : inside.Nodup) :
    d.Hosts (key ++ [name]) [] (fun new => put (cur ++ [(name, .table new)])) inside where
  focus := hosts.focus.append (.new hosts.notMem)
  settled := hosts.settled
  unfrozen := hosts.unfrozen_name
  fresh k below := hosts.fresh k ⟨name, List.mem_cons_self, below.under.1⟩
  distinct := distinct

/-! ## Steps -/

/-- A table takes an entry under its header. -/
theorem exists_add (hosts : d.Hosts key cur put (name :: names)) (header : d.header = key)
    (v : Value) :
    ∃ d', d.add [name] v = .ok d' ∧ d.Gains d' key cur put [(name, v)] ∧ d'.header = key := by
  subst header
  have unfrozen := Marks.isFrozen_eq_false_iff.mpr hosts.unfrozen
  have noKey := Entries.hasKey_eq_false_iff.mpr hosts.notMem
  have root : changeAt true (addEntry name v .overwritten) d.header d.root =
      .ok (put (cur ++ [(name, v)])) := by
    rw [hosts.focus.changeAt, addEntry, noKey, if_neg Bool.false_ne_true,
      Entries.put_of_notMem v hosts.notMem]
    rfl
  refine ⟨⟨put (cur ++ [(name, v)]),
    if holdsMore v then d.marks.freeze (d.header ++ [name]) else d.marks, d.header⟩, ?_, ?_, rfl⟩
  · simp only [add, parents, List.length_singleton, Nat.sub_self, List.range'_zero, List.map_nil,
      List.find?_nil, Marks.defer, List.nil_append, List.dropLast_singleton, List.append_nil,
      unfrozen, Bool.false_eq_true, if_false, List.getLastD_cons, List.getLastD_nil, root,
      Except.ok_andThen]
  · refine ⟨rfl, ?_, ?_⟩
    · dsimp only
      split <;> exact hosts.settled
    · dsimp only
      split
      · exact .freeze _ _ _
      · exact .refl _ _ _

/-- A header opens an empty table. -/
theorem exists_openTable (hosts : d.Hosts key cur put (name :: names)) {inside : List String}
    (distinct : inside.Nodup) :
    ∃ d', d.openTable (key ++ [name]) = .ok d' ∧ d'.header = key ++ [name] ∧
      d'.root = put (cur ++ [(name, .table [])]) ∧ d.marks.Agree d'.marks key [name] ∧
      d'.Hosts (key ++ [name]) [] (fun new => put (cur ++ [(name, .table new)])) inside := by
  have inner := hosts.inner distinct
  have unfrozen := Marks.isFrozen_eq_false_iff.mpr hosts.unfrozen_name
  have implicit : d.marks.isExplicit (key ++ [name]) = false := by
    rw [Marks.isExplicit, ← Bool.not_eq_true, List.contains_iff_mem]
    exact (hosts.fresh _ ⟨name, List.mem_cons_self, List.prefix_rfl⟩).2
  refine ⟨⟨put (cur ++ [(name, .table [])]), d.marks.opened (key ++ [name]), key ++ [name]⟩,
    ?_, rfl, rfl, .opened _ _ _, ?_⟩
  · rw [openTable, Marks.settle_of_settled hosts.settled, inner.focus.changeAt]
    simp only [implicit, unfrozen, Bool.or_false, Bool.false_eq_true, if_false]
    rfl
  · refine ⟨inner.focus.after [], hosts.settled, hosts.unfrozen_name, ?_, distinct⟩
    intro k below
    obtain ⟨noFrozen, noExplicit⟩ := inner.fresh k below
    refine ⟨noFrozen, ?_⟩
    rw [Marks.opened, List.mem_cons, not_or]
    exact ⟨below.under.2.symm, noExplicit⟩

/-- What a table below a name has got, the name has got. -/
theorem Gains.ofInner {sub : Entries} {put' : Entries → Entries} {added : Entries}
    {v : Value} (first : d.marks.Agree d'.marks key [name])
    (inner : d'.Gains d'' (key ++ [name]) sub put' added)
    (whole : put' (sub ++ added) = put (cur ++ [(name, v)])) :
    d.Gains d'' key cur put [(name, v)] where
  root := inner.root.trans whole
  settled := inner.settled
  marks := first.inner inner.marks

/-! ## Arrays of tables -/

/-- The array of tables at a name, which holds the tables `before`, may get another table. It may
not be there yet. -/
structure HostsArray (d : Draft) (key : Key) (cur : Entries) (put : Entries → Entries)
    (name : String) (before : List Value) : Prop where
  absent : name ∉ cur.map Prod.fst
  focus : ∃ whole, Focus key d.root whole put ∧
    appendTable name whole = .ok (cur ++ [(name, .list (before ++ [.table []]))])
  settled : d.marks.pending = []
  unfrozen : ∀ k ∈ d.marks.frozen, ¬ k <+: key ++ [name]

variable {before : List Value}

theorem Hosts.array (hosts : d.Hosts key cur put (name :: names)) :
    d.HostsArray key cur put name [] where
  absent := hosts.notMem
  focus := by
    refine ⟨cur, hosts.focus, ?_⟩
    rw [appendTable, Entries.lookup_eq_none_iff_notMem.mpr hosts.notMem]
    exact congrArg Except.ok (Entries.put_of_notMem _ hosts.notMem)
  settled := hosts.settled
  unfrozen := hosts.unfrozen_name

/-- A header adds an empty table to the array. When that table has been filled, the array may get
another one. -/
theorem exists_openArrayTable (hosts : d.HostsArray key cur put name before)
    {inside : List String} (distinct : inside.Nodup) :
    ∃ d', d.openArrayTable (key ++ [name]) = .ok d' ∧ d'.header = key ++ [name] ∧
      d'.root = put (cur ++ [(name, .list (before ++ [.table []]))]) ∧
      d.marks.Agree d'.marks key [name] ∧
      d'.Hosts (key ++ [name]) []
        (fun new => put (cur ++ [(name, .list (before ++ [.table new]))])) inside ∧
      ∀ d'' sub, d'.Gains d'' (key ++ [name]) []
          (fun new => put (cur ++ [(name, .list (before ++ [.table new]))])) sub →
        d''.HostsArray key cur put name (before ++ [.table sub]) := by
  obtain ⟨whole, focus, appended⟩ := hosts.focus
  have unfrozen := Marks.isFrozen_eq_false_iff.mpr hosts.unfrozen
  have kept : ∀ k ∈ (d.marks.clear (key ++ [name])).frozen, ¬ k <+: key ++ [name] :=
    fun k member => hosts.unfrozen k (List.mem_of_mem_filter member)
  refine ⟨⟨put (cur ++ [(name, .list (before ++ [.table []]))]),
    (d.marks.clear (key ++ [name])).opened (key ++ [name]), key ++ [name]⟩,
    ?_, rfl, rfl, ?_, ?_, ?_⟩
  · rw [openArrayTable, Marks.settle_of_settled hosts.settled]
    simp only [unfrozen, Bool.false_eq_true, if_false, List.dropLast_concat, focus.changeAt,
      List.getLastD_concat, appended]
    rfl
  · exact (Marks.Agree.clear d.marks key name).trans (.opened _ key name)
  · refine ⟨(focus.after _).append (.ofArray hosts.absent before), hosts.settled, kept, ?_,
      distinct⟩
    intro k below
    obtain ⟨noFrozen, noExplicit⟩ := Marks.notMem_clear (m := d.marks) below.under.1
    refine ⟨noFrozen, ?_⟩
    rw [Marks.opened, List.mem_cons, not_or]
    exact ⟨below.under.2.symm, noExplicit⟩
  · intro d'' sub gains
    refine ⟨hosts.absent, ⟨_, gains.root ▸ focus.after _, ?_⟩, gains.settled, ?_⟩
    · rw [List.nil_append, appendTable, ← Entries.put_of_notMem _ hosts.absent, Entries.lookup_put,
        List.append_assoc]
      simp only [Entries.put_put]
      rw [Entries.put_of_notMem _ hosts.absent, List.append_assoc]
    · intro k member above
      exact kept k ((gains.marks k (not_below_of_above above)).1.mp member) above

end Draft

end Workflow.Toml
