import Workflow.Proofs.Spec.Wire
import Workflow.Proofs.Value.Matching

/-!
Readers and writers that fit together. What is read from a document can be written in any form and
read again, and the order of keys in the document does not matter. The laws are proved for scalars,
lists and tables, and for a record out of its fields.
-/

namespace Workflow

open Value (Reordered SameEntry)

/-! ## Forms -/

namespace Form

/-- Free tables stay tables, and a field that is not set is left out or `null`. -/
structure Standard (form : Form) : Prop where
  unset : form.unset = none ∨ form.unset = some .null
  table : ∀ entries, ∃ others, form.free (.table entries) = .table others
  distinct : ∀ {v : Value}, v.KeysDistinct → (form.free v).KeysDistinct
  reordered : ∀ {v w : Value}, Reordered v w → Reordered (form.free v) (form.free w)

/-- The form of what is read from `first` and written as `next`. -/
def andThen (first next : Form) : Form := ⟨next.unset, next.free ∘ first.free⟩

/-- The fields that are set, in terms that plain data formats share, without nulls. -/
def bare : Form := ⟨none, fun v => v.plain.dropNulls⟩

theorem raw_standard : raw.Standard :=
  { unset := .inr rfl
    table := fun entries => ⟨entries, rfl⟩
    distinct := id
    reordered := id }

theorem wire_standard : wire.Standard :=
  { unset := .inl rfl
    table := fun entries => ⟨_, Value.plain_table entries⟩
    distinct := Value.KeysDistinct.plain
    reordered := Reordered.plain }

theorem bare_standard : bare.Standard :=
  { unset := .inl rfl
    table := fun entries => by
      rw [bare]
      dsimp only
      rw [Value.plain_table, Value.dropNulls_table]
      exact ⟨_, rfl⟩
    distinct := fun distinct => distinct.plain.dropNulls
    reordered := fun reordered => reordered.plain.dropNulls }

end Form

/-! ## Laws -/

variable {α β : Type} {read : Value → Option α} {write : Form → α → Value}

/-- What is read can be written and read again, whatever the order of keys. -/
structure Lawful (read : Value → Option α) (write : Form → α → Value) : Prop where
  /-- What is set is not written as `null`. -/
  set : ∀ {form : Form}, form.Standard → ∀ a, write form a ≠ .null
  /-- What is written in a form is read as the same in that form. -/
  again : ∀ {form : Form}, form.Standard → ∀ {v a}, read v = some a →
    ∃ b, read (write form a) = some b ∧ ∀ next, write next b = write (form.andThen next) a
  steady : ∀ {v w a}, v.KeysDistinct → Reordered v w → read v = some a →
    ∃ b, read w = some b ∧ ∀ form, form.Standard → Reordered (write form a) (write form b)
  distinct : ∀ {form : Form}, form.Standard → ∀ {v a}, v.KeysDistinct → read v = some a →
    (write form a).KeysDistinct
  dropNulls : ∀ a, write .bare a = (write .wire a).dropNulls

namespace Lawful

/-! ## Scalars and free tables -/

theorem scalar {write : α → Value} (scalar : ∀ a, (write a).Scalar)
    (inverse : ∀ {v a}, read v = some a → write a = v) : Lawful read fun _ => write where
  set _ a := (scalar a).ne_null
  again _ v a found := by
    refine ⟨a, ?_, fun _ => rfl⟩
    rw [inverse found, found]
  steady {v w a} _ reordered found := by
    have same := reordered.eq_of_scalar (inverse found ▸ scalar a)
    exact ⟨a, same ▸ found, fun _ _ => .refl _⟩
  distinct _ _ a _ _ := (scalar a).keysDistinct
  dropNulls a := (scalar a).dropNulls_eq.symm

theorem string : Lawful Value.string? fun _ => Value.text := by
  apply scalar Value.Scalar.text
  intro v s found
  cases v with
  | text t => exact congrArg Value.text (Option.some_inj.mp found).symm
  | _ => cases found

theorem nonEmpty : Lawful Value.nonEmpty? fun _ => Value.text := by
  apply scalar Value.Scalar.text
  intro v s found
  cases v with
  | text t =>
      obtain ⟨-, rfl⟩ : t ≠ "" ∧ t = s := by simpa [Value.nonEmpty?] using found
      rfl
  | _ => cases found

theorem timestamp : Lawful Value.timestamp? fun _ => Value.text := by
  apply scalar Value.Scalar.text
  intro v s found
  cases v with
  | text t =>
      obtain ⟨-, rfl⟩ : timestampProblem? t = none ∧ t = s := by
        simpa [Value.timestamp?] using found
      rfl
  | _ => cases found

theorem choice [Labelled α] : Lawful (Value.choice? (α := α)) fun _ => Labelled.toValue := by
  apply scalar fun a => Value.Scalar.text (Labelled.label a)
  intro v a found
  cases v with
  | text t =>
      have label := List.find?_some found
      exact congrArg Value.text (beq_iff_eq.mp label)
  | _ => cases found

theorem count : Lawful Value.count? fun _ => Value.int := by
  apply scalar Value.Scalar.int
  intro v n found
  cases v with
  | int m =>
      obtain ⟨-, rfl⟩ : 0 < m ∧ m = n := by simpa [Value.count?] using found
      rfl
  | _ => cases found

theorem number (range : Range) : Lawful (Value.number? range) fun _ => Number.toValue := by
  apply scalar
  · intro n
    cases n <;> simp [Number.toValue]
  · intro v n found
    cases v with
    | int m =>
        obtain ⟨-, rfl⟩ : range.ofInt? m = none ∧ Number.whole m = n := by
          simpa [Value.number?] using found
        rfl
    | real x =>
        obtain ⟨-, rfl⟩ : range.ofReal? x = none ∧ Number.real x = n := by
          simpa [Value.number?] using found
        rfl
    | _ => cases found

theorem eq_table_of_entries? {v : Value} {entries : Entries} (found : v.entries? = some entries) :
    v = .table entries := by
  cases v with
  | table others => exact congrArg Value.table (Option.some_inj.mp found)
  | _ => cases found

theorem freeTable : Lawful Value.entries? Form.freeTable where
  set standard entries := by
    obtain ⟨others, isTable⟩ := standard.table entries
    rw [Form.freeTable, isTable]
    simp
  again standard _ entries _ := by
    obtain ⟨others, isTable⟩ := standard.table entries
    refine ⟨others, ?_, fun next => ?_⟩
    · rw [Form.freeTable, isTable]
      rfl
    · rw [Form.freeTable, Form.freeTable, ← isTable]
      rfl
  steady distinct reordered found := by
    obtain rfl := eq_table_of_entries? found
    obtain ⟨others, rfl⟩ := reordered.eq_table distinct
    exact ⟨others, rfl, fun form standard => standard.reordered reordered⟩
  distinct standard _ _ distinct found := by
    obtain rfl := eq_table_of_entries? found
    exact standard.distinct distinct
  dropNulls _ := rfl

/-! ## Collections -/

theorem mapM_eq_some_iff {γ : Type} {f : γ → Option β} {items : List γ} {results : List β} :
    items.mapM f = some results ↔
      List.Forall₂ (fun item result => f item = some result) items results := by
  induction items generalizing results with
  | nil => simp [eq_comm]
  | cons item items ih =>
      simp only [List.mapM_cons, Option.bind_eq_bind, Option.bind_eq_some_iff, Option.pure_def,
        Option.some_inj, List.forall₂_cons_left_iff, ih]
      constructor
      · rintro ⟨first, found, rest, later, rfl⟩
        exact ⟨first, rest, found, later, rfl⟩
      · rintro ⟨first, rest, found, later, rfl⟩
        exact ⟨first, found, rest, later, rfl⟩

theorem exists_forall₂ {γ δ : Type} {related : γ → δ → Prop} {items : List γ}
    (each : ∀ item ∈ items, ∃ other, related item other) :
    ∃ others, List.Forall₂ related items others := by
  induction items with
  | nil => exact ⟨[], .nil⟩
  | cons item items ih =>
      rw [List.forall_mem_cons] at each
      obtain ⟨other, first⟩ := each.1
      obtain ⟨others, rest⟩ := ih each.2
      exact ⟨other :: others, .cons first rest⟩

/-- Two lists that go together, and results of the first one, give results of the second one. -/
theorem exists_results {γ γ' δ δ' : Type} {matched : γ → γ' → Prop} {result : γ → δ → Prop}
    {result' : γ' → δ' → Prop} {related : δ → δ' → Prop}
    (step : ∀ {x y a}, matched x y → result x a → ∃ b, result' y b ∧ related a b)
    {items : List γ} {others : List γ'} {results : List δ}
    (paired : List.Forall₂ matched items others) (found : List.Forall₂ result items results) :
    ∃ results', List.Forall₂ result' others results' ∧ List.Forall₂ related results results' := by
  induction paired generalizing results with
  | nil =>
      cases found
      exact ⟨[], .nil, .nil⟩
  | cons first _ ih =>
      cases found with
      | cons here later =>
          obtain ⟨b, found, alike⟩ := step first here
          obtain ⟨bs, rest, alikes⟩ := ih later
          exact ⟨b :: bs, .cons found rest, .cons alike alikes⟩

theorem listOf?_eq_some_iff {v : Value} {items : List α} :
    Value.listOf? read v = some items ↔ ∃ values, v = .list values ∧
      List.Forall₂ (fun value item => read value = some item) values items := by
  cases v with
  | list values => simp [Value.listOf?, mapM_eq_some_iff]
  | _ => simp [Value.listOf?]

/-- A result under the key of its entry. -/
def ReadsEntry (read : Value → Option α) (entry : String × Value) (result : String × α) : Prop :=
  entry.1 = result.1 ∧ read entry.2 = some result.2

theorem tableOf?_eq_some_iff {v : Value} {results : List (String × α)} :
    Value.tableOf? read v = some results ↔ ∃ entries, v = .table entries ∧
      List.Forall₂ (ReadsEntry read) entries results := by
  have step (entry : String × Value) (result : String × α) :
      (read entry.2).map (entry.1, ·) = some result ↔ ReadsEntry read entry result := by
    rw [ReadsEntry, Option.map_eq_some_iff]
    constructor
    · rintro ⟨a, found, rfl⟩
      exact ⟨rfl, found⟩
    · rintro ⟨key, found⟩
      exact ⟨result.2, found, Prod.ext key rfl⟩
  cases v with
  | table entries => simp [Value.tableOf?, mapM_eq_some_iff, step]
  | _ => simp [Value.tableOf?]

theorem list (laws : Lawful read write) :
    Lawful (Value.listOf? read) fun form => listValue (write form) where
  set _ _ := by simp [listValue]
  again {form} standard v items found := by
    obtain ⟨values, -, each⟩ := listOf?_eq_some_iff.mp found
    obtain ⟨others, paired⟩ : ∃ others, List.Forall₂ (fun a b => read (write form a) = some b ∧
        ∀ next, write next b = write (form.andThen next) a) items others := by
      apply exists_forall₂
      intro a member
      obtain ⟨value, -, found⟩ := exists_left_of_forall₂ each member
      exact laws.again standard found
    refine ⟨others, ?_, fun next => ?_⟩
    · rw [listValue, listOf?_eq_some_iff]
      exact ⟨_, rfl, List.forall₂_map_left_iff.mpr (paired.imp fun _ _ both => both.1)⟩
    · rw [listValue, listValue, Value.list.injEq, map_eq_map_iff_forall₂]
      exact paired.flip.imp fun _ _ both => both.2 next
  steady {v w items} distinct reordered found := by
    obtain ⟨values, rfl, each⟩ := listOf?_eq_some_iff.mp found
    obtain ⟨others, rfl, paired⟩ := reordered.exists_list distinct
    have inside := (List.forall₂_and_left ..).mpr
      ⟨Value.keysDistinct_list_iff.mp distinct, paired⟩
    obtain ⟨items', each', alike⟩ := exists_results
      (fun both found => laws.steady both.1 both.2 found) inside each
    refine ⟨items', listOf?_eq_some_iff.mpr ⟨others, rfl, each'⟩, fun form standard => ?_⟩
    apply Reordered.list_of_forall₂
    rw [List.forall₂_map_left_iff, List.forall₂_map_right_iff]
    exact alike.imp fun _ _ same => same form standard
  distinct {form} standard v items distinct found := by
    obtain ⟨values, rfl, each⟩ := listOf?_eq_some_iff.mp found
    rw [listValue, Value.keysDistinct_list_iff, List.forall_mem_map]
    intro a member
    obtain ⟨value, listed, found⟩ := exists_left_of_forall₂ each member
    exact laws.distinct standard (distinct.item listed) found
  dropNulls items := by
    simp [listValue, Value.dropNulls_list, laws.dropNulls]

theorem table (laws : Lawful read write) :
    Lawful (Value.tableOf? read) fun form => tableValue (write form) where
  set _ _ := by simp [tableValue]
  again {form} standard v results found := by
    obtain ⟨entries, -, each⟩ := tableOf?_eq_some_iff.mp found
    obtain ⟨others, paired⟩ : ∃ others, List.Forall₂ (fun entry other =>
        ReadsEntry read (entry.1, write form entry.2) other ∧ entry.1 = other.1 ∧
          ∀ next, write next other.2 = write (form.andThen next) entry.2) results others := by
      apply exists_forall₂
      intro result member
      obtain ⟨entry, -, -, found⟩ := exists_left_of_forall₂ each member
      obtain ⟨b, found, same⟩ := laws.again standard found
      exact ⟨(result.1, b), ⟨rfl, found⟩, rfl, same⟩
    refine ⟨others, ?_, fun next => ?_⟩
    · rw [tableValue, tableOf?_eq_some_iff]
      exact ⟨_, rfl, List.forall₂_map_left_iff.mpr (paired.imp fun _ _ both => both.1)⟩
    · rw [tableValue, tableValue, Value.table.injEq, map_eq_map_iff_forall₂]
      exact paired.flip.imp fun _ _ both => Prod.ext both.2.1.symm (both.2.2 next)
  steady {v w results} distinct reordered found := by
    obtain ⟨entries, rfl, each⟩ := tableOf?_eq_some_iff.mp found
    obtain ⟨others, rfl⟩ := reordered.eq_table distinct
    obtain ⟨middle, paired, perm⟩ := reordered.exists_entries distinct
    have inside := (List.forall₂_and_left ..).mpr
      ⟨(Value.keysDistinct_table_iff.mp distinct).2, paired⟩
    obtain ⟨results', each', alike⟩ : ∃ results', List.Forall₂ (ReadsEntry read) middle results' ∧
        List.Forall₂ (fun entry other => entry.1 = other.1 ∧ ∀ form, form.Standard →
          Reordered (write form entry.2) (write form other.2)) results results' := by
      refine exists_results ?_ inside each
      rintro entry other result ⟨distinct, key, value⟩ ⟨key', found⟩
      obtain ⟨b, found, same⟩ := laws.steady distinct value found
      exact ⟨(other.1, b), ⟨rfl, found⟩, key'.symm.trans key, same⟩
    obtain ⟨final, each', perm'⟩ := List.perm_comp_forall₂ perm.symm each'
    refine ⟨final, tableOf?_eq_some_iff.mpr ⟨others, rfl, each'⟩, fun form standard => ?_⟩
    have renamed : Reordered (tableValue (write form) results)
        (tableValue (write form) results') := by
      apply Reordered.table_of_forall₂
      rw [List.forall₂_map_left_iff, List.forall₂_map_right_iff]
      exact alike.imp fun _ _ same => ⟨same.1, same.2 form standard⟩
    exact renamed.trans (.keys (perm'.symm.map _))
  distinct {form} standard v results distinct found := by
    obtain ⟨entries, rfl, each⟩ := tableOf?_eq_some_iff.mp found
    have keys : results.map Prod.fst = entries.map Prod.fst := by
      rw [map_eq_map_iff_forall₂]
      exact each.flip.imp fun _ _ both => both.1.symm
    rw [tableValue, Value.keysDistinct_table_iff, List.map_map, List.forall_mem_map]
    refine ⟨?_, ?_⟩
    · exact keys ▸ (Value.keysDistinct_table_iff.mp distinct).1
    · intro result member
      obtain ⟨entry, listed, -, found⟩ := exists_left_of_forall₂ each member
      exact laws.distinct standard (distinct.entry listed) found
  dropNulls entries := by
    have set : ∀ entry ∈ entries.map fun entry => (entry.1, write .wire entry.2),
        entry.2 ≠ Value.null := by
      rw [List.forall_mem_map]
      exact fun entry _ => laws.set Form.wire_standard entry.2
    simp [tableValue, Value.dropNulls_table, Value.filterMap_keep?_eq_map set, laws.dropNulls]

end Lawful

end Workflow
