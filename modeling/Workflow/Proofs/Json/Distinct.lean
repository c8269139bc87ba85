import Workflow.Json.Reader
import Workflow.Proofs.Success
import Workflow.Proofs.Value.Readable

/-!
No table that is read has a key twice: every step of the reader keeps the keys of the tables that
are open different from one another.
-/

namespace Workflow

theorem Entries.mem_keys_put {entries : Entries} {key : String} {value : Value} {other : String} :
    other ∈ (entries.put key value).map Prod.fst ↔ other ∈ entries.map Prod.fst ∨ other = key := by
  induction entries with
  | nil => simp [put]
  | cons entry entries ih =>
      obtain ⟨k, v⟩ := entry
      rw [put]
      split
      next same => simp [same, or_comm]
      next => simp only [List.map_cons, List.mem_cons, ih, or_assoc]

theorem Entries.mem_put {entries : Entries} {key : String} {value : Value}
    {entry : String × Value} (member : entry ∈ entries.put key value) :
    entry ∈ entries ∨ entry = (key, value) := by
  induction entries with
  | nil => exact .inr (List.mem_singleton.mp member)
  | cons first entries ih =>
      obtain ⟨k, v⟩ := first
      rw [put] at member
      split at member
      · rcases List.mem_cons.mp member with here | later
        · exact .inr here
        · exact .inl (List.mem_cons_of_mem _ later)
      · rcases List.mem_cons.mp member with here | later
        · exact .inl (here ▸ List.mem_cons_self)
        · exact (ih later).imp_left (List.mem_cons_of_mem _)

theorem Entries.nodup_keys_put {entries : Entries} (key : String) (value : Value)
    (distinct : (entries.map Prod.fst).Nodup) :
    ((entries.put key value).map Prod.fst).Nodup := by
  induction entries with
  | nil => simp [put]
  | cons entry entries ih =>
      obtain ⟨k, v⟩ := entry
      rw [List.map_cons, List.nodup_cons] at distinct
      rw [put]
      split
      next same =>
        rw [List.map_cons, List.nodup_cons, ← same]
        exact distinct
      next differs =>
        rw [List.map_cons, List.nodup_cons]
        refine ⟨?_, ih distinct.2⟩
        rw [mem_keys_put, not_or]
        exact ⟨distinct.1, differs⟩

theorem Value.KeysDistinct.put {entries : Entries} (distinct : (Value.table entries).KeysDistinct)
    (key : String) {value : Value} (inside : value.KeysDistinct) :
    (Value.table (entries.put key value)).KeysDistinct := by
  refine .table (Entries.nodup_keys_put key value (keysDistinct_table_iff.mp distinct).1) ?_
  intro entry member
  rcases Entries.mem_put member with old | rfl
  · exact distinct.entry old
  · exact inside

namespace Json

/-! ## Tokens -/

/-- The token holds no table with a key twice. -/
def Token.Distinct : Token → Prop
  | .scalar (.ok v) => v.KeysDistinct
  | _ => True

theorem scanUnsigned_distinct {negative : Bool} {left : Nat} {cs after : List Char} {v : Value}
    (scanned : scanUnsigned negative left cs = some (.ok v, after)) : v.KeysDistinct := by
  unfold scanUnsigned at scanned
  split at scanned
  · cases scanned
  · dsimp only at scanned
    split at scanned
    · split at scanned
      · cases scanned
      · cases scanned
        exact .int _
    · cases scanned
      exact .real _

theorem firstToken_distinct (c : Char) (rest : List Char) : (firstToken c rest).1.Distinct := by
  unfold firstToken
  split
  · trivial
  · split
    next v after constant =>
      obtain ⟨⟨word, w⟩, found, same⟩ := Option.map_eq_some_iff.mp constant
      obtain ⟨rfl, -⟩ := Prod.mk.inj same
      have member := List.mem_of_find?_eq_some found
      simp only [constants, List.mem_cons, Prod.mk.injEq, List.not_mem_nil, or_false] at member
      rcases member with ⟨-, rfl⟩ | ⟨-, rfl⟩ | ⟨-, rfl⟩ | ⟨-, rfl⟩ | ⟨-, rfl⟩ | ⟨-, rfl⟩ <;>
        simp [Token.Distinct]
    · split
      next content after number =>
        cases content with
        | error fault => trivial
        | ok v =>
            unfold scanNumber at number
            split at number <;> exact scanUnsigned_distinct number
      · trivial

theorem tokensFrom_distinct (fuel : Nat) (cs : List Char) :
    ∀ placed ∈ tokensFrom fuel cs, placed.token.Distinct := by
  induction fuel generalizing cs with
  | zero => simp [tokensFrom]
  | succ fuel ih =>
      cases cs with
      | nil => simp [tokensFrom]
      | cons c rest =>
          rw [tokensFrom]
          split
          · exact ih rest
          · rw [List.forall_mem_cons]
            exact ⟨firstToken_distinct c rest, ih _⟩

/-! ## States -/

def Frame.Distinct : Frame → Prop
  | .list before => ∀ item ∈ before, item.KeysDistinct
  | .table before _ => (Value.table before).KeysDistinct

def Wanted.Distinct : Wanted → Prop
  | .value | .firstItem | .firstKey => True
  | .key before | .colon before _ | .afterEntry before => (Value.table before).KeysDistinct
  | .afterItem before => ∀ item ∈ before, item.KeysDistinct
  | .nothing v => v.KeysDistinct

/-- No table that is open or has been read has a key twice. -/
structure State.Distinct (state : State) : Prop where
  opened : ∀ frame ∈ state.opened, frame.Distinct
  wanted : state.wanted.Distinct

theorem State.give_distinct {v : Value} {opened : List Frame} (value : v.KeysDistinct)
    (frames : ∀ frame ∈ opened, frame.Distinct) : (State.give v opened).Distinct := by
  cases opened with
  | nil => exact ⟨frames, value⟩
  | cons frame opened =>
      rw [List.forall_mem_cons] at frames
      cases frame with
      | list before =>
          refine ⟨frames.2, ?_⟩
          exact List.forall_mem_cons.mpr ⟨value, frames.1⟩
      | table before key => exact ⟨frames.2, Value.KeysDistinct.put frames.1 key value⟩

theorem enter_distinct {left : Nat} {opened : List Frame} {wanted : Wanted} {state : State}
    (frames : ∀ frame ∈ opened, frame.Distinct) (fresh : wanted.Distinct)
    (entered : enter left opened wanted = .ok state) : state.Distinct := by
  rw [enter] at entered
  split at entered
  · cases entered
    exact ⟨frames, fresh⟩
  · cases entered

theorem startValue_distinct {opened : List Frame} {refusal : Fault} {placed : Placed}
    {state : State} (frames : ∀ frame ∈ opened, frame.Distinct) (token : placed.token.Distinct)
    (started : startValue opened refusal placed = .ok state) : state.Distinct := by
  rw [startValue] at started
  split at started
  · exact enter_distinct frames (show Wanted.firstItem.Distinct from trivial) started
  · exact enter_distinct frames (show Wanted.firstKey.Distinct from trivial) started
  · cases started
  next content _ =>
    obtain ⟨s, -, rfl⟩ := Except.map_eq_ok_iff.mp started
    exact State.give_distinct (.text s) frames
  next content same =>
    obtain ⟨v, rfl, rfl⟩ := Except.map_eq_ok_iff.mp started
    rw [same] at token
    exact State.give_distinct token frames

theorem readKey_distinct {opened : List Frame} {before : Entries} {refusal : Fault} {token : Token}
    {state : State} (frames : ∀ frame ∈ opened, frame.Distinct)
    (keys : (Value.table before).KeysDistinct)
    (read : readKey opened before refusal token = .ok state) : state.Distinct := by
  cases token with
  | text content =>
      obtain ⟨key, -, rfl⟩ := Except.map_eq_ok_iff.mp read
      exact ⟨frames, keys⟩
  | mark | scalar => cases read

theorem step_distinct {state next : State} {placed : Placed} (distinct : state.Distinct)
    (token : placed.token.Distinct) (stepped : step state placed = .ok next) : next.Distinct := by
  obtain ⟨opened, wanted⟩ := state
  obtain ⟨first, left⟩ := placed
  obtain ⟨frames, inside⟩ := distinct
  have noItem : (Frame.list []).Distinct := List.forall_mem_nil _
  have noEntry : (Value.table []).KeysDistinct := .table List.nodup_nil (List.forall_mem_nil _)
  have noList : (Value.list []).KeysDistinct := .list (List.forall_mem_nil _)
  simp only [step] at stepped
  dsimp only at frames inside
  split at stepped
  next =>
    cases stepped
    exact State.give_distinct noList frames
  next =>
    cases stepped
    exact State.give_distinct noEntry frames
  next => exact startValue_distinct frames token stepped
  next => exact startValue_distinct (List.forall_mem_cons.mpr ⟨noItem, frames⟩) token stepped
  next => exact readKey_distinct frames noEntry stepped
  next => exact readKey_distinct frames inside stepped
  next =>
    cases stepped
    exact ⟨List.forall_mem_cons.mpr ⟨inside, frames⟩, trivial⟩
  next =>
    cases stepped
    exact ⟨List.forall_mem_cons.mpr ⟨inside, frames⟩, trivial⟩
  next before _ _ =>
    cases stepped
    refine State.give_distinct (.list fun item listed => ?_) frames
    exact inside item (List.mem_reverse.mp listed)
  next =>
    cases stepped
    exact ⟨frames, inside⟩
  next =>
    cases stepped
    exact State.give_distinct inside frames
  next => cases stepped

theorem run_distinct {state : State} {tokens : List Placed} {v : Value} (distinct : state.Distinct)
    (all : ∀ placed ∈ tokens, placed.token.Distinct) (read : run state tokens = .ok v) :
    v.KeysDistinct := by
  induction tokens generalizing state with
  | nil =>
      rw [run] at read
      split at read
      next w same =>
        cases read
        have wanted := distinct.wanted
        rw [same] at wanted
        exact wanted
      · cases read
  | cons placed rest ih =>
      rw [List.forall_mem_cons] at all
      obtain ⟨next, stepped, later⟩ := Except.bind_eq_ok_iff.mp read
      exact ih (step_distinct distinct all.1 stepped) all.2 later

theorem read_distinct {text : String} {v : Value} (found : read text = .ok v) :
    v.KeysDistinct := by
  have result := Except.mapError_eq_ok_iff.mp found
  unfold readChars at result
  split at result
  · cases result
  · have start : State.Distinct ⟨[], .value⟩ := ⟨List.forall_mem_nil _, trivial⟩
    exact run_distinct start (tokensFrom_distinct _ _) result

end Json

end Workflow
