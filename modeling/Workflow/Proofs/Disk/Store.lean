import Workflow.Disk.Basic
import Workflow.Proofs.Success

/-!
Files that are written and read. A path leads to the same place after the file there is written,
since only directories lie on its way. Main statement: a path that takes a file takes any content,
and gives it back.
-/

namespace Workflow.Disk

variable {d d' : Disk} {path : Path} {content : Bytes} {place other : Place} {node : Node}

/-! ## Places -/

theorem lookup_setNode_self (nodes : List (Place × Node)) (place : Place) (node : Node) :
    (setNode nodes place node).lookup place = some node := by
  induction nodes with
  | nil => simp [setNode]
  | cons entry nodes ih =>
      obtain ⟨p, n⟩ := entry
      rw [setNode]
      split
      next => simp
      next different =>
        rw [List.lookup_cons, beq_false_of_ne (Ne.symm different)]
        exact ih

theorem lookup_setNode_of_ne (nodes : List (Place × Node)) (node : Node)
    (different : other ≠ place) : (setNode nodes place node).lookup other = nodes.lookup other := by
  have passed := beq_false_of_ne different
  induction nodes with
  | nil => simp [setNode, List.lookup_cons, passed]
  | cons entry nodes ih =>
      obtain ⟨p, n⟩ := entry
      rw [setNode]
      split
      next same => simp [List.lookup_cons, same, passed]
      next => simp only [List.lookup_cons, ih]

theorem node?_set_self (inner : place ≠ []) : (d.set place node).node? place = some node := by
  rw [node?, if_neg inner]
  exact lookup_setNode_self _ _ _

theorem node?_set_of_ne (different : other ≠ place) :
    (d.set place node).node? other = d.node? other := by
  rw [node?, node?, set, lookup_setNode_of_ne _ _ different]

/-- What stands at the end of a way, if it is no directory, does not lie on the way. -/
theorem follow_set {start : Place} {names : List String} (found : d.follow start names = .ok place)
    (last : d.node? place ≠ some .directory) :
    (d.set place node).follow start names = .ok place := by
  induction names generalizing start with
  | nil => exact found
  | cons name names ih =>
      rw [follow] at found ⊢
      cases there : d.node? start with
      | none =>
          rw [there] at found
          cases found
      | some on =>
          cases on with
          | file content =>
              rw [there] at found
              cases found
          | directory =>
              have different : start ≠ place := by
                rintro rfl
                exact last there
              rw [there] at found
              rw [node?_set_of_ne different, there]
              dsimp only at found ⊢
              split
              next up =>
                rw [if_pos up] at found
                exact ih found
              next down =>
                rw [if_neg down] at found
                split
                next long =>
                  rw [if_pos long] at found
                  cases found
                next short =>
                  rw [if_neg short] at found
                  exact ih found

/-! ## Files -/

theorem write_eq_ok_iff : d.write path content = .ok d' ↔ path.holdsNull = false ∧
    ∃ place, d.place path = .ok place ∧ d.node? place ≠ some .directory ∧
      d' = d.set place (.file content) := by
  rw [write, usePlace]
  split
  next null => simp [null]
  next noNull =>
    rw [Bool.not_eq_true] at noNull
    cases found : d.place path with
    | error problem => simp [noNull, Except.bind]
    | ok place =>
        cases there : d.node? place with
        | none => simp [noNull, Except.bind, there, eq_comm]
        | some node => cases node <;> simp [noNull, Except.bind, there, eq_comm]

theorem read_of_write (written : d.write path content = .ok d') : d'.read path = .ok content := by
  obtain ⟨noNull, place, found, last, rfl⟩ := write_eq_ok_iff.mp written
  have inner : place ≠ [] := by
    rintro rfl
    exact last rfl
  have found' : (d.set place (.file content)).place path = .ok place := follow_set found last
  rw [read, usePlace, if_neg (by simp [noNull]), found']
  simp only [Except.bind, node?_set_self inner, Except.mapError_ok]

theorem store_eq_none_iff : d.store path content = (d', none) ↔
    (d.makeDirectories path.parent).2 = none ∧
      (d.makeDirectories path.parent).1.write path content = .ok d' := by
  rw [store]
  obtain ⟨d₁, fault⟩ := d.makeDirectories path.parent
  cases fault with
  | some fault => simp
  | none => cases written : d₁.write path content <;> simp [written]

/-- A file can be written to the path. -/
def Accepts (d : Disk) (path : Path) : Prop := ∃ content d', d.store path content = (d', none)

theorem Accepts.exists_store (accepts : d.Accepts path) (content : Bytes) :
    ∃ d', d.store path content = (d', none) := by
  obtain ⟨other, d', stored⟩ := accepts
  obtain ⟨made, written⟩ := store_eq_none_iff.mp stored
  obtain ⟨noNull, place, found, last, -⟩ := write_eq_ok_iff.mp written
  exact ⟨_, store_eq_none_iff.mpr ⟨made, write_eq_ok_iff.mpr ⟨noNull, place, found, last, rfl⟩⟩⟩

/-- A file that was written has the content that was written. -/
theorem read_of_store (stored : d.store path content = (d', none)) : d'.read path = .ok content :=
  read_of_write (store_eq_none_iff.mp stored).2

end Workflow.Disk
