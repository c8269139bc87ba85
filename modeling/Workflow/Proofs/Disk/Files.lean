import Workflow.Proofs.Disk.Store

/-!
What becomes of the files of a disk when a file is stored. Directories are made where nothing was,
and they stay where a later step fails, but they hold no file. Main statements: a store that fails
leaves all files as they were, and does so because a directory cannot be made or the file cannot be
opened; one that succeeds changes the file of its path and no other.
-/

namespace Workflow.Disk

variable {d d₁ d' : Disk} {path : Path} {content : Bytes} {place : Place}

/-- The content of the file at a place, if there is one. -/
def file? (d : Disk) (place : Place) : Option Bytes :=
  match d.node? place with
  | some (.file content) => some content
  | _ => none

/-- The same files with the same content; there may be other directories. -/
def SameFiles (d d' : Disk) : Prop := ∀ place, d'.file? place = d.file? place

theorem SameFiles.refl (d : Disk) : d.SameFiles d := fun _ => rfl

theorem SameFiles.trans (first : d.SameFiles d₁) (later : d₁.SameFiles d') : d.SameFiles d' :=
  fun place => (later place).trans (first place)

theorem file?_set_of_ne {other : Place} (different : other ≠ place) (node : Node) :
    (d.set place node).file? other = d.file? other := by
  rw [file?, file?, node?_set_of_ne different]

/-! ## Directories -/

theorem makeDirectory_eq_ok_iff : d.makeDirectory path = .ok d' ↔ path.holdsNull = false ∧
    ∃ place, d.place path = .ok place ∧ d.node? place = none ∧ d' = d.set place .directory := by
  rw [makeDirectory, usePlace]
  split
  next null => simp [null]
  next noNull =>
    rw [Bool.not_eq_true] at noNull
    cases found : d.place path with
    | error problem => simp [noNull, Except.bind]
    | ok place => cases there : d.node? place <;> simp [noNull, Except.bind, there, eq_comm]

theorem sameFiles_makeDirectory (made : d.makeDirectory path = .ok d') : d.SameFiles d' := by
  obtain ⟨-, place, -, vacant, rfl⟩ := makeDirectory_eq_ok_iff.mp made
  have inner : place ≠ [] := by
    rintro rfl
    cases vacant
  intro other
  by_cases same : other = place
  · subst same
    rw [file?, file?, node?_set_self inner, vacant]
  · exact file?_set_of_ne same _

theorem sameFiles_makeReversed (d : Disk) (anchor : Anchor) (names : List String) :
    d.SameFiles (d.makeReversed anchor names).1 := by
  induction names generalizing d with
  | nil =>
      rw [makeReversed]
      split
      next made => exact sameFiles_makeDirectory made
      next => exact .refl d
  | cons name above ih =>
      have parents := ih d
      rw [makeReversed]
      split
      next made => exact sameFiles_makeDirectory made
      next =>
        generalize d.makeReversed anchor above = made at parents ⊢
        obtain ⟨d₁, fault⟩ := made
        cases fault with
        | some fault => exact parents
        | none =>
            dsimp only
            split
            next made => exact parents.trans (sameFiles_makeDirectory made)
            next => exact parents
      next => exact .refl d

theorem sameFiles_makeDirectories (d : Disk) (path : Path) :
    d.SameFiles (d.makeDirectories path).1 := sameFiles_makeReversed d _ _

/-! ## Files -/

/-- A path leads to a file with the content, and all other files are as they were. -/
structure Rewrites (d d' : Disk) (path : Path) (content : Bytes) : Prop where
  read : d'.read path = .ok content
  others : ∃ place, d'.place path = .ok place ∧
    ∀ other, other ≠ place → d'.file? other = d.file? other

theorem rewrites_of_store (stored : d.store path content = (d', none)) :
    d.Rewrites d' path content := by
  refine ⟨read_of_store stored, ?_⟩
  obtain ⟨-, written⟩ := store_eq_none_iff.mp stored
  obtain ⟨-, place, found, last, rfl⟩ := write_eq_ok_iff.mp written
  refine ⟨place, follow_set found last, ?_⟩
  intro other different
  rw [file?_set_of_ne different]
  exact sameFiles_makeDirectories d path.parent other

theorem sameFiles_of_store {fault : DiskFault} (refused : d.store path content = (d', some fault)) :
    d.SameFiles d' := by
  have parents := sameFiles_makeDirectories d path.parent
  rw [store] at refused
  generalize d.makeDirectories path.parent = made at parents refused
  obtain ⟨d₁, problem⟩ := made
  cases problem with
  | some problem =>
      cases refused
      exact parents
  | none =>
      dsimp only at refused
      split at refused
      next => cases refused
      next =>
        cases refused
        exact parents

/-! ## Faults -/

variable {fault : DiskFault}

/-- A directory above the path cannot be made, or else the file cannot be opened once it is. -/
def Blocks (d : Disk) (path : Path) (fault : DiskFault) : Prop :=
  (d.makeDirectories path.parent).2 = some fault ∨
    (d.makeDirectories path.parent).2 = none ∧
      ∀ content, (d.makeDirectories path.parent).1.write path content = .error fault

/-- What is to be written has no part in whether it can be. -/
theorem write_eq_error (refused : d.write path content = .error fault) (other : Bytes) :
    d.write path other = .error fault := by
  rw [write, usePlace] at refused ⊢
  split at refused
  next null => exact (if_pos null).trans refused
  next noNull =>
    rw [if_neg noNull]
    cases found : d.place path with
    | error problem =>
        rw [found] at refused
        exact refused
    | ok place =>
        rw [found] at refused
        simp only [Except.bind] at refused ⊢
        split at refused
        next => exact refused
        next => cases refused

theorem store_eq_some_iff : (d.store path content).2 = some fault ↔ d.Blocks path fault := by
  rw [store, Blocks]
  obtain ⟨d₁, _ | problem⟩ := d.makeDirectories path.parent
  · simp only [reduceCtorEq, false_or, true_and]
    constructor
    · intro refused
      split at refused
      next => cases refused
      next problem written =>
        obtain rfl := Option.some_inj.mp refused
        exact write_eq_error written
    · intro refused
      rw [refused content]
  · simp

theorem exists_refused_of_usePlace {α : Type}
    {action : Place → Option Node → Except DiskProblem α} (noNull : path.holdsNull = false)
    (failed : d.usePlace path action = .error fault) :
    ∃ problem, fault = .refused problem path := by
  rw [usePlace, if_neg (by simp [noNull])] at failed
  cases used : (d.place path).bind fun place => action place (d.node? place) with
  | ok a => simp [used] at failed
  | error problem => exact ⟨problem, by simpa [used, eq_comm] using failed⟩

theorem eq_of_excuse {other : DiskFault} (kept : d.excuse path other = some fault) :
    other = fault := by
  cases other with
  | nullCharacter => exact Option.some_inj.mp kept
  | refused problem at' =>
      rw [excuse] at kept
      split at kept
      · cases kept
      · exact Option.some_inj.mp kept

theorem exists_refused_of_makeDirectory {other : DiskFault} (noNull : path.holdsNull = false)
    (made : d.makeDirectory path = .error other) (kept : d.excuse path other = some fault) :
    ∃ problem at', fault = .refused problem at' := by
  obtain ⟨problem, rfl⟩ := exists_refused_of_usePlace noNull made
  exact ⟨problem, path, (eq_of_excuse kept).symm⟩

theorem exists_refused_of_makeReversed {anchor : Anchor} {names : List String}
    (noNull : Path.holdsNull ⟨anchor, names.reverse⟩ = false)
    (failed : (d.makeReversed anchor names).2 = some fault) :
    ∃ problem at', fault = .refused problem at' := by
  induction names generalizing d with
  | nil =>
      rw [makeReversed] at failed
      split at failed
      next => cases failed
      next made => exact exists_refused_of_makeDirectory noNull made failed
  | cons name above ih =>
      have noNullAbove : Path.holdsNull ⟨anchor, above.reverse⟩ = false := by
        simp only [Path.holdsNull, List.any_eq_false, List.mem_reverse] at noNull ⊢
        exact fun other listed => noNull other (List.mem_cons_of_mem name listed)
      have parents := ih (d := d) noNullAbove
      rw [makeReversed] at failed
      split at failed
      next => cases failed
      next made =>
        generalize d.makeReversed anchor above = tried at parents failed
        obtain ⟨d₁, _ | problem⟩ := tried
        · dsimp only at failed
          split at failed
          next => cases failed
          next made => exact exists_refused_of_makeDirectory noNull made failed
        · exact parents failed
      next made => exact exists_refused_of_makeDirectory noNull made failed

/-- What blocks a path that a disk can hold is a problem of the disk. -/
theorem Blocks.exists_refused (blocks : d.Blocks path fault) (noNull : path.holdsNull = false) :
    ∃ problem at', fault = .refused problem at' := by
  rcases blocks with made | ⟨-, refused⟩
  · refine exists_refused_of_makeReversed ?_ made
    simp only [Path.parent, List.reverse_reverse, Path.holdsNull, List.any_eq_false] at noNull ⊢
    exact fun name listed => noNull name (List.dropLast_subset _ listed)
  · obtain ⟨problem, rfl⟩ := exists_refused_of_usePlace noNull (refused [])
    exact ⟨problem, path, rfl⟩

end Workflow.Disk
