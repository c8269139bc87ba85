import Mathlib.Data.List.Count
import Workflow.Proofs.Graph.CycleSearch
import Workflow.Proofs.Success

/-!
The search for cycles with a colour for each node, where all that it reads is looked up and a lookup
may find nothing. White nodes are not met yet, gray ones lie on the path, and black ones are
finished. Main statement: whatever the arena is, the search by colours has the outcome of the search
that keeps the finished nodes, so no lookup on the way finds nothing but that of a node outside the
arena.
-/

namespace Workflow

/-- What a lookup does not find: an id, a position of a list, or a node on a path. -/
inductive Missing where
  | id (id : String)
  | position (i : Nat)
  | node (i : Nat)
  deriving DecidableEq, Repr

namespace Lookup

section

variable {α : Type}

def itemAt (items : List α) (i : Nat) : Except Missing α :=
  match items[i]? with
  | some item => .ok item
  | none => .error (.position i)

def setAt (items : List α) (i : Nat) (item : α) : Except Missing (List α) :=
  if i < items.length then .ok (items.set i item) else .error (.position i)

def withoutLast : List α → Except Missing (List α)
  | [] => .error (.position 0)
  | item :: items => .ok (item :: items).dropLast

theorem itemAt_eq_ok {items : List α} {i : Nat} {item : α} (found : items[i]? = some item) :
    itemAt items i = .ok item := by
  rw [itemAt, found]

theorem itemAt_eq_error {items : List α} {i : Nat} (missing : items[i]? = none) :
    itemAt items i = .error (.position i) := by
  rw [itemAt, missing]

theorem of_itemAt {items : List α} {i : Nat} {item : α} (found : itemAt items i = .ok item) :
    items[i]? = some item := by
  rw [itemAt] at found
  split at found
  next there =>
    cases found
    exact there
  next => cases found

theorem setAt_eq_ok {items : List α} {i : Nat} (bound : i < items.length) (item : α) :
    setAt items i item = .ok (items.set i item) := if_pos bound

theorem of_setAt {items changed : List α} {i : Nat} {item : α}
    (set : setAt items i item = .ok changed) : i < items.length ∧ items.set i item = changed := by
  rw [setAt] at set
  split at set
  next bound =>
    cases set
    exact ⟨bound, rfl⟩
  next => cases set

theorem withoutLast_concat (items : List α) (item : α) :
    withoutLast (items ++ [item]) = .ok items := by
  cases items with
  | nil => rfl
  | cons first items => rw [List.cons_append, withoutLast, ← List.cons_append, List.dropLast_concat]

end

/-- The first position of a node on a path. -/
def positionOf (path : List Nat) (node : Nat) : Except Missing Nat :=
  match path.idxOf? node with
  | some i => .ok i
  | none => .error (.node node)

theorem positionOf_append {before : List Nat} {node : Nat} (off : node ∉ before)
    (after : List Nat) : positionOf (before ++ node :: after) node = .ok before.length := by
  have found : (before ++ node :: after).idxOf? node = some before.length := by
    rw [List.idxOf?_eq_some_iff]
    refine ⟨by simp, by simp, ?_⟩
    intro i less same
    rw [List.getElem_append_left less] at same
    exact off (same ▸ List.getElem_mem less)
  rw [positionOf, found]

/-! ## Colours -/

inductive Colour where
  | white | gray | black
  deriving DecidableEq, Repr

/-- The colours of all nodes, the path from the root on, and for each node of the path, the last one
first, how many of its targets are tried. -/
structure Search where
  colours : List Colour
  path : List Nat
  frames : List (Nat × Nat)

inductive Ending where
  | cycle (path : List Nat)
  | finished (colours : List Colour)

inductive Progress where
  | going (search : Search)
  | ended (ending : Ending)

namespace Search

/-- A gray target closes a cycle, a white one comes to the path, and a black one is passed over. -/
def tryTarget (s : Search) (target : Nat) (frames : List (Nat × Nat)) :
    Except Missing Progress := do
  match ← itemAt s.colours target with
  | .gray =>
    let start ← positionOf s.path target
    .ok (.ended (.cycle (s.path.drop start ++ [target])))
  | .white =>
    let colours ← setAt s.colours target .gray
    .ok (.going ⟨colours, s.path ++ [target], (target, 0) :: frames⟩)
  | .black => .ok (.going ⟨s.colours, s.path, frames⟩)

/-- Leaves the last node of the path where all its targets are tried, else tries the next one. -/
def step (arena : Arena) (s : Search) : Except Missing Progress :=
  match s.frames with
  | [] => .ok (.ended (.finished s.colours))
  | (node, tried) :: frames => do
    let targets ← itemAt arena node
    if tried = targets.length then
      let path ← withoutLast s.path
      let colours ← setAt s.colours node .black
      .ok (.going ⟨colours, path, frames⟩)
    else
      let target ← itemAt targets tried
      s.tryTarget target ((node, tried + 1) :: frames)

/-- Targets still to be tried, and frames still to be left. -/
def pending (arena : Arena) (frames : List (Nat × Nat)) : Nat :=
  frames.foldr (fun frame n => (arena[frame.1]?.getD []).length + 1 - frame.2 + n) 0

theorem count_set_lt {colours : List Colour} {node : Nat} {colour : Colour}
    (white : colours[node]? = some .white) (other : colour ≠ .white) :
    (colours.set node colour).count .white < colours.count .white := by
  obtain ⟨bound, found⟩ := List.getElem?_eq_some_iff.mp white
  have member : 0 < colours.count .white := List.count_pos_iff.mpr (List.mem_of_getElem? white)
  rw [List.count_set bound, found, if_pos (beq_self_eq_true _), if_neg (by simpa using other)]
  omega

theorem count_set_le (colours : List Colour) (node : Nat) :
    (colours.set node .black).count .white ≤ colours.count .white := by
  by_cases bound : node < colours.length
  · rw [List.count_set bound]
    split <;> simp
  · rw [List.set_eq_of_length_le (Nat.le_of_not_lt bound)]

/-- Every step meets a white node, or leaves a node or passes a target over. -/
theorem step_decreases {arena : Arena} {s later : Search}
    (step : s.step arena = .ok (.going later)) :
    later.colours.count .white < s.colours.count .white ∨
      later.colours.count .white ≤ s.colours.count .white ∧
        pending arena later.frames < pending arena s.frames := by
  obtain ⟨colours, path, frames⟩ := s
  cases frames with
  | nil => cases step
  | cons frame frames =>
    obtain ⟨node, tried⟩ := frame
    obtain ⟨targets, found, step⟩ := Except.andThen_eq_ok_iff.mp step
    have found := of_itemAt found
    split at step
    next last =>
      obtain ⟨path', -, step⟩ := Except.andThen_eq_ok_iff.mp step
      obtain ⟨colours', set, step⟩ := Except.andThen_eq_ok_iff.mp step
      obtain ⟨-, rfl⟩ := of_setAt set
      cases step
      refine .inr ⟨count_set_le _ _, ?_⟩
      simp [pending, found, last]
    next =>
      obtain ⟨target, there, step⟩ := Except.andThen_eq_ok_iff.mp step
      have bound := (List.getElem?_eq_some_iff.mp (of_itemAt there)).1
      obtain ⟨colour, seen, step⟩ := Except.andThen_eq_ok_iff.mp step
      split at step
      next =>
        obtain ⟨start, -, step⟩ := Except.andThen_eq_ok_iff.mp step
        cases step
      next =>
        obtain ⟨colours', set, step⟩ := Except.andThen_eq_ok_iff.mp step
        obtain ⟨-, rfl⟩ := of_setAt set
        cases step
        exact .inl (count_set_lt (of_itemAt seen) (by decide))
      next =>
        cases step
        refine .inr ⟨Nat.le_refl _, ?_⟩
        simp only [pending, List.foldr_cons, found, Option.getD_some]
        omega

/-- Goes on until a cycle is closed or the path is left. -/
def run (arena : Arena) (s : Search) : Except Missing Ending :=
  match _step : s.step arena with
  | .error missing => .error missing
  | .ok (.ended ending) => .ok ending
  | .ok (.going later) => run arena later
termination_by (s.colours.count .white, pending arena s.frames)
decreasing_by
  rcases step_decreases _step with fewer | ⟨noMore, less⟩
  · exact .left _ _ fewer
  · rcases Nat.lt_or_eq_of_le noMore with fewer | same
    · exact .left _ _ fewer
    · rw [same]
      exact .right _ less

variable {arena : Arena} {s later : Search}

theorem run_going (step : s.step arena = .ok (.going later)) : s.run arena = later.run arena := by
  rw [run]
  split <;> simp_all

theorem run_ended {ending : Ending} (step : s.step arena = .ok (.ended ending)) :
    s.run arena = .ok ending := by
  rw [run]
  split <;> simp_all

theorem run_error {missing : Missing} (step : s.step arena = .error missing) :
    s.run arena = .error missing := by
  rw [run]
  split <;> simp_all

end Search

/-- Searches from each root in turn that is white by then. -/
def searchRoots (arena : Arena) (colours : List Colour) :
    List Nat → Except Missing (Option (List Nat))
  | [] => .ok none
  | root :: roots => do
    match ← itemAt colours root with
    | .white =>
      let colours ← setAt colours root .gray
      match ← Search.run arena ⟨colours, [root], [(root, 0)]⟩ with
      | .cycle path => .ok (some path)
      | .finished colours => searchRoots arena colours roots
    | _ => searchRoots arena colours roots

def findCycle (arena : Arena) (roots : List Nat) : Except Missing (Option (List Nat)) :=
  searchRoots arena (arena.map fun _ => .white) roots

/-! ## What the colours tell -/

open Arena (pathOf closing Frame)

variable {arena : Arena} {finished path : List Nat} {colours : List Colour} {node target : Nat}

/-- Gray are the nodes on the path, and black the finished ones. -/
structure Coloured (arena : Arena) (finished path : List Nat) (colours : List Colour) : Prop where
  size : colours.length = arena.length
  gray : ∀ node, colours[node]? = some .gray ↔ node ∈ path
  black : ∀ node, colours[node]? = some .black ↔ node ∈ finished

namespace Coloured

theorem initial (arena : Arena) : Coloured arena [] [] (arena.map fun _ => .white) where
  size := List.length_map _
  gray := by simp [List.getElem?_replicate]
  black := by simp [List.getElem?_replicate]

theorem getElem?_eq_none_iff (coloured : Coloured arena finished path colours) :
    colours[node]? = none ↔ arena[node]? = none := by
  rw [List.getElem?_eq_none_iff, List.getElem?_eq_none_iff, coloured.size]

theorem white_of_new {targets : List Nat} (coloured : Coloured arena finished path colours)
    (found : arena[node]? = some targets) (offPath : node ∉ path) (new : node ∉ finished) :
    colours[node]? = some .white := by
  cases colour : colours[node]? with
  | none =>
      rw [coloured.getElem?_eq_none_iff.mp colour] at found
      cases found
  | some colour' =>
      cases colour' with
      | white => rfl
      | gray => exact absurd ((coloured.gray node).mp colour) offPath
      | black => exact absurd ((coloured.black node).mp colour) new

theorem meet (coloured : Coloured arena finished path colours)
    (white : colours[node]? = some .white) :
    Coloured arena finished (node :: path) (colours.set node .gray) where
  size := by rw [List.length_set, coloured.size]
  gray := by
    intro other
    have bound := (List.getElem?_eq_some_iff.mp white).1
    rw [List.getElem?_set, List.mem_cons, ← coloured.gray]
    by_cases same : node = other
    · subst same
      simp [bound]
    · rw [if_neg same]
      simp [Ne.symm same]
  black := by
    intro other
    rw [List.getElem?_set, ← coloured.black]
    by_cases same : node = other
    · subst same
      simp [white]
    · rw [if_neg same]

theorem leave (coloured : Coloured arena finished (node :: path) colours) (once : node ∉ path) :
    Coloured arena (node :: finished) path (colours.set node .black) where
  size := by rw [List.length_set, coloured.size]
  gray := by
    intro other
    have gray := coloured.gray other
    rw [List.mem_cons] at gray
    rw [List.getElem?_set]
    by_cases same : node = other
    · subst same
      simp [once]
    · rw [if_neg same, gray]
      simp [Ne.symm same]
  black := by
    intro other
    have gray := (coloured.gray node).mpr List.mem_cons_self
    have bound := (List.getElem?_eq_some_iff.mp gray).1
    rw [List.getElem?_set, List.mem_cons, ← coloured.black]
    by_cases same : node = other
    · subst same
      simp [bound]
    · rw [if_neg same]
      simp [Ne.symm same]

end Coloured

/-- A frame that counts the targets that are tried, and one that lists those still to be tried. -/
def Resumes (arena : Arena) (counted : Nat × Nat) (frame : Frame) : Prop :=
  counted.1 = frame.node ∧ ∃ done, arena[frame.node]? = some (done ++ frame.targets) ∧
    counted.2 = done.length

/-- The search by colours stands where the search with the finished nodes does. -/
structure Tells (arena : Arena) (finished : List Nat) (frames : List Frame) (s : Search) :
    Prop where
  coloured : Coloured arena finished (pathOf frames) s.colours
  distinct : (pathOf frames).Nodup
  path : s.path = (pathOf frames).reverse
  frames : List.Forall₂ (Resumes arena) s.frames frames

namespace Tells

variable {targets onward : List Nat} {frames : List Frame} {s : Search}

theorem start (coloured : Coloured arena finished [] colours)
    (found : arena[node]? = some targets) (white : colours[node]? = some .white) :
    Tells arena finished [⟨node, targets⟩] ⟨colours.set node .gray, [node], [(node, 0)]⟩ where
  coloured := coloured.meet white
  distinct := List.nodup_singleton node
  path := rfl
  frames := .cons ⟨rfl, [], found, rfl⟩ .nil

/-- The last frame of the one search is that of the other. -/
theorem exists_frame (tells : Tells arena finished (⟨node, targets⟩ :: frames) s) :
    ∃ tried rest, arena[node]? = some (tried ++ targets) ∧
      s.frames = (node, tried.length) :: rest ∧ List.Forall₂ (Resumes arena) rest frames := by
  obtain ⟨⟨node', count⟩, rest, ⟨same, tried, found, counted⟩, others, split⟩ :=
    List.forall₂_cons_right_iff.mp tells.frames
  dsimp only at same counted
  exact ⟨tried, rest, found, by rw [split, same, counted], others⟩

/-- A node without further targets is left: it lies at the end of the path. -/
theorem leave (tells : Tells arena finished (⟨node, []⟩ :: frames) s) :
    ∃ later, s.step arena = .ok (.going later) ∧ Tells arena (node :: finished) frames later := by
  obtain ⟨tried, rest, found, split, others⟩ := tells.exists_frame
  obtain ⟨once, distinct⟩ := List.nodup_cons.mp tells.distinct
  have gray := (tells.coloured.gray node).mpr List.mem_cons_self
  have bound := (List.getElem?_eq_some_iff.mp gray).1
  have last : s.path = (pathOf frames).reverse ++ [node] := tells.path.trans List.reverse_cons
  refine ⟨⟨s.colours.set node .black, (pathOf frames).reverse, rest⟩, ?_,
    ⟨tells.coloured.leave once, distinct, rfl, others⟩⟩
  rw [List.append_nil] at found
  simp [Search.step, split, itemAt_eq_ok found, last, withoutLast_concat, setAt_eq_ok bound]

theorem step_eq {tried : List Nat} {rest : List (Nat × Nat)}
    (found : arena[node]? = some (tried ++ target :: targets))
    (split : s.frames = (node, tried.length) :: rest) :
    s.step arena = s.tryTarget target ((node, (tried ++ [target]).length) :: rest) := by
  have there : (tried ++ target :: targets)[tried.length]? = some target := by simp
  have more : ¬ tried.length = (tried ++ target :: targets).length := by simp
  rw [List.length_append, List.length_singleton]
  simp only [Search.step, split, itemAt_eq_ok found, Except.ok_andThen, if_neg more,
    itemAt_eq_ok there]

/-- A target outside the arena has no colour. -/
theorem outside (tells : Tells arena finished (⟨node, target :: targets⟩ :: frames) s)
    (missing : arena[target]? = none) : s.step arena = .error (.position target) := by
  obtain ⟨tried, rest, found, split, -⟩ := tells.exists_frame
  rw [step_eq found split, Search.tryTarget,
    itemAt_eq_error (tells.coloured.getElem?_eq_none_iff.mpr missing)]
  rfl

/-- A gray target lies on the path and closes the cycle. -/
theorem closes (tells : Tells arena finished (⟨node, target :: targets⟩ :: frames) s)
    (onPath : target ∈ pathOf (⟨node, targets⟩ :: frames)) :
    s.step arena = .ok (.ended (.cycle (closing target (⟨node, targets⟩ :: frames)))) := by
  obtain ⟨tried, rest, found, split, -⟩ := tells.exists_frame
  obtain ⟨after, path_eq⟩ := Arena.exists_eq_takeWhile_append onPath
  have distinct : (pathOf (⟨node, targets⟩ :: frames)).Nodup := tells.distinct
  have path : s.path = (pathOf (⟨node, targets⟩ :: frames)).reverse := tells.path
  rw [path_eq, List.reverse_append, List.reverse_cons, List.append_assoc] at path
  rw [path_eq] at distinct
  have before : target ∉ after.reverse := by
    rw [List.mem_reverse]
    exact (List.nodup_cons.mp (List.nodup_append.mp distinct).2.1).1
  have gray := (tells.coloured.gray target).mpr onPath
  rw [step_eq found split, Search.tryTarget, itemAt_eq_ok gray, Except.ok_andThen]
  dsimp only
  rw [path, List.singleton_append, positionOf_append before, Except.ok_andThen, List.drop_left]
  rfl

/-- A black target is passed over. -/
theorem pass (tells : Tells arena finished (⟨node, target :: targets⟩ :: frames) s)
    (member : target ∈ finished) : ∃ later, s.step arena = .ok (.going later) ∧
      Tells arena finished (⟨node, targets⟩ :: frames) later := by
  obtain ⟨tried, rest, found, split, others⟩ := tells.exists_frame
  have black := (tells.coloured.black target).mpr member
  refine ⟨⟨s.colours, s.path, (node, (tried ++ [target]).length) :: rest⟩, ?_,
    ⟨tells.coloured, tells.distinct, tells.path, .cons ⟨rfl, tried ++ [target], ?_, rfl⟩ others⟩⟩
  · rw [step_eq found split, Search.tryTarget, itemAt_eq_ok black]
    rfl
  · rw [found, List.append_assoc]
    rfl

/-- A white target comes to the path. -/
theorem enter (tells : Tells arena finished (⟨node, target :: targets⟩ :: frames) s)
    (here : arena[target]? = some onward) (offPath : target ∉ pathOf (⟨node, targets⟩ :: frames))
    (new : target ∉ finished) : ∃ later, s.step arena = .ok (.going later) ∧
      Tells arena finished (⟨target, onward⟩ :: ⟨node, targets⟩ :: frames) later := by
  obtain ⟨tried, rest, found, split, others⟩ := tells.exists_frame
  have white := tells.coloured.white_of_new here offPath new
  have bound := (List.getElem?_eq_some_iff.mp white).1
  have path : s.path ++ [target] =
      (pathOf (⟨target, onward⟩ :: ⟨node, targets⟩ :: frames)).reverse := by
    rw [tells.path]
    exact List.reverse_cons.symm
  have resumed : Resumes arena (node, (tried ++ [target]).length) ⟨node, targets⟩ :=
    ⟨rfl, tried ++ [target], by rw [found, List.append_assoc]; rfl, rfl⟩
  refine ⟨⟨s.colours.set target .gray, s.path ++ [target],
      (target, 0) :: (node, (tried ++ [target]).length) :: rest⟩, ?_,
    ⟨tells.coloured.meet white, List.nodup_cons.mpr ⟨offPath, tells.distinct⟩, path,
      .cons ⟨rfl, [], here, rfl⟩ (.cons resumed others)⟩⟩
  rw [step_eq found split, Search.tryTarget, itemAt_eq_ok white, Except.ok_andThen]
  dsimp only
  rw [setAt_eq_ok bound]
  rfl

end Tells

/-! ## Outcomes -/

/-- Both searches end with the same cycle, with the same finished nodes, or at the same node outside
the arena. -/
inductive Alike (arena : Arena) : Arena.Outcome → Except Missing Ending → Prop
  | cycle (path : List Nat) : Alike arena (.cycle path) (.ok (.cycle path))
  | finished {nodes : List Nat} {colours : List Colour}
      (coloured : Coloured arena nodes [] colours) :
    Alike arena (.finished nodes) (.ok (.finished colours))
  | outOfRange (place : OutOfRange) :
    Alike arena (.outOfRange place) (.error (.position place.node))

theorem run_alike (finished : List Nat) (frames : List Frame) : ∀ s : Search,
    Tells arena finished frames s → Alike arena (arena.search finished frames) (s.run arena) := by
  induction finished, frames using Arena.search.induct arena with
  | case1 finished =>
      intro s tells
      have none : s.frames = [] := List.forall₂_nil_right_iff.mp tells.frames
      have ended : s.step arena = .ok (.ended (.finished s.colours)) := by rw [Search.step, none]
      rw [Arena.search, Search.run_ended ended]
      exact .finished tells.coloured
  | case2 finished node frames ih =>
      intro s tells
      obtain ⟨later, step, tells⟩ := tells.leave
      rw [Arena.search, Search.run_going step]
      exact ih later tells
  | case3 finished node target targets frames missing =>
      intro s tells
      rw [Arena.search_next, missing, Search.run_error (tells.outside missing)]
      exact .outOfRange _
  | case4 finished node target targets frames rest onward found onPath =>
      intro s tells
      rw [Arena.search_next, found]
      dsimp only
      rw [if_pos onPath, Search.run_ended (tells.closes onPath)]
      exact .cycle _
  | case5 finished node target targets frames rest onward found offPath member ih =>
      intro s tells
      obtain ⟨later, step, tells⟩ := tells.pass member
      rw [Arena.search_next, found]
      dsimp only
      rw [if_neg offPath, if_pos member, Search.run_going step]
      exact ih later tells
  | case6 finished node target targets frames rest onward found offPath new ih =>
      intro s tells
      obtain ⟨later, step, tells⟩ := tells.enter found offPath new
      rw [Arena.search_next, found]
      dsimp only
      rw [if_neg offPath, if_neg new, Search.run_going step]
      exact ih later tells

theorem searchRoots_eq (roots : List Nat) (coloured : Coloured arena finished [] colours) :
    searchRoots arena colours roots =
      (arena.searchRoots finished roots).mapError (.position ·.node) := by
  induction roots generalizing finished colours with
  | nil => rfl
  | cons root roots ih =>
      rw [searchRoots, Arena.searchRoots]
      split
      next missing =>
        rw [itemAt_eq_error (coloured.getElem?_eq_none_iff.mpr missing)]
        rfl
      next targets found =>
        split
        next member =>
          rw [itemAt_eq_ok ((coloured.black root).mpr member)]
          exact ih coloured
        next new =>
          have white := coloured.white_of_new found List.not_mem_nil new
          have bound := (List.getElem?_eq_some_iff.mp white).1
          have alike := run_alike _ _ _ (Tells.start coloured found white)
          rw [itemAt_eq_ok white, Except.ok_andThen]
          dsimp only
          rw [setAt_eq_ok bound, Except.ok_andThen]
          generalize Search.run arena _ = ended at alike ⊢
          generalize arena.search finished _ = outcome at alike ⊢
          cases alike with
          | cycle path => rfl
          | finished coloured' => exact ih coloured'
          | outOfRange place => rfl

/-- The search by colours has the same outcome as the one that keeps the finished nodes. -/
theorem findCycle_eq (arena : Arena) (roots : List Nat) :
    findCycle arena roots = (arena.findCycle roots).mapError (.position ·.node) :=
  searchRoots_eq roots (.initial arena)

end Lookup

end Workflow
