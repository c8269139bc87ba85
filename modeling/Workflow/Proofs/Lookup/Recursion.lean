import Workflow.Proofs.Lookup.Search

/-!
The search for cycles by recursion. A white node becomes gray when it is visited and black when all
its targets have been tried, the colours are handed on from one visit to the next, and an edge into
a gray node ends the search. Main statement: the search that keeps its work on a stack has the
outcome of the recursive one, down to the cycle that is found and to the node outside the arena that
is met first.
-/

namespace Workflow

namespace Recursion

open Arena (Frame pathOf closing)
open Lookup (Colour Coloured)
open Lookup.Search (count_set_lt count_set_le)

/-- What ends a search early. -/
inductive Stop where
  | cycle (path : List Nat)
  | outOfRange (place : OutOfRange)

/-- Colours later in the search: no more of them are white. -/
abbrev Later (colours : List Colour) :=
  { later : List Colour // later.count .white ≤ colours.count .white }

mutual

/-- Marks a white node gray, tries its targets, and marks it black. The path leads to the node. -/
def visit (arena : Arena) (path : List Nat) (colours : List Colour) (node : Nat)
    (white : colours[node]? = some .white) : Except Stop (Later colours) :=
  match arena[node]? with
  | none => .error (.outOfRange ⟨node⟩)
  | some targets => do
    let ⟨later, fewer⟩ ← visitAll arena (path ++ [node]) (colours.set node .gray) targets
    .ok ⟨later.set node .black,
      (count_set_le later node).trans (fewer.trans (count_set_lt white (by decide)).le)⟩
termination_by (colours.count .white, 0)
decreasing_by exact .left _ _ (count_set_lt white (by decide))

/-- Tries the targets of the last node of the path from left to right: visits the white ones, passes
the black ones over, and closes a cycle at a gray one. -/
def visitAll (arena : Arena) (path : List Nat) (colours : List Colour) :
    List Nat → Except Stop (Later colours)
  | [] => .ok ⟨colours, Nat.le_refl _⟩
  | target :: targets =>
    match _seen : colours[target]? with
    | none => .error (.outOfRange ⟨target⟩)
    | some .gray => .error (.cycle (path.dropWhile (· != target) ++ [target]))
    | some .black => visitAll arena path colours targets
    | some .white => do
      let ⟨later, fewer⟩ ← visit arena path colours target _seen
      let ⟨last, fewest⟩ ← visitAll arena path later targets
      .ok ⟨last, fewest.trans fewer⟩
termination_by targets => (colours.count .white, targets.length + 1)
decreasing_by
  · exact .right _ (by simp)
  · exact .right _ (by simp)
  · rcases Nat.lt_or_eq_of_le fewer with less | same
    · exact .left _ _ less
    · rw [same]
      exact .right _ (by simp)

end

/-- Visits each root in turn that is white by then. -/
def visitRoots (arena : Arena) (colours : List Colour) : List Nat → Except Stop Unit
  | [] => .ok ()
  | root :: roots =>
    match _seen : colours[root]? with
    | none => .error (.outOfRange ⟨root⟩)
    | some .white => do
      let later ← visit arena [] colours root _seen
      visitRoots arena later.1 roots
    | some _ => visitRoots arena colours roots

def answer : Except Stop Unit → Except OutOfRange (Option (List Nat))
  | .ok () => .ok none
  | .error (.cycle path) => .ok (some path)
  | .error (.outOfRange place) => .error place

/-- The first cycle that the recursive search from the roots closes. -/
def findCycle (arena : Arena) (roots : List Nat) : Except OutOfRange (Option (List Nat)) :=
  answer (visitRoots arena (arena.map fun _ => .white) roots)

/-! ## Visits and frames -/

def Stop.outcome : Stop → Arena.Outcome
  | .cycle path => .cycle path
  | .outOfRange place => .outOfRange place

variable {arena : Arena} {finished path path' : List Nat} {colours colours' : List Colour}
  {node target : Nat} {targets : List Nat} {frames frames' : List Frame} {outcome : Arena.Outcome}

/-- The recursive search stands where the search with frames does. -/
structure Stands (arena : Arena) (finished : List Nat) (frames : List Frame) (path : List Nat)
    (colours : List Colour) : Prop where
  coloured : Coloured arena finished (pathOf frames) colours
  distinct : (pathOf frames).Nodup
  path : path = (pathOf frames).reverse

namespace Stands

theorem initial (coloured : Coloured arena finished [] colours) :
    Stands arena finished [] [] colours where
  coloured := coloured
  distinct := List.nodup_nil
  path := rfl

theorem offPath (stands : Stands arena finished frames path colours)
    (other : colours[node]? ≠ some .gray) : node ∉ pathOf frames :=
  mt (stands.coloured.gray node).mpr other

theorem exists_targets {colour : Colour} (stands : Stands arena finished frames path colours)
    (seen : colours[node]? = some colour) : ∃ targets, arena[node]? = some targets := by
  have bound := (List.getElem?_eq_some_iff.mp seen).1
  rw [stands.coloured.size] at bound
  exact ⟨_, List.getElem?_eq_getElem bound⟩

/-- A white node that is visited comes to the path. -/
theorem enter (stands : Stands arena finished frames path colours)
    (white : colours[node]? = some .white) (targets : List Nat) :
    Stands arena finished (⟨node, targets⟩ :: frames) (path ++ [node])
      (colours.set node .gray) where
  coloured := stands.coloured.meet white
  distinct := List.nodup_cons.mpr ⟨stands.offPath (by simp [white]), stands.distinct⟩
  path := by
    rw [stands.path]
    exact List.reverse_cons.symm

theorem leave (stands : Stands arena finished (⟨node, targets⟩ :: frames) (path ++ [node]) colours) :
    Stands arena (node :: finished) frames path (colours.set node .black) where
  coloured := stands.coloured.leave (List.nodup_cons.mp stands.distinct).1
  distinct := (List.nodup_cons.mp stands.distinct).2
  path := List.append_cancel_right (stands.path.trans List.reverse_cons)

/-- Which targets a frame lists does not count. -/
theorem retarget (stands : Stands arena finished (⟨node, targets⟩ :: frames) path colours)
    (others : List Nat) : Stands arena finished (⟨node, others⟩ :: frames) path colours where
  coloured := stands.coloured
  distinct := stands.distinct
  path := stands.path

/-- The part of the path from a gray node on is what the frames above that node hold. -/
theorem dropWhile_append (stands : Stands arena finished frames path colours)
    (gray : colours[target]? = some .gray) :
    path.dropWhile (· != target) ++ [target] = closing target frames := by
  obtain ⟨after, split⟩ := Arena.exists_eq_takeWhile_append ((stands.coloured.gray target).mp gray)
  have backwards : path =
      after.reverse ++ target :: ((pathOf frames).takeWhile (· != target)).reverse := by
    rw [stands.path]
    conv_lhs => rw [split]
    simp
  have once : ∀ other ∈ after.reverse, (other != target) = true := by
    have distinct := stands.distinct
    rw [split] at distinct
    have apart := (List.nodup_cons.mp (List.nodup_append.mp distinct).2.1).1
    intro other member
    rw [bne_iff_ne]
    intro same
    exact apart (same ▸ List.mem_reverse.mp member)
  calc
    path.dropWhile (· != target) ++ [target]
        = (target :: ((pathOf frames).takeWhile (· != target)).reverse).dropWhile (· != target) ++
            [target] := by
          rw [backwards, List.dropWhile_append_of_pos once]
    _ = closing target frames := by
          rw [List.dropWhile_cons_of_neg (by simp), closing]

end Stands

/-- What is visited ends the search as the search with frames ends, or it returns where that one
goes on with the given frames. -/
inductive Returns (arena : Arena) (frames : List Frame) (path : List Nat) :
    Except Stop (Later colours) → Arena.Outcome → Prop
  | stopped (stop : Stop) : Returns arena frames path (.error stop) stop.outcome
  | returned {finished : List Nat} {later : Later colours}
      (stands : Stands arena finished frames path later.1) :
    Returns arena frames path (.ok later) (arena.search finished frames)

/-- What is done after a visit is done where the search goes on. -/
theorem Returns.andThen {visited : Except Stop (Later colours)}
    {next : Later colours → Except Stop (Later colours')}
    (returns : Returns arena frames path visited outcome)
    (goesOn : ∀ finished later, Stands arena finished frames path later.1 →
      Returns arena frames' path' (next later) (arena.search finished frames)) :
    Returns arena frames' path' (visited >>= next) outcome := by
  cases returns with
  | stopped stop => exact .stopped stop
  | returned stands => exact goesOn _ _ stands

theorem visit_found (white : colours[node]? = some .white) (found : arena[node]? = some targets) :
    visit arena path colours node white = (do
      let later ← visitAll arena (path ++ [node]) (colours.set node .gray) targets
      .ok ⟨later.1.set node .black, (count_set_le later.1 node).trans
        (later.2.trans (count_set_lt white (by decide)).le)⟩) := by
  rw [visit]
  split <;> simp_all

theorem visitAll_unseen (unseen : colours[target]? = none) :
    visitAll arena path colours (target :: targets) = .error (.outOfRange ⟨target⟩) := by
  rw [visitAll]
  split <;> simp_all

theorem visitAll_gray (gray : colours[target]? = some .gray) :
    visitAll arena path colours (target :: targets) =
      .error (.cycle (path.dropWhile (· != target) ++ [target])) := by
  rw [visitAll]
  split <;> simp_all

theorem visitAll_black (black : colours[target]? = some .black) :
    visitAll arena path colours (target :: targets) = visitAll arena path colours targets := by
  rw [visitAll]
  split <;> simp_all

theorem visitAll_white (white : colours[target]? = some .white) :
    visitAll arena path colours (target :: targets) = (do
      let later ← visit arena path colours target white
      let last ← visitAll arena path later.1 targets
      .ok ⟨last.1, last.2.trans later.2⟩) := by
  rw [visitAll]
  split <;> simp_all

/-- Visiting a node does what the search does with a frame for the node, until it leaves it. Trying
targets does what the search does with a frame that lists them, until it lists none. -/
theorem visit_returns (arena : Arena) :
    (∀ path colours node (white : colours[node]? = some .white) finished frames targets,
      Stands arena finished frames path colours → arena[node]? = some targets →
      Returns arena frames path (visit arena path colours node white)
        (arena.search finished (⟨node, targets⟩ :: frames))) ∧
    ∀ path colours targets finished frames node,
      Stands arena finished (⟨node, targets⟩ :: frames) path colours →
      Returns arena (⟨node, []⟩ :: frames) path (visitAll arena path colours targets)
        (arena.search finished (⟨node, targets⟩ :: frames)) := by
  -- The induction follows the recursion. The frames below stay arbitrary in it, since a visit within
  -- a visit has the frame of the outer node below its own.
  apply visit.mutual_induct arena
  case case1 =>
      intro path colours node white missing finished frames targets stands found
      cases missing.symm.trans found
  case case2 =>
      intro path colours node white targets found ih finished frames targets' stands found'
      obtain rfl := Option.some_inj.mp (found.symm.trans found')
      rw [visit_found white found]
      apply (ih finished frames node (stands.enter white targets)).andThen
      intro finished later stands
      rw [Arena.search]
      exact .returned stands.leave
  case case3 =>
      intro path colours finished frames node stands
      rw [visitAll]
      exact .returned stands
  case case4 =>
      intro path colours target targets unseen finished frames node stands
      have missing := stands.coloured.getElem?_eq_none_iff.mp unseen
      rw [visitAll_unseen unseen, Arena.search_next, missing]
      exact .stopped (.outOfRange ⟨target⟩)
  case case5 =>
      intro path colours target targets gray finished frames node stands
      have rest := stands.retarget targets
      obtain ⟨onward, found⟩ := rest.exists_targets gray
      rw [visitAll_gray gray, rest.dropWhile_append gray, Arena.search_next, found]
      dsimp only
      rw [if_pos ((rest.coloured.gray target).mp gray)]
      exact .stopped (.cycle _)
  case case6 =>
      intro path colours target targets black ih finished frames node stands
      have rest := stands.retarget targets
      have offPath : target ∉ pathOf (⟨node, targets⟩ :: frames) := rest.offPath (by simp [black])
      obtain ⟨onward, found⟩ := rest.exists_targets black
      rw [visitAll_black black, Arena.search_next, found]
      dsimp only
      rw [if_neg offPath, if_pos ((rest.coloured.black target).mp black)]
      exact ih finished frames node rest
  case case7 =>
      intro path colours target targets white ih ihAll finished frames node stands
      have rest := stands.retarget targets
      have offPath : target ∉ pathOf (⟨node, targets⟩ :: frames) := rest.offPath (by simp [white])
      have new : target ∉ finished := mt (rest.coloured.black target).mpr (by simp [white])
      obtain ⟨onward, found⟩ := rest.exists_targets white
      rw [visitAll_white white, Arena.search_next, found]
      dsimp only
      rw [if_neg offPath, if_neg new]
      -- The target is white, so the search enters it, and comes back to the frame of the node.
      apply (ih finished (⟨node, targets⟩ :: frames) onward rest found).andThen
      intro finished later stands
      apply (ihAll later.1 later.2 finished frames node stands).andThen
      intro finished last stands
      exact .returned stands

/-! ## Outcomes -/

section

variable {root : Nat} {roots : List Nat}

theorem visitRoots_unseen (unseen : colours[root]? = none) :
    visitRoots arena colours (root :: roots) = .error (.outOfRange ⟨root⟩) := by
  rw [visitRoots]
  split <;> simp_all

theorem visitRoots_black (black : colours[root]? = some .black) :
    visitRoots arena colours (root :: roots) = visitRoots arena colours roots := by
  rw [visitRoots]
  split <;> simp_all

theorem visitRoots_white (white : colours[root]? = some .white) :
    visitRoots arena colours (root :: roots) = (do
      let later ← visit arena [] colours root white
      visitRoots arena later.1 roots) := by
  rw [visitRoots]
  split <;> simp_all

end

/-- Between two roots the path is empty, so no root is gray. -/
theorem answer_visitRoots (roots : List Nat) (coloured : Coloured arena finished [] colours) :
    answer (visitRoots arena colours roots) = arena.searchRoots finished roots := by
  induction roots generalizing finished colours with
  | nil => rfl
  | cons root roots ih =>
      have stands := Stands.initial coloured
      rw [Arena.searchRoots]
      cases seen : colours[root]? with
      | none =>
          rw [visitRoots_unseen seen, coloured.getElem?_eq_none_iff.mp seen]
          rfl
      | some colour =>
          obtain ⟨targets, found⟩ := stands.exists_targets seen
          rw [found]
          dsimp only
          cases colour with
          | gray => exact absurd ((coloured.gray root).mp seen) List.not_mem_nil
          | black =>
              rw [visitRoots_black seen, if_pos ((coloured.black root).mp seen)]
              exact ih coloured
          | white =>
              have new : root ∉ finished := mt (coloured.black root).mpr (by simp [seen])
              have returns := (visit_returns arena).1 [] colours root seen finished [] targets stands
                found
              rw [visitRoots_white seen, if_neg new]
              generalize visit arena [] colours root seen = visited at returns ⊢
              generalize arena.search finished _ = outcome at returns ⊢
              cases returns with
              | stopped stop => cases stop <;> rfl
              | returned stands' =>
                  rw [Arena.search]
                  exact ih stands'.coloured

/-- The search with frames finds the cycle that the recursive one finds, stops at the same node
outside the arena, or finds no cycle where that one finds none; and so does the search by colours,
which resumes a node's targets by their positions. -/
theorem findCycle_eq_recursion (arena : Arena) (roots : List Nat) :
    arena.findCycle roots = Recursion.findCycle arena roots ∧
      Lookup.findCycle arena roots =
        (Recursion.findCycle arena roots).mapError (.position ·.node) := by
  have same : arena.findCycle roots = Recursion.findCycle arena roots :=
    (answer_visitRoots roots (.initial arena)).symm
  exact ⟨same, same ▸ Lookup.findCycle_eq arena roots⟩

/-- Node 2 tries 3 first, and 3 leads back to it by way of 0 and 1. -/
example : findCycle [[1], [2], [3, 4], [0]] [2, 0] = .ok (some [2, 3, 0, 1, 2]) := by cbv

/-- Node 4, which the arena lacks, is met before the cycle is closed. -/
example : findCycle [[1], [2], [4, 3], [0]] [2, 0] = .error ⟨4⟩ := by cbv

end Recursion

end Workflow
