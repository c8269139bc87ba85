/-!
Searches over numbered nodes. An arena lists the targets of each node's edges; a target may lie
outside the arena, and a search that comes upon such a node stops there. Both searches keep their
work on a stack.
-/

namespace Workflow

/-- The targets of the edges that leave each node. -/
abbrev Arena := List (List Nat)

/-- A node that a search wanted to enter, and that the arena does not hold. -/
structure OutOfRange where
  node : Nat
  deriving DecidableEq, Repr

/-- A test that passes less, and fails some member that the other test passes, counts less. -/
theorem countP_lt_countP {α : Type} {p q : α → Bool} {l : List α} (weaker : ∀ x, q x → p x)
    {x : α} (member : x ∈ l) (passes : p x) (fails : ¬ q x) : l.countP q < l.countP p := by
  induction l with
  | nil => cases member
  | cons y rest ih =>
    have le : rest.countP q ≤ rest.countP p := List.countP_mono_left fun z _ => weaker z
    rw [List.countP_cons, List.countP_cons]
    cases member with
    | head => simp [passes, fails]; omega
    | tail _ later =>
      have lt := ih later
      by_cases hq : q y
      · simp [hq, weaker y hq, lt]
      · rw [if_neg hq]; split <;> omega

namespace Arena

/-! ## Reachable nodes -/

/-- Targets that are not visited yet, each once. -/
def newTargets (allowed : Nat → Bool) (visited targets : List Nat) : List Nat :=
  (targets.filter fun t => allowed t && !visited.contains t).eraseDups

/-- How many entries of the arena are not visited. -/
def unvisited (arena : Arena) (visited : List Nat) : Nat :=
  arena.flatten.countP (!visited.contains ·)

theorem unvisited_lt {arena : Arena} {allowed : Nat → Bool} {visited targets : List Nat}
    (listed : targets ∈ arena) (new : newTargets allowed visited targets ≠ []) :
    arena.unvisited (newTargets allowed visited targets ++ visited) < arena.unvisited visited := by
  obtain ⟨t, member⟩ := List.exists_mem_of_ne_nil _ new
  have member' := member
  simp only [newTargets, List.mem_eraseDups, List.mem_filter, Bool.and_eq_true] at member
  apply countP_lt_countP (x := t)
  · simp
  · exact List.mem_flatten.2 ⟨targets, listed, member.1⟩
  · exact member.2.2
  · simp [member']

/-- Visits the nodes of the stack and all that they lead to. -/
def visit (arena : Arena) (allowed : Nat → Bool) (visited : List Nat) :
    List Nat → Except OutOfRange (List Nat)
  | [] => .ok visited
  | node :: stack =>
    match _found : arena[node]? with
    | none => .error ⟨node⟩
    | some targets =>
      let new := newTargets allowed visited targets
      if _noneNew : new = [] then visit arena allowed visited stack
      else visit arena allowed (new ++ visited) (new ++ stack)
termination_by stack => (arena.unvisited visited, stack.length)
decreasing_by
  · apply Prod.Lex.right; simp
  · apply Prod.Lex.left; exact unvisited_lt (List.mem_of_getElem? _found) _noneNew

/-- The nodes that edges lead to from `start`, which is one of them; edges into nodes that are not
allowed are not followed. -/
def reachableFrom (arena : Arena) (start : Nat) (allowed : Option (List Nat)) :
    Except OutOfRange (List Nat) :=
  arena.visit (fun t => allowed.all (·.contains t)) [start] [start]

/-! ## Cycles -/

/-- A node on the path of the search and its targets that are still to be tried. -/
structure Frame where
  node : Nat
  targets : List Nat

/-- How a search from one root ends. -/
inductive Outcome where
  | cycle (path : List Nat)
  | finished (nodes : List Nat)
  | outOfRange (place : OutOfRange)

/-- The nodes of the path, the last one first. -/
def pathOf (frames : List Frame) : List Nat := frames.map Frame.node

/-- How many nodes are neither finished nor on the path. -/
def fresh (arena : Arena) (finished : List Nat) (frames : List Frame) : Nat :=
  (List.range arena.length).countP fun i => !finished.contains i && !(pathOf frames).contains i

/-- Targets still to be tried, and frames still to be left. -/
def pending (frames : List Frame) : Nat :=
  frames.foldr (fun f n => f.targets.length + 1 + n) 0

/-- The part of the path from `node` on, closed by it. -/
def closing (node : Nat) (frames : List Frame) : List Nat :=
  node :: ((pathOf frames).takeWhile (· != node)).reverse ++ [node]

/-- Goes on with the last frame: its next target closes a cycle if it lies on the path, is passed
over if it is finished, and is entered otherwise. -/
def search (arena : Arena) (finished : List Nat) : List Frame → Outcome
  | [] => .finished finished
  | ⟨node, []⟩ :: frames => search arena (node :: finished) frames
  | ⟨node, target :: targets⟩ :: frames =>
    let rest : List Frame := ⟨node, targets⟩ :: frames
    match _held : arena[target]? with
    | none => .outOfRange ⟨target⟩
    | some onward =>
      if _onPath : target ∈ pathOf rest then .cycle (closing target rest)
      else if _done : target ∈ finished then search arena finished rest
      else search arena finished (⟨target, onward⟩ :: rest)
termination_by frames => (arena.fresh finished frames, pending frames)
decreasing_by
  · have same : arena.fresh (node :: finished) frames =
        arena.fresh finished (⟨node, []⟩ :: frames) := by
      simp only [fresh]
      congr 1
      funext i
      by_cases h : i = node <;> simp [pathOf, h]
    rw [same]
    apply Prod.Lex.right
    simp [pending]
  · have same : arena.fresh finished (⟨node, targets⟩ :: frames) =
        arena.fresh finished (⟨node, target :: targets⟩ :: frames) := rfl
    rw [same]
    apply Prod.Lex.right
    simp [pending]
  · apply Prod.Lex.left
    apply countP_lt_countP (x := target)
    · intro i
      simp [pathOf]
      grind
    · exact List.mem_range.2 (List.getElem?_eq_some_iff.1 _held).1
    · simp [_done]
      simpa [rest, pathOf] using _onPath
    · simp [pathOf]

/-- Searches from each root in turn that is not finished by then. -/
def searchRoots (arena : Arena) (finished : List Nat) :
    List Nat → Except OutOfRange (Option (List Nat))
  | [] => .ok none
  | root :: roots =>
    match arena[root]? with
    | none => .error ⟨root⟩
    | some targets =>
      if root ∈ finished then searchRoots arena finished roots
      else
        match search arena finished [⟨root, targets⟩] with
        | .cycle path => .ok (some path)
        | .finished nodes => searchRoots arena nodes roots
        | .outOfRange node => .error node

/-- The first cycle that a depth-first search from the roots closes, from the node that closes it
back to that node. -/
def findCycle (arena : Arena) (roots : List Nat) : Except OutOfRange (Option (List Nat)) :=
  arena.searchRoots [] roots

end Arena

end Workflow
