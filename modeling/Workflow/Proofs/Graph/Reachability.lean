import Workflow.Proofs.Graph.Numbering

/-!
The search for the nodes that a node leads to. A visited node is on the stack, or all that it leads
to is visited as well; so what is visited in the end is the least set that holds the start and goes
along with every edge that is followed. Main statements: a search answers with that set, or comes
upon a node of it that lies outside the arena; and on a graph it answers for every id that the graph
has.
-/

namespace Workflow

open Relation

namespace Arena

/-- An edge leads to a node that is allowed. -/
def Follows (arena : Arena) (allowed : Nat → Bool) (node target : Nat) : Prop :=
  arena.Leads node target ∧ allowed target = true

variable {arena : Arena} {allowed : Nat → Bool} {start node : Nat}
  {visited stack targets : List Nat}

theorem mem_newTargets {target : Nat} : target ∈ newTargets allowed visited targets ↔
    target ∈ targets ∧ allowed target = true ∧ target ∉ visited := by
  simp [newTargets, List.mem_eraseDups]

/-- What holds between two steps of a search from `start`. -/
structure Visiting (arena : Arena) (allowed : Nat → Bool) (start : Nat)
    (visited stack : List Nat) : Prop where
  begun : start ∈ visited
  waiting : stack ⊆ visited
  reached : ∀ node ∈ visited, ReflTransGen (arena.Follows allowed) start node
  left : ∀ node ∈ visited, node ∉ stack →
    node < arena.length ∧ ∀ target, arena.Follows allowed node target → target ∈ visited

namespace Visiting

theorem initial (arena : Arena) (allowed : Nat → Bool) (start : Nat) :
    arena.Visiting allowed start [start] [start] where
  begun := List.mem_singleton_self start
  waiting := List.Subset.refl _
  reached := by
    intro node member
    rw [List.mem_singleton.mp member]
  left := by
    intro node member off
    exact absurd member off

/-- The last node of the stack gives way to those of its targets that are new. -/
theorem leave (visiting : arena.Visiting allowed start visited (node :: stack))
    (found : arena[node]? = some targets) :
    arena.Visiting allowed start (newTargets allowed visited targets ++ visited)
      (newTargets allowed visited targets ++ stack) where
  begun := List.mem_append_right _ visiting.begun
  waiting := by
    apply List.append_subset.mpr
    constructor
    · exact List.subset_append_left _ _
    · intro other member
      exact List.mem_append_right _ (visiting.waiting (List.mem_cons_of_mem node member))
  reached := by
    intro other member
    rcases List.mem_append.mp member with new | old
    · obtain ⟨listed, permitted, -⟩ := mem_newTargets.mp new
      have walk := visiting.reached node (visiting.waiting List.mem_cons_self)
      exact walk.tail ⟨⟨targets, found, listed⟩, permitted⟩
    · exact visiting.reached other old
  left := by
    intro other member off
    rw [List.mem_append, not_or] at off
    have old := (List.mem_append.mp member).resolve_left off.1
    by_cases same : other = node
    · subst same
      refine ⟨(List.getElem?_eq_some_iff.mp found).1, ?_⟩
      intro target follows
      rcases follows with ⟨⟨targets', found', listed⟩, permitted⟩
      obtain rfl := Option.some_inj.mp (found.symm.trans found')
      by_cases before : target ∈ visited
      · exact List.mem_append_right _ before
      · exact List.mem_append_left _ (mem_newTargets.mpr ⟨listed, permitted, before⟩)
    · have gone := visiting.left other old (List.not_mem_cons_of_ne_of_not_mem same off.2)
      refine ⟨gone.1, ?_⟩
      intro target follows
      exact List.mem_append_right _ (gone.2 target follows)

end Visiting

/-- What the outcome of a search from `start` says of the arena. -/
def ReachAnswers (arena : Arena) (allowed : Nat → Bool) (start : Nat) :
    Except OutOfRange (List Nat) → Prop
  | .ok visited => (∀ node, node ∈ visited ↔ ReflTransGen (arena.Follows allowed) start node) ∧
      ∀ node ∈ visited, node < arena.length
  | .error place => arena.length ≤ place.node ∧
      ReflTransGen (arena.Follows allowed) start place.node

/-- One step of the search, whether or not it finds new nodes. -/
theorem visit_next (found : arena[node]? = some targets) (visited stack : List Nat) :
    arena.visit allowed visited (node :: stack) =
      arena.visit allowed (newTargets allowed visited targets ++ visited)
        (newTargets allowed visited targets ++ stack) := by
  rw [visit]
  split
  next missing => cases missing.symm.trans found
  next targets' found' =>
    obtain rfl := Option.some_inj.mp (found'.symm.trans found)
    dsimp only
    split
    next none => rw [none, List.nil_append, List.nil_append]
    next => rfl

theorem visit_answers (visiting : arena.Visiting allowed start visited stack) :
    arena.ReachAnswers allowed start (arena.visit allowed visited stack) := by
  induction visited, stack using visit.induct arena allowed with
  | case1 visited =>
      -- With an empty stack all visited nodes have been left, so the set is closed.
      rw [visit]
      have left (node : Nat) (member : node ∈ visited) :=
        visiting.left node member List.not_mem_nil
      refine ⟨?_, fun node member => (left node member).1⟩
      intro node
      refine ⟨visiting.reached node, ?_⟩
      intro walk
      induction walk with
      | refl => exact visiting.begun
      | tail _ follows ih => exact (left _ ih).2 _ follows
  | case2 visited node stack missing =>
      rw [visit]
      split
      next =>
        have walk := visiting.reached node (visiting.waiting List.mem_cons_self)
        exact ⟨List.getElem?_eq_none_iff.mp missing, walk⟩
      next found => cases missing.symm.trans found
  | case3 visited node stack targets found new noneNew ih =>
      have left := visiting.leave found
      rw [visit_next found]
      have none : newTargets allowed visited targets = [] := noneNew
      rw [none] at left ⊢
      exact ih left
  | case4 visited node stack targets found new someNew ih =>
      rw [visit_next found]
      exact ih (visiting.leave found)

theorem reachableFrom_answers (arena : Arena) (start : Nat) (allowed : Option (List Nat)) :
    arena.ReachAnswers (fun target => allowed.all (·.contains target)) start
      (arena.reachableFrom start allowed) :=
  visit_answers (.initial arena _ start)

/-- Without loose ends a search from a node of the arena never comes upon a node outside. -/
theorem exists_reachableFrom_eq_ok (enclosed : arena.Enclosed) (inside : start < arena.length)
    (allowed : Option (List Nat)) : ∃ visited, arena.reachableFrom start allowed = .ok visited ∧
      ∀ node, node ∈ visited ↔
        ReflTransGen (arena.Follows fun target => allowed.all (·.contains target)) start node := by
  have answer := reachableFrom_answers arena start allowed
  cases outcome : arena.reachableFrom start allowed with
  | ok visited =>
      rw [outcome] at answer
      exact ⟨visited, rfl, answer.1⟩
  | error place =>
      rw [outcome] at answer
      rcases answer with ⟨outside, walk⟩
      have leads : ReflTransGen arena.Leads start place.node :=
        ReflTransGen.mono (fun _ _ (follows : arena.Follows _ _ _) => follows.1) _ _ walk
      have bound := enclosed.lt_of_reflTransGen leads inside
      omega

end Arena

namespace Graph

variable {nodes : List String} {edges : List (String × String)}

/-- An edge of the list leads to a declared node. -/
def JoinsDeclared (nodes : List String) (edges : List (String × String))
    (source target : String) : Prop :=
  Joins edges source target ∧ target ∈ nodes

theorem follows_numbers (nodes : List String) (edges : List (String × String)) :
    (ofEdges nodes edges).Numbers
      ((ofEdges nodes edges).successors.Follows fun target =>
        (some (ofEdges nodes edges).declared).all (·.contains target))
      (JoinsDeclared nodes edges) where
  step_iff i j := by
    simp only [Arena.Follows, leads_iff, Option.all_some, List.contains_iff_mem, mem_declared]
    constructor
    · intro follows
      rcases follows with ⟨⟨source, target, at_i, at_j, listed⟩, id, declared, at_j'⟩
      obtain rfl := Option.some_inj.mp (at_j.symm.trans at_j')
      exact ⟨source, target, at_i, at_j, listed, declared⟩
    · intro joined
      rcases joined with ⟨source, target, at_i, at_j, listed, declared⟩
      exact ⟨⟨source, target, at_i, at_j, listed⟩, target, declared, at_j⟩
  known source _ joined := mem_ids.mpr (.inr ⟨source, .inr joined.1⟩)

theorem mem_idsOf {g : Graph} {numbers : List Nat} {id : String} :
    id ∈ g.idsOf numbers ↔ ∃ i ∈ numbers, g.ids[i]? = some id := List.mem_filterMap

/-- The search from an id of the graph finds the ids that edges into declared nodes lead to. -/
theorem exists_reachable? {start : String} (known : start ∈ (ofEdges nodes edges).ids) :
    ∃ reached, (ofEdges nodes edges).reachable? start = some reached ∧
      ∀ id, id ∈ reached ↔ ReflTransGen (JoinsDeclared nodes edges) start id := by
  obtain ⟨i, at_i⟩ := exists_number known
  have bound := (List.getElem?_eq_some_iff.mp at_i).1
  have enclosed : (ofEdges nodes edges).successors.Enclosed := successors_enclosed
  obtain ⟨visited, outcome, members⟩ := Arena.exists_reachableFrom_eq_ok enclosed
    (length_successors.symm ▸ bound) (some (ofEdges nodes edges).declared)
  have index : (ofEdges nodes edges).index? start = some i :=
    (idxOf?_eq_some_iff ids_nodup).mpr at_i
  have found : (ofEdges nodes edges).reachable? start = some ((ofEdges nodes edges).idsOf
      ((List.range (ofEdges nodes edges).size).filter visited.contains)) := by
    rw [reachable?, index]
    simp only [outcome, Option.bind_eq_bind, Option.bind_some, Except.toOption]
  refine ⟨_, found, ?_⟩
  intro id
  simp only [mem_idsOf, List.mem_filter, List.mem_range, List.contains_iff_mem, members]
  constructor
  · intro numbered
    rcases numbered with ⟨j, ⟨-, walk⟩, at_j⟩
    obtain ⟨place, at_place, named⟩ := (follows_numbers nodes edges).walk_of at_i walk
    obtain rfl := Option.some_inj.mp (at_place.symm.trans at_j)
    exact named
  · intro named
    obtain ⟨j, at_j, walk⟩ := (follows_numbers nodes edges).walk_to at_i named
    exact ⟨j, ⟨(List.getElem?_eq_some_iff.mp at_j).1, walk⟩, at_j⟩

end Graph

end Workflow
