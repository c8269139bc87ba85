import Mathlib.Order.Bounds.Basic
import Workflow.Proofs.Graph.Reachability

/-!
What the search for the nodes that a node leads to answers. On an arena that may have loose ends it
answers with the least closed set, and only where that set lies inside the arena. On a graph it
answers for every id that the graph has, also for one that is an end of an edge only: such an id is
found as the start of the search, and all others that are found are declared.
-/

namespace Workflow

open Relation

namespace Arena

/-! ## Each node once -/

section

variable {arena : Arena} {allowed : Nat → Bool}

/-- A node is kept only where it is not among those kept before it. -/
theorem nodup_eraseDups_loop {kept : List Nat} (distinct : kept.Nodup) (nodes : List Nat) :
    (List.eraseDupsBy.loop (· == ·) nodes kept).Nodup := by
  induction nodes generalizing kept with
  | nil =>
      rw [List.eraseDupsBy.loop]
      exact List.nodup_reverse.mpr distinct
  | cons node nodes ih =>
      rw [List.eraseDupsBy.loop]
      split
      next => exact ih distinct
      next new =>
          have absent : node ∉ kept := by
            intro old
            simp only [List.any_eq_false, beq_iff_eq] at new
            exact new node old rfl
          exact ih (List.nodup_cons.mpr ⟨absent, distinct⟩)

theorem nodup_newTargets_append {visited : List Nat} (distinct : visited.Nodup)
    (targets : List Nat) : (newTargets allowed visited targets ++ visited).Nodup := by
  apply List.nodup_append.mpr
  refine ⟨nodup_eraseDups_loop List.nodup_nil _, distinct, ?_⟩
  intro new member old before same
  exact (mem_newTargets.mp member).2.2 (same ▸ before)

theorem nodup_of_visit {visited stack nodes : List Nat} (distinct : visited.Nodup)
    (outcome : arena.visit allowed visited stack = .ok nodes) : nodes.Nodup := by
  induction visited, stack using visit.induct arena allowed with
  | case1 visited =>
      rw [visit] at outcome
      cases outcome
      exact distinct
  | case2 visited node stack missing =>
      rw [visit] at outcome
      split at outcome
      next => cases outcome
      next found => cases missing.symm.trans found
  | case3 visited node stack targets found new noneNew ih =>
      have none : newTargets allowed visited targets = [] := noneNew
      rw [visit_next found, none] at outcome
      exact ih distinct outcome
  | case4 visited node stack targets found new someNew ih =>
      rw [visit_next found] at outcome
      exact ih (nodup_newTargets_append distinct targets) outcome

end

/-! ## The least closed set -/

/-- The set holds `start` and, with each of its nodes, the targets of the node that are allowed. A
node outside the arena has no targets. -/
structure ClosedFrom (arena : Arena) (allowed : Option (List Nat)) (start : Nat)
    (nodes : Set Nat) : Prop where
  begun : start ∈ nodes
  closed : ∀ node ∈ nodes, ∀ target, arena.Leads node target →
    (∀ permitted, allowed = some permitted → target ∈ permitted) → target ∈ nodes

theorem follows_iff {arena : Arena} {allowed : Option (List Nat)} {node target : Nat} :
    arena.Follows (fun target => allowed.all (·.contains target)) node target ↔
      arena.Leads node target ∧ ∀ permitted, allowed = some permitted → target ∈ permitted := by
  rw [Follows, Option.all_eq_true]
  simp only [List.contains_iff_mem]

/-- The least closed set is what walks along allowed targets lead to. -/
theorem isLeast_closedFrom (arena : Arena) (allowed : Option (List Nat)) (start : Nat) :
    IsLeast {nodes | arena.ClosedFrom allowed start nodes}
      {node | ReflTransGen (arena.Follows fun target => allowed.all (·.contains target))
        start node} := by
  constructor
  · constructor
    · exact ReflTransGen.refl
    · intro node walk target leads within
      exact ReflTransGen.tail walk (follows_iff.mpr ⟨leads, within⟩)
  · intro nodes closed node walk
    induction walk with
    | refl => exact closed.begun
    | tail _ follows ih =>
        have step := follows_iff.mp follows
        exact closed.closed _ ih _ step.1 step.2

/-- The search answers with the least closed set, each node once, exactly where all of the set lies
inside the arena, and stops at a node of it outside exactly where some of it does not. -/
theorem reachableFrom_isLeast (arena : Arena) (start : Nat) (allowed : Option (List Nat)) :
    ∃ reached : Set Nat, IsLeast {nodes | arena.ClosedFrom allowed start nodes} reached ∧
      ((∃ visited, arena.reachableFrom start allowed = .ok visited ∧ visited.Nodup ∧
          ∀ node, node ∈ visited ↔ node ∈ reached) ↔
        ∀ node ∈ reached, node < arena.length) ∧
      ((∃ place, arena.reachableFrom start allowed = .error place ∧ place.node ∈ reached ∧
          arena.length ≤ place.node) ↔
        ∃ node ∈ reached, arena.length ≤ node) := by
  refine ⟨_, isLeast_closedFrom arena allowed start, ?_⟩
  have answer := reachableFrom_answers arena start allowed
  cases outcome : arena.reachableFrom start allowed with
  | ok visited =>
      rw [outcome] at answer
      have once : visited.Nodup := nodup_of_visit (List.nodup_singleton start) outcome
      have inside (node : Nat) (walk : ReflTransGen _ start node) : node < arena.length :=
        answer.2 node ((answer.1 node).mpr walk)
      constructor
      · exact iff_of_true ⟨visited, rfl, once, answer.1⟩ inside
      · apply iff_of_false
        · simp
        · intro some
          rcases some with ⟨node, walk, outside⟩
          exact Nat.not_lt.mpr outside (inside node walk)
  | error place =>
      rw [outcome] at answer
      rcases answer with ⟨outside, walk⟩
      constructor
      · apply iff_of_false
        · simp
        · intro inside
          exact Nat.not_lt.mpr outside (inside place.node walk)
      · exact iff_of_true ⟨place, rfl, walk, outside⟩ ⟨place.node, walk, outside⟩

/-- Node 1 is entered from 0 and leads out of the arena; where only 0 is allowed it is not. -/
example : reachableFrom [[0, 1], [2]] 0 none = .error ⟨2⟩ ∧
    reachableFrom [[0, 1], [2]] 0 (some [0]) = .ok [0] := by constructor <;> cbv

end Arena

namespace Graph

variable {nodes : List String} {edges : List (String × String)} {start : String}

/-- Edges lead from `start` to the declared id by way of declared ids. -/
def DeclaredFrom (nodes : List String) (edges : List (String × String)) (start id : String) :
    Prop :=
  id ∈ nodes ∧ ReflTransGen (JoinsDeclared nodes edges) start id

/-- Every edge that is followed leads to a declared id, so only the start of a walk may not be
one. -/
theorem reflTransGen_joinsDeclared_iff {id : String} :
    ReflTransGen (JoinsDeclared nodes edges) start id ↔
      id = start ∨ DeclaredFrom nodes edges start id := by
  constructor
  · intro walk
    cases walk with
    | refl => exact .inl rfl
    | tail before step => exact .inr ⟨step.2, before.tail step⟩
  · intro found
    rcases found with same | declared
    · rw [same]
    · exact declared.2

theorem contains_iff : (ofEdges nodes edges).contains start = true ↔
    start ∈ (ofEdges nodes edges).ids := List.contains_iff_mem

theorem reachable?_eq_none_iff : (ofEdges nodes edges).reachable? start = none ↔
    (ofEdges nodes edges).contains start = false := by
  rw [← Bool.not_eq_true, contains_iff]
  constructor
  · intro none known
    obtain ⟨reached, found, -⟩ := exists_reachable? known
    cases none.symm.trans found
  · intro unknown
    have index : (ofEdges nodes edges).index? start = none := List.idxOf?_eq_none_iff.mpr unknown
    rw [reachable?, index]
    rfl

/-- The search answers for the ids of the graph and for no others. It finds the declared ids that
the start leads to by way of declared ids, and the start itself in any case. So all that it finds is
declared exactly where the start is. -/
theorem reachable?_exact (nodes : List String) (edges : List (String × String)) (start : String) :
    ((ofEdges nodes edges).reachable? start = none ↔
      (ofEdges nodes edges).contains start = false) ∧
    ((ofEdges nodes edges).contains start = true →
      ∃ reached, (ofEdges nodes edges).reachable? start = some reached ∧
        (∀ id, id ∈ reached ↔ id = start ∨ DeclaredFrom nodes edges start id) ∧
        ((∀ id, id ∈ reached ↔ DeclaredFrom nodes edges start id) ↔ start ∈ nodes)) := by
  refine ⟨reachable?_eq_none_iff, ?_⟩
  intro known
  obtain ⟨reached, found, walks⟩ := exists_reachable? (contains_iff.mp known)
  have members (id : String) : id ∈ reached ↔ id = start ∨ DeclaredFrom nodes edges start id :=
    (walks id).trans reflTransGen_joinsDeclared_iff
  refine ⟨reached, found, members, ?_⟩
  constructor
  · intro only
    exact ((only start).mp ((members start).mpr (.inl rfl))).1
  · intro declared id
    rw [members id, or_iff_right_iff_imp]
    intro same
    rw [same]
    exact ⟨declared, .refl⟩

/-- An end of an edge that is not declared leads to a declared id. -/
theorem reachable?_exact_loose : (ofEdges ["a"] [("x", "a")]).contains "x" = true ∧
    ∃ reached, (ofEdges ["a"] [("x", "a")]).reachable? "x" = some reached ∧ "x" ∈ reached ∧
      "a" ∈ reached ∧ DeclaredFrom ["a"] [("x", "a")] "x" "a" := by
  have step : JoinsDeclared ["a"] [("x", "a")] "x" "a" :=
    ⟨List.mem_singleton_self _, List.mem_singleton_self _⟩
  have known : (ofEdges ["a"] [("x", "a")]).contains "x" = true :=
    contains_iff.mpr (mem_ids.mpr (.inr ⟨"a", .inl step.1⟩))
  have declared : DeclaredFrom ["a"] [("x", "a")] "x" "a" := ⟨step.2, .single step⟩
  obtain ⟨reached, found, members, -⟩ := (reachable?_exact ["a"] [("x", "a")] "x").2 known
  exact ⟨known, reached, found, (members "x").mpr (.inl rfl), (members "a").mpr (.inr declared),
    declared⟩

/-- An id that is not declared is found where the search starts at it. -/
theorem undeclared_reached : (ofEdges ["a"] [("x", "a")]).contains "x" = true ∧
    ¬ DeclaredFrom ["a"] [("x", "a")] "x" "x" ∧
    ∃ reached, (ofEdges ["a"] [("x", "a")]).reachable? "x" = some reached ∧ "x" ∈ reached := by
  have known : "x" ∈ (ofEdges ["a"] [("x", "a")]).ids :=
    mem_ids.mpr (.inr ⟨"a", .inl (List.mem_singleton_self _)⟩)
  obtain ⟨reached, found, members⟩ := exists_reachable? known
  refine ⟨contains_iff.mpr known, ?_, reached, found, (members "x").mpr .refl⟩
  intro declared
  exact absurd declared.1 (by decide)

example : (ofEdges ["a"] [("x", "a")]).reachable? "x" = some ["a", "x"] := by cbv

end Graph

end Workflow
