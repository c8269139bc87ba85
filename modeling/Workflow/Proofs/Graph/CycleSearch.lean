import Workflow.Graph.Search
import Workflow.Proofs.Graph.Cycle

/-!
The depth-first search for cycles. The finished nodes are kept in an order in which every edge goes
to a node that was finished before, so no cycle passes through them; the frames are a walk from the
root. Main statement: `findCycle` answers on every arena without loose ends, and answers `none`
exactly where no root leads to a cycle.
-/

namespace Workflow.Arena

open Relation

/-- An edge leads from `source` to `target`. -/
def Leads (arena : Arena) (source target : Nat) : Prop :=
  ∃ targets, arena[source]? = some targets ∧ target ∈ targets

/-- Every edge ends inside the arena. -/
def Enclosed (arena : Arena) : Prop := ∀ targets ∈ arena, ∀ target ∈ targets, target < arena.length

instance (arena : Arena) : Decidable arena.Enclosed :=
  inferInstanceAs (Decidable (∀ targets ∈ arena, ∀ target ∈ targets, target < arena.length))

variable {arena : Arena}

theorem Leads.source_lt {source target : Nat} (edge : arena.Leads source target) :
    source < arena.length := by
  obtain ⟨targets, found, -⟩ := edge
  exact (List.getElem?_eq_some_iff.mp found).1

theorem Enclosed.target_lt (enclosed : arena.Enclosed) {source target : Nat}
    (edge : arena.Leads source target) : target < arena.length := by
  obtain ⟨targets, found, member⟩ := edge
  exact enclosed targets (List.mem_of_getElem? found) target member

theorem Enclosed.lt_of_reflTransGen (enclosed : arena.Enclosed) {root node : Nat}
    (walk : ReflTransGen arena.Leads root node) (inside : root < arena.length) :
    node < arena.length := by
  cases walk with
  | refl => exact inside
  | tail _ edge => exact enclosed.target_lt edge

/-! ## Finished nodes -/

/-- Nodes each of which leads only to nodes further down the list. -/
def Settled (arena : Arena) : List Nat → Prop
  | [] => True
  | node :: earlier =>
    node ∉ earlier ∧ (∀ target, arena.Leads node target → target ∈ earlier) ∧
      arena.Settled earlier

theorem Settled.mem_of_leads {finished : List Nat} (settled : arena.Settled finished)
    {node target : Nat} (member : node ∈ finished) (edge : arena.Leads node target) :
    target ∈ finished := by
  induction finished with
  | nil => cases member
  | cons last earlier ih =>
      rcases List.mem_cons.mp member with rfl | member
      · exact List.mem_cons_of_mem _ (settled.2.1 target edge)
      · exact List.mem_cons_of_mem _ (ih settled.2.2 member)

theorem Settled.mem_of_reflTransGen {finished : List Nat} (settled : arena.Settled finished)
    {node place : Nat} (member : node ∈ finished) (walk : ReflTransGen arena.Leads node place) :
    place ∈ finished := by
  induction walk with
  | refl => exact member
  | tail _ edge ih => exact settled.mem_of_leads ih edge

theorem Settled.not_transGen {finished : List Nat} (settled : arena.Settled finished)
    {node : Nat} (member : node ∈ finished) : ¬ TransGen arena.Leads node node := by
  induction finished with
  | nil => cases member
  | cons last earlier ih =>
      rcases List.mem_cons.mp member with rfl | member
      · intro loop
        obtain ⟨next, edge, walk⟩ := TransGen.head'_iff.mp loop
        exact settled.1 (settled.2.2.mem_of_reflTransGen (settled.2.1 next edge) walk)
      · exact ih settled.2.2 member

theorem Settled.acyclicFrom {finished : List Nat} (settled : arena.Settled finished)
    {root : Nat} (member : root ∈ finished) : AcyclicFrom arena.Leads root := by
  intro place walk
  exact settled.not_transGen (settled.mem_of_reflTransGen member walk)

/-! ## The path of the search -/

theorem exists_eq_takeWhile_append {target : Nat} {path : List Nat} (member : target ∈ path) :
    ∃ after, path = path.takeWhile (· != target) ++ target :: after := by
  induction path with
  | nil => cases member
  | cons node path ih =>
      by_cases same : node = target
      · exact ⟨path, by simp [same]⟩
      · obtain ⟨after, split⟩ := ih ((List.mem_cons.mp member).resolve_left (Ne.symm same))
        exact ⟨after, by simpa [same] using split⟩

/-- What a frame no longer lists has been tried: it is finished, or it is the node right above. -/
def Tried (arena : Arena) (finished : List Nat) : Option Nat → List Frame → Prop
  | _, [] => True
  | above, ⟨node, targets⟩ :: below =>
    (∃ done, arena[node]? = some (done ++ targets) ∧ ∀ target ∈ done,
      target ∈ finished ∨ above = some target) ∧
      arena.Tried finished (some node) below

theorem Tried.mono {finished finished' : List Nat} {above above' : Option Nat}
    {frames : List Frame} (tried : arena.Tried finished above frames)
    (kept : ∀ target, target ∈ finished ∨ above = some target →
      target ∈ finished' ∨ above' = some target)
    (more : finished ⊆ finished') : arena.Tried finished' above' frames := by
  induction frames generalizing above above' with
  | nil => trivial
  | cons frame below ih =>
      obtain ⟨⟨done, found, handled⟩, rest⟩ := tried
      refine ⟨⟨done, found, ?_⟩, ih rest ?_⟩
      · intro target member
        exact kept target (handled target member)
      · intro target reason
        exact reason.imp_left fun member => more member

/-- What holds between two steps of a search from `root`. -/
structure Searching (arena : Arena) (root : Nat) (finished : List Nat) (frames : List Frame) :
    Prop where
  settled : arena.Settled finished
  chained : (pathOf frames).IsChain fun above below => arena.Leads below above
  distinct : (pathOf frames).Nodup
  apart : ∀ node ∈ pathOf frames, node ∉ finished
  rooted : ∀ node ∈ pathOf frames, ReflTransGen arena.Leads root node
  tried : arena.Tried finished none frames

namespace Searching

variable {root node target : Nat} {targets onward finished : List Nat} {frames : List Frame}

theorem start (settled : arena.Settled finished) (found : arena[root]? = some targets)
    (new : root ∉ finished) : arena.Searching root finished [⟨root, targets⟩] where
  settled := settled
  chained := List.isChain_singleton root
  distinct := List.nodup_singleton root
  apart := by
    intro node member
    rw [List.mem_singleton.mp member]
    exact new
  rooted := by
    intro node member
    rw [List.mem_singleton.mp member]
  tried := ⟨⟨[], found, by simp⟩, trivial⟩

/-- The edge that is tried next does lead from the last node of the path. -/
theorem edge (searching : arena.Searching root finished (⟨node, target :: targets⟩ :: frames)) :
    arena.Leads node target := by
  obtain ⟨⟨done, found, -⟩, -⟩ := searching.tried
  exact ⟨_, found, by simp⟩

/-- A node without further targets is finished: all that it leads to was finished before. -/
theorem leave (searching : arena.Searching root finished (⟨node, []⟩ :: frames)) :
    arena.Searching root (node :: finished) frames where
  settled := by
    refine ⟨searching.apart node List.mem_cons_self, ?_, searching.settled⟩
    intro target edge
    obtain ⟨targets, found, member⟩ := edge
    obtain ⟨⟨done, found', handled⟩, -⟩ := searching.tried
    have same : done = targets := by simpa [found] using found'.symm
    simpa using handled target (same ▸ member)
  chained := searching.chained.tail
  distinct := searching.distinct.of_cons
  apart := by
    intro place member
    have new : place ≠ node := by
      intro same
      exact (List.nodup_cons.mp searching.distinct).1 (same ▸ member)
    simpa [new] using searching.apart place (List.mem_cons_of_mem _ member)
  rooted := by
    intro place member
    exact searching.rooted place (List.mem_cons_of_mem _ member)
  tried := by
    apply searching.tried.2.mono _ (List.subset_cons_self node finished)
    intro target reason
    rcases reason with member | above
    · exact .inl (List.mem_cons_of_mem _ member)
    · exact .inl (Option.some_inj.mp above ▸ List.mem_cons_self)

/-- A target that is finished is passed over. -/
theorem pass (searching : arena.Searching root finished (⟨node, target :: targets⟩ :: frames))
    (member : target ∈ finished) : arena.Searching root finished (⟨node, targets⟩ :: frames) where
  settled := searching.settled
  chained := searching.chained
  distinct := searching.distinct
  apart := searching.apart
  rooted := searching.rooted
  tried := by
    obtain ⟨⟨done, found, handled⟩, below⟩ := searching.tried
    refine ⟨⟨done ++ [target], by simpa using found, ?_⟩, below⟩
    intro other tried
    rcases List.mem_append.mp tried with before | now
    · exact handled other before
    · exact .inl (List.mem_singleton.mp now ▸ member)

/-- A target that is neither finished nor on the path becomes the last node of the path. -/
theorem enter (searching : arena.Searching root finished (⟨node, target :: targets⟩ :: frames))
    (found : arena[target]? = some onward) (offPath : target ∉ pathOf (⟨node, targets⟩ :: frames))
    (new : target ∉ finished) :
    arena.Searching root finished (⟨target, onward⟩ :: ⟨node, targets⟩ :: frames) where
  settled := searching.settled
  chained := List.isChain_cons_cons.mpr ⟨searching.edge, searching.chained⟩
  distinct := List.nodup_cons.mpr ⟨offPath, searching.distinct⟩
  apart := by
    intro place member
    rcases List.mem_cons.mp member with rfl | member
    · exact new
    · exact searching.apart place member
  rooted := by
    intro place member
    rcases List.mem_cons.mp member with rfl | member
    · exact (searching.rooted node List.mem_cons_self).tail searching.edge
    · exact searching.rooted place member
  tried := by
    obtain ⟨⟨done, here, handled⟩, below⟩ := searching.tried
    refine ⟨⟨[], found, by simp⟩, ⟨done ++ [target], by simpa using here, ?_⟩, below⟩
    intro other tried
    rcases List.mem_append.mp tried with before | now
    · exact .inl (by simpa using handled other before)
    · exact .inr (congrArg some (List.mem_singleton.mp now).symm)

/-- An edge back to the path closes a cycle. -/
theorem closes (searching : arena.Searching root finished (⟨node, target :: targets⟩ :: frames))
    (onPath : target ∈ pathOf (⟨node, targets⟩ :: frames)) :
    IsCycle arena.Leads (closing target (⟨node, targets⟩ :: frames)) := by
  obtain ⟨after, split⟩ := exists_eq_takeWhile_append onPath
  have front : (pathOf (⟨node, targets⟩ :: frames)).takeWhile (· != target) ++ [target] <+:
      pathOf (⟨node, targets⟩ :: frames) := ⟨after, by simpa using split.symm⟩
  apply IsCycle.of_backwards
    ( List.IsChain.prefix searching.chained front) (front.sublist.nodup searching.distinct)
  intro last head
  obtain ⟨rest, whole⟩ := front
  have first := congrArg List.head? whole
  rw [List.head?_append, head] at first
  exact Option.some_inj.mp first ▸ searching.edge

end Searching

/-! ## The outcome -/

/-- What the outcome of a search from `root` says of the arena, where `met` are the nodes that were
finished or on the path before. -/
def Answers (arena : Arena) (root : Nat) (met : List Nat) : Outcome → Prop
  | .cycle path => IsCycle arena.Leads path ∧
      ∀ first, path.head? = some first → ReflTransGen arena.Leads root first
  | .finished nodes => arena.Settled nodes ∧ met ⊆ nodes
  | .outOfRange place => arena.length ≤ place.node ∧ ReflTransGen arena.Leads root place.node

theorem Answers.mono {root : Nat} {met met' : List Nat} {outcome : Outcome}
    (answers : arena.Answers root met' outcome) (fewer : met ⊆ met') :
    arena.Answers root met outcome := by
  cases outcome with
  | finished nodes => exact ⟨answers.1, List.Subset.trans fewer answers.2⟩
  | cycle path => exact answers
  | outOfRange place => exact answers

/-- One step of the search where the last frame has a target left. -/
theorem search_next (finished : List Nat) (node target : Nat) (targets : List Nat)
    (frames : List Frame) :
    arena.search finished (⟨node, target :: targets⟩ :: frames) =
      match arena[target]? with
      | none => .outOfRange ⟨target⟩
      | some onward =>
        if target ∈ pathOf (⟨node, targets⟩ :: frames) then
          .cycle (closing target (⟨node, targets⟩ :: frames))
        else if target ∈ finished then arena.search finished (⟨node, targets⟩ :: frames)
        else arena.search finished (⟨target, onward⟩ :: ⟨node, targets⟩ :: frames) := by
  rw [search]
  split <;> simp only [*, dite_eq_ite]

theorem search_answers {root : Nat} {finished : List Nat} {frames : List Frame}
    (searching : arena.Searching root finished frames) :
    arena.Answers root (finished ++ pathOf frames) (arena.search finished frames) := by
  induction finished, frames using search.induct arena with
  | case1 finished =>
      rw [search]
      exact ⟨searching.settled, by simp [pathOf]⟩
  | case2 finished node frames ih =>
      rw [search]
      apply (ih searching.leave).mono
      intro place member
      simpa [pathOf, or_left_comm] using member
  | case3 finished node target targets frames missing =>
      rw [search_next, missing]
      have outside := List.getElem?_eq_none_iff.mp missing
      exact ⟨outside, (searching.rooted node List.mem_cons_self).tail searching.edge⟩
  | case4 finished node target targets frames rest onward found onPath =>
      rw [search_next, found]
      dsimp only
      rw [if_pos onPath]
      refine ⟨searching.closes onPath, ?_⟩
      intro first head
      rw [closing, List.cons_append, List.head?_cons, Option.some_inj] at head
      exact head ▸ searching.rooted target onPath
  | case5 finished node target targets frames rest onward found offPath member ih =>
      rw [search_next, found]
      dsimp only
      rw [if_neg offPath, if_pos member]
      exact ih (searching.pass member)
  | case6 finished node target targets frames rest onward found offPath new ih =>
      rw [search_next, found]
      dsimp only
      rw [if_neg offPath, if_neg new]
      apply (ih (searching.enter found offPath new)).mono
      intro place member
      rcases List.mem_append.mp member with done | onPath
      · exact List.mem_append_left _ done
      · exact List.mem_append_right _ (List.mem_cons_of_mem target onPath)

/-- What the searches from several roots say, where `met` are the nodes finished before. -/
def RootsAnswer (arena : Arena) (roots met : List Nat) :
    Except OutOfRange (Option (List Nat)) → Prop
  | .ok none => ∃ nodes, arena.Settled nodes ∧ met ⊆ nodes ∧ roots ⊆ nodes
  | .ok (some path) => IsCycle arena.Leads path ∧
      ∃ root ∈ roots, ∃ first, path.head? = some first ∧ ReflTransGen arena.Leads root first
  | .error place => arena.length ≤ place.node ∧
      ∃ root ∈ roots, ReflTransGen arena.Leads root place.node

theorem RootsAnswer.cons {root : Nat} {roots met met' : List Nat}
    {result : Except OutOfRange (Option (List Nat))} (answer : arena.RootsAnswer roots met' result)
    (fewer : met ⊆ met') (member : root ∈ met') : arena.RootsAnswer (root :: roots) met result := by
  match result, answer with
  | .ok none, ⟨nodes, settled, more, covered⟩ =>
      exact ⟨nodes, settled, List.Subset.trans fewer more,
        List.cons_subset.mpr ⟨more member, covered⟩⟩
  | .ok (some path), ⟨cycle, root', member', reached⟩ =>
      exact ⟨cycle, root', List.mem_cons_of_mem _ member', reached⟩
  | .error place, ⟨outside, root', member', reached⟩ =>
      exact ⟨outside, root', List.mem_cons_of_mem _ member', reached⟩

theorem searchRoots_answers {finished : List Nat} (roots : List Nat)
    (settled : arena.Settled finished) :
    arena.RootsAnswer roots finished (arena.searchRoots finished roots) := by
  induction roots generalizing finished with
  | nil => exact ⟨finished, settled, List.Subset.refl _, List.nil_subset _⟩
  | cons root roots ih =>
      rw [searchRoots]
      split
      next missing =>
        exact ⟨List.getElem?_eq_none_iff.mp missing, root, List.mem_cons_self, .refl⟩
      next targets found =>
        split
        next member => exact (ih settled).cons (List.Subset.refl _) member
        next new =>
          have answers := search_answers (Searching.start settled found new)
          split
          next path same =>
            rw [same] at answers
            obtain ⟨first, head⟩ := answers.1.exists_head
            exact ⟨answers.1, root, List.mem_cons_self, first, head, answers.2 first head⟩
          next nodes same =>
            rw [same] at answers
            apply (ih answers.1).cons
            · intro node member
              exact answers.2 (List.mem_append_left _ member)
            · exact answers.2 (List.mem_append_right _ (List.mem_singleton_self root))
          next place same =>
            rw [same] at answers
            exact ⟨answers.1, root, List.mem_cons_self, answers.2⟩

theorem findCycle_answers (arena : Arena) (roots : List Nat) :
    arena.RootsAnswer roots [] (arena.findCycle roots) :=
  searchRoots_answers roots trivial

/-- Without loose ends the search never comes upon a node outside the arena. -/
theorem exists_findCycle_eq_ok (enclosed : arena.Enclosed) {roots : List Nat}
    (inside : ∀ root ∈ roots, root < arena.length) :
    ∃ result, arena.findCycle roots = .ok result := by
  have answer := findCycle_answers arena roots
  cases outcome : arena.findCycle roots with
  | ok result => exact ⟨result, rfl⟩
  | error place =>
      rw [outcome] at answer
      obtain ⟨outside, root, member, walk⟩ := answer
      have bound := enclosed.lt_of_reflTransGen walk (inside root member)
      omega

theorem acyclicFrom_of_findCycle {roots : List Nat} (none : arena.findCycle roots = .ok none) :
    ∀ root ∈ roots, AcyclicFrom arena.Leads root := by
  have answer := findCycle_answers arena roots
  rw [none] at answer
  obtain ⟨nodes, settled, -, covered⟩ := answer
  intro root member
  exact settled.acyclicFrom (covered member)

theorem isCycle_of_findCycle {roots path : List Nat}
    (found : arena.findCycle roots = .ok (some path)) :
    IsCycle arena.Leads path ∧
      ∃ root ∈ roots, ∃ first, path.head? = some first ∧ ReflTransGen arena.Leads root first := by
  have answer := findCycle_answers arena roots
  rwa [found] at answer

/-- The cycle search answers on every arena without loose ends: with `none` exactly where no root
leads to a cycle, and else with a cycle that one of the roots leads to. -/
theorem findCycle_sound_complete (arena : Arena) (roots : List Nat) (enclosed : arena.Enclosed)
    (inside : ∀ root ∈ roots, root < arena.length) :
    ∃ result, arena.findCycle roots = .ok result ∧
      (result = none ↔ ∀ root ∈ roots, AcyclicFrom arena.Leads root) ∧
      ∀ path, result = some path → IsCycle arena.Leads path ∧
        ∃ root ∈ roots, ∃ first, path.head? = some first ∧
          ReflTransGen arena.Leads root first := by
  obtain ⟨result, outcome⟩ := exists_findCycle_eq_ok enclosed inside
  refine ⟨result, outcome, ⟨?_, ?_⟩, ?_⟩
  · intro none
    exact acyclicFrom_of_findCycle (none ▸ outcome)
  · intro acyclic
    cases result with
    | none => rfl
    | some path =>
        obtain ⟨cycle, root, member, first, head, walk⟩ := isCycle_of_findCycle outcome
        exact absurd (cycle.transGen head) (acyclic root member first walk)
  · intro path some
    exact isCycle_of_findCycle (some ▸ outcome)

/-- Two ways from 0 join at 3, which an edge leads to twice and which leads to itself. -/
theorem findCycle_joining_ways :
    Enclosed [[1, 2], [3], [3, 3], [3]] ∧ (∀ root ∈ [2, 0, 2], root < 4) ∧
      ∃ result, findCycle [[1, 2], [3], [3, 3], [3]] [2, 0, 2] = .ok result ∧
        (result = none ↔ ∀ root ∈ [2, 0, 2], AcyclicFrom (Leads [[1, 2], [3], [3, 3], [3]]) root) ∧
        ∀ path, result = some path → IsCycle (Leads [[1, 2], [3], [3, 3], [3]]) path ∧
          ∃ root ∈ [2, 0, 2], ∃ first, path.head? = some first ∧
            ReflTransGen (Leads [[1, 2], [3], [3, 3], [3]]) root first :=
  ⟨by decide, by decide, findCycle_sound_complete _ _ (by decide) (by decide)⟩

example : findCycle [[1, 2], [3], [3, 3], [3]] [2, 0, 2] = .ok (some [3, 3]) := by cbv

end Workflow.Arena
