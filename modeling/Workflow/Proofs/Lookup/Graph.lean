import Workflow.Proofs.Graph.Reachability
import Workflow.Proofs.Lookup.Search

/-!
Graphs that are put together and searched by lookups. Every end of an edge and every declared id has
a number, edges of numbers stay inside the graph, and so do the searches. Main statements: the
lookups put together the same graph, find the same cycle, and reach the same ids from every id of
the graph.
-/

namespace Workflow.Lookup

open Workflow.Graph (ofEdges)

/-! ## Putting a graph together -/

def numberOf (ids : List String) (id : String) : Except Missing Nat :=
  match ids.idxOf? id with
  | some i => .ok i
  | none => .error (.id id)

/-- Lists the number of an edge's target behind the others of its source. -/
def addEdge (ids : List String) (arena : Arena) (edge : String × String) :
    Except Missing Arena := do
  let source ← numberOf ids edge.1
  let targets ← itemAt arena source
  let target ← numberOf ids edge.2
  setAt arena source (targets ++ [target])

/-- The graph of some declared ids and of edges, one edge after the other. -/
def graph (nodes : List String) (edges : List (String × String)) : Except Missing Graph := do
  let ids := ascendingSet (nodes ++ edges.map Prod.fst ++ edges.map Prod.snd)
  let arena ← edges.foldlM (addEdge ids) (ids.map fun _ => [])
  let declared ← nodes.mapM (numberOf ids)
  .ok
    { ids
      successors := arena.map fun targets => targets.mergeSort
      declared := (List.range ids.length).filter declared.contains }

theorem exists_numberOf {ids : List String} (distinct : ids.Nodup) {id : String}
    (member : id ∈ ids) : ∃ i, numberOf ids id = .ok i ∧ ids.idxOf? id = some i ∧
      ids[i]? = some id := by
  obtain ⟨i, at_i⟩ := List.mem_iff_getElem?.mp member
  have index := (Graph.idxOf?_eq_some_iff distinct).mpr at_i
  exact ⟨i, by rw [numberOf, index], index, at_i⟩

/-- The numbers of an id's targets in the order of the edges. -/
def targetsOf (ids : List String) (edges : List (String × String)) (id : String) : List Nat :=
  (edges.filter (·.1 == id)).filterMap fun edge => ids.idxOf? edge.2

theorem targetsOf_concat (ids : List String) (edges : List (String × String))
    (edge : String × String) (id : String) : targetsOf ids (edges ++ [edge]) id =
      targetsOf ids edges id ++ if edge.1 = id then (ids.idxOf? edge.2).toList else [] := by
  rw [targetsOf, List.filter_append, List.filterMap_append, targetsOf]
  by_cases same : edge.1 = id
  · cases found : ids.idxOf? edge.2 <;> simp [same, found]
  · simp [same]

/-- Only the row of the edge's source gets one more target. -/
theorem set_targetsOf {ids : List String} (distinct : ids.Nodup) (edges : List (String × String))
    {edge : String × String} {i j : Nat} (source : ids[i]? = some edge.1)
    (target : ids.idxOf? edge.2 = some j) :
    (ids.map (targetsOf ids edges)).set i (targetsOf ids edges edge.1 ++ [j]) =
      ids.map (targetsOf ids (edges ++ [edge])) := by
  have bound := (List.getElem?_eq_some_iff.mp source).1
  apply List.ext_getElem?
  intro k
  rw [List.getElem?_set, List.getElem?_map, List.getElem?_map, List.length_map]
  by_cases same : i = k
  · subst same
    rw [if_pos rfl, if_pos bound, source]
    simp [targetsOf_concat, target]
  · rw [if_neg same]
    cases at_k : ids[k]? with
    | none => rfl
    | some id =>
        have other : edge.1 ≠ id := by
          intro equal
          exact same ((List.getElem?_inj bound distinct).mp (by rw [source, at_k, equal]))
        simp [targetsOf_concat, other]

theorem addEdge_eq {ids : List String} (distinct : ids.Nodup) (edges : List (String × String))
    {edge : String × String} (source : edge.1 ∈ ids) (target : edge.2 ∈ ids) :
    addEdge ids (ids.map (targetsOf ids edges)) edge =
      .ok (ids.map (targetsOf ids (edges ++ [edge]))) := by
  obtain ⟨i, numbered, -, at_i⟩ := exists_numberOf distinct source
  obtain ⟨j, numbered', index, -⟩ := exists_numberOf distinct target
  have bound : i < (ids.map (targetsOf ids edges)).length := by
    rw [List.length_map]
    exact (List.getElem?_eq_some_iff.mp at_i).1
  have row : (ids.map (targetsOf ids edges))[i]? = some (targetsOf ids edges edge.1) := by
    rw [List.getElem?_map, at_i, Option.map_some]
  rw [addEdge, numbered, Except.ok_andThen, itemAt_eq_ok row, Except.ok_andThen, numbered',
    Except.ok_andThen, setAt_eq_ok bound, set_targetsOf distinct edges at_i index]

theorem foldlM_addEdge {ids : List String} (distinct : ids.Nodup)
    (edges : List (String × String)) (before : List (String × String))
    (known : ∀ edge ∈ edges, edge.1 ∈ ids ∧ edge.2 ∈ ids) :
    edges.foldlM (addEdge ids) (ids.map (targetsOf ids before)) =
      .ok (ids.map (targetsOf ids (before ++ edges))) := by
  induction edges generalizing before with
  | nil => rw [List.append_nil]; rfl
  | cons edge edges ih =>
      obtain ⟨⟨source, target⟩, known⟩ := List.forall_mem_cons.mp known
      rw [List.foldlM_cons, addEdge_eq distinct before source target, Except.ok_andThen,
        ih (before ++ [edge]) known, List.append_assoc]
      rfl

theorem mapM_numberOf {ids : List String} (distinct : ids.Nodup) {nodes : List String}
    (known : ∀ id ∈ nodes, id ∈ ids) : ∃ numbers, nodes.mapM (numberOf ids) = .ok numbers ∧
      ∀ i, i ∈ numbers ↔ ∃ id ∈ nodes, ids[i]? = some id := by
  induction nodes with
  | nil => exact ⟨[], rfl, by simp⟩
  | cons id nodes ih =>
      obtain ⟨first, later⟩ := List.forall_mem_cons.mp known
      obtain ⟨i, numbered, index, -⟩ := exists_numberOf distinct first
      obtain ⟨numbers, others, members⟩ := ih later
      refine ⟨i :: numbers, by rw [List.mapM_cons, numbered, others]; rfl, ?_⟩
      intro j
      have number : ids[j]? = some id ↔ j = i := by
        rw [← Graph.idxOf?_eq_some_iff distinct, index, Option.some_inj, eq_comm]
      simp [members, number]

variable {nodes : List String} {edges : List (String × String)}

theorem filter_numbers {numbers : List Nat}
    (members : ∀ i, i ∈ numbers ↔ ∃ id ∈ nodes, (ofEdges nodes edges).ids[i]? = some id) :
    (List.range (ofEdges nodes edges).ids.length).filter numbers.contains =
      (ofEdges nodes edges).declared := by
  apply List.filter_congr
  intro i _
  rw [Bool.eq_iff_iff, List.contains_iff_mem, members, Option.any_eq_true]
  constructor
  · intro named
    obtain ⟨id, member, found⟩ := named
    exact ⟨id, found, List.contains_iff_mem.mpr member⟩
  · intro named
    obtain ⟨id, found, member⟩ := named
    exact ⟨id, List.contains_iff_mem.mp member, found⟩

/-- The ids hold every end of an edge and every declared id, so all lookups find something. -/
theorem graph_eq (nodes : List String) (edges : List (String × String)) :
    graph nodes edges = .ok (ofEdges nodes edges) := by
  have distinct : (ofEdges nodes edges).ids.Nodup := Graph.ids_nodup
  have ends : ∀ edge ∈ edges, edge.1 ∈ (ofEdges nodes edges).ids ∧
      edge.2 ∈ (ofEdges nodes edges).ids := by
    intro edge listed
    exact ⟨Graph.mem_ids.mpr (.inr ⟨edge.2, .inl listed⟩),
      Graph.mem_ids.mpr (.inr ⟨edge.1, .inr listed⟩)⟩
  have known : ∀ id ∈ nodes, id ∈ (ofEdges nodes edges).ids :=
    fun id declared => Graph.mem_ids.mpr (.inl declared)
  obtain ⟨numbers, numbered, members⟩ := mapM_numberOf distinct known
  have added := foldlM_addEdge distinct edges [] ends
  have sorted : (((ofEdges nodes edges).ids.map (targetsOf (ofEdges nodes edges).ids edges)).map
      fun targets => targets.mergeSort) = (ofEdges nodes edges).successors := List.map_map
  calc
    graph nodes edges = (do
        let arena ← edges.foldlM (addEdge (ofEdges nodes edges).ids)
          ((ofEdges nodes edges).ids.map (targetsOf (ofEdges nodes edges).ids []))
        let declared ← nodes.mapM (numberOf (ofEdges nodes edges).ids)
        .ok
          { ids := (ofEdges nodes edges).ids
            successors := arena.map fun targets => targets.mergeSort
            declared := (List.range (ofEdges nodes edges).ids.length).filter
              declared.contains }) := rfl
    _ = .ok (ofEdges nodes edges) := by
      rw [added, Except.ok_andThen, numbered, Except.ok_andThen, List.nil_append, sorted,
        filter_numbers members]

/-! ## Searching a graph -/

/-- The declared ids that edges between declared nodes lead to, in the order of the search. -/
def reachable (g : Graph) (start : String) : Except Missing (List String) := do
  let i ← numberOf g.ids start
  let visited ← (g.successors.reachableFrom i (some g.declared)).mapError (.position ·.node)
  visited.mapM (itemAt g.ids)

def cycle (g : Graph) : Except Missing (Option (List String)) := do
  match ← findCycle g.successors g.declared with
  | none => .ok none
  | some path => .ok (some (← path.mapM (itemAt g.ids)))

theorem mapM_itemAt_ids {g : Graph} {numbers : List Nat}
    (inside : ∀ i ∈ numbers, i < g.ids.length) :
    numbers.mapM (itemAt g.ids) = .ok (g.idsOf numbers) := by
  rw [Graph.idsOf_eq_map inside]
  apply Except.mapM_eq_ok (List.forall₂_map_right_iff.mpr (List.forall₂_same.mpr _))
  intro i member
  exact itemAt_eq_ok (Graph.getElem?_ids (inside i member))

/-- The search from an id that the graph lacks finds no number for it. -/
theorem reachable_eq_error {g : Graph} {start : String} (missing : start ∉ g.ids) :
    reachable g start = .error (.id start) := by
  have none : g.ids.idxOf? start = none := List.idxOf?_eq_none_iff.mpr missing
  rw [reachable, numberOf, none]
  rfl

/-- Targets of edges lie inside the graph, so the search from an id of the graph ends with numbers
of ids. -/
theorem exists_reachable {start : String} (known : start ∈ (ofEdges nodes edges).ids) :
    ∃ found reached, reachable (ofEdges nodes edges) start = .ok found ∧
      (ofEdges nodes edges).reachable? start = some reached ∧
      ∀ id, id ∈ found ↔ id ∈ reached := by
  obtain ⟨i, numbered, index, at_i⟩ := exists_numberOf Graph.ids_nodup known
  have bound := (List.getElem?_eq_some_iff.mp at_i).1
  have inside : i < (ofEdges nodes edges).successors.length := Graph.length_successors.symm ▸ bound
  have enclosed : (ofEdges nodes edges).successors.Enclosed := Graph.successors_enclosed
  obtain ⟨visited, outcome, -⟩ :=
    Arena.exists_reachableFrom_eq_ok enclosed inside (some (ofEdges nodes edges).declared)
  have answer := Arena.reachableFrom_answers (ofEdges nodes edges).successors i
    (some (ofEdges nodes edges).declared)
  rw [outcome] at answer
  have numbers : ∀ node ∈ visited, node < (ofEdges nodes edges).ids.length := by
    intro node member
    exact Graph.length_successors ▸ answer.2 node member
  have names := mapM_itemAt_ids numbers
  refine ⟨(ofEdges nodes edges).idsOf visited, (ofEdges nodes edges).idsOf
    ((List.range (ofEdges nodes edges).size).filter visited.contains), ?_, ?_, ?_⟩
  · rw [reachable, numbered, Except.ok_andThen, outcome, Except.mapError_ok, Except.ok_andThen,
      names]
  · rw [Graph.reachable?, Graph.index?, index]
    simp only [outcome, Option.bind_eq_bind, Option.bind_some, Except.toOption]
  · intro id
    simp only [Graph.mem_idsOf, List.mem_filter, List.mem_range, List.contains_iff_mem]
    constructor
    · intro named
      obtain ⟨node, member, found⟩ := named
      exact ⟨node, ⟨numbers node member, member⟩, found⟩
    · intro named
      obtain ⟨node, ⟨-, member⟩, found⟩ := named
      exact ⟨node, member, found⟩

/-- All nodes of a cycle that is found are sources of edges, so they have ids. -/
theorem cycle_eq (nodes : List String) (edges : List (String × String)) :
    cycle (ofEdges nodes edges) = .ok (ofEdges nodes edges).findCycle := by
  obtain ⟨result, outcome, named⟩ := Graph.findCycle_search nodes edges
  rw [cycle, findCycle_eq, outcome, named]
  cases result with
  | none => rfl
  | some path =>
      have inside : ∀ i ∈ path, i < (ofEdges nodes edges).ids.length := by
        intro i member
        obtain ⟨next, edge⟩ := (Arena.isCycle_of_findCycle outcome).1.exists_step member
        exact Graph.length_successors ▸ edge.source_lt
      rw [Except.mapError_ok, Except.ok_andThen]
      dsimp only
      rw [mapM_itemAt_ids inside]
      rfl

end Workflow.Lookup
