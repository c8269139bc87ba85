import Workflow.Graph.Basic
import Workflow.Proofs.Graph.Ascending
import Workflow.Proofs.Graph.CycleSearch

/-!
The numbers that a graph gives to its ids. Each id has one number, edges of numbers are edges of
ids, and the declared numbers are those of the declared ids, so what the searches find out about
numbers holds of ids. Main statements: the cycle search of a graph answers `none` exactly where no
declared id leads to a cycle of edges, and else with a cycle of edges.
-/

namespace Workflow

open Relation

/-- An edge of the list leads from `source` to `target`. -/
def Joins (edges : List (String × String)) (source target : String) : Prop :=
  (source, target) ∈ edges

namespace Graph

variable {nodes : List String} {edges : List (String × String)}

theorem mem_ids {id : String} : id ∈ (ofEdges nodes edges).ids ↔
    id ∈ nodes ∨ ∃ other, Joins edges id other ∨ Joins edges other id := by
  rw [ofEdges, mem_ascendingSet, List.mem_append, List.mem_append, or_assoc]
  apply or_congr_right
  constructor
  · intro listed
    rcases listed with member | member
    · obtain ⟨edge, listed, rfl⟩ := List.mem_map.mp member
      exact ⟨edge.2, .inl listed⟩
    · obtain ⟨edge, listed, rfl⟩ := List.mem_map.mp member
      exact ⟨edge.1, .inr listed⟩
  · intro joined
    obtain ⟨other, listed | listed⟩ := joined
    · exact .inl (List.mem_map.mpr ⟨_, listed, rfl⟩)
    · exact .inr (List.mem_map.mpr ⟨_, listed, rfl⟩)

theorem ids_nodup : (ofEdges nodes edges).ids.Nodup := ascendingSet_nodup _

theorem length_successors :
    (ofEdges nodes edges).successors.length = (ofEdges nodes edges).ids.length := List.length_map _

/-- Numbers of one id are the same number. -/
theorem number_unique {i j : Nat} {id : String} (first : (ofEdges nodes edges).ids[i]? = some id)
    (second : (ofEdges nodes edges).ids[j]? = some id) : i = j := by
  have bound := (List.getElem?_eq_some_iff.mp first).1
  exact (List.getElem?_inj bound ids_nodup).mp (first.trans second.symm)

theorem idxOf?_eq_some_iff {ids : List String} (distinct : ids.Nodup) {id : String} {i : Nat} :
    ids.idxOf? id = some i ↔ ids[i]? = some id := by
  rw [List.idxOf?_eq_some_iff, List.getElem?_eq_some_iff]
  constructor
  · intro first
    obtain ⟨bound, found, -⟩ := first
    exact ⟨bound, found⟩
  · intro listed
    obtain ⟨bound, found⟩ := listed
    refine ⟨bound, found, ?_⟩
    intro j less same
    have equal := (List.Nodup.getElem_inj_iff distinct).mp (same.trans found.symm)
    omega

theorem mem_targetsIn {ids : List String} (distinct : ids.Nodup) {id : String} {j : Nat} :
    j ∈ targetsIn ids edges id ↔ ∃ target, ids[j]? = some target ∧ Joins edges id target := by
  rw [targetsIn, List.mem_mergeSort, List.mem_filterMap]
  constructor
  · intro named
    obtain ⟨⟨source, target⟩, member, found⟩ := named
    obtain ⟨listed, same⟩ := List.mem_filter.mp member
    rw [beq_iff_eq] at same
    exact ⟨target, (idxOf?_eq_some_iff distinct).mp found, same ▸ listed⟩
  · intro joined
    obtain ⟨target, found, listed⟩ := joined
    exact ⟨(id, target), List.mem_filter.mpr ⟨listed, beq_self_eq_true id⟩,
      (idxOf?_eq_some_iff distinct).mpr found⟩

/-- Edges of numbers are edges of the ids that have them. -/
theorem leads_iff {i j : Nat} : (ofEdges nodes edges).successors.Leads i j ↔
    ∃ source target, (ofEdges nodes edges).ids[i]? = some source ∧
      (ofEdges nodes edges).ids[j]? = some target ∧ Joins edges source target := by
  have row : (ofEdges nodes edges).successors[i]? =
      (ofEdges nodes edges).ids[i]?.map (targetsIn (ofEdges nodes edges).ids edges) :=
    List.getElem?_map
  rw [Arena.Leads, row]
  constructor
  · intro edge
    obtain ⟨targets, found, member⟩ := edge
    obtain ⟨source, at_i, rfl⟩ := Option.map_eq_some_iff.mp found
    obtain ⟨target, at_j, listed⟩ := (mem_targetsIn ids_nodup).mp member
    exact ⟨source, target, at_i, at_j, listed⟩
  · intro joined
    obtain ⟨source, target, at_i, at_j, listed⟩ := joined
    exact ⟨_, Option.map_eq_some_iff.mpr ⟨source, at_i, rfl⟩,
      (mem_targetsIn ids_nodup).mpr ⟨target, at_j, listed⟩⟩

theorem successors_enclosed : (ofEdges nodes edges).successors.Enclosed := by
  intro targets listed j member
  obtain ⟨i, found⟩ := List.mem_iff_getElem?.mp listed
  obtain ⟨-, target, -, at_j, -⟩ := leads_iff.mp ⟨targets, found, member⟩
  rw [length_successors]
  exact (List.getElem?_eq_some_iff.mp at_j).1

theorem mem_declared {i : Nat} : i ∈ (ofEdges nodes edges).declared ↔
    ∃ id ∈ nodes, (ofEdges nodes edges).ids[i]? = some id := by
  have members : i ∈ (ofEdges nodes edges).declared ↔ i < (ofEdges nodes edges).ids.length ∧
      ((ofEdges nodes edges).ids[i]?).any nodes.contains := by
    rw [← List.mem_range]
    exact List.mem_filter
  rw [members]
  constructor
  · intro declared
    obtain ⟨-, any⟩ := declared
    obtain ⟨id, found, member⟩ := Option.any_eq_true _ _ |>.mp any
    exact ⟨id, List.contains_iff_mem.mp member, found⟩
  · intro named
    obtain ⟨id, member, found⟩ := named
    exact ⟨(List.getElem?_eq_some_iff.mp found).1,
      (Option.any_eq_true _ _).mpr ⟨id, found, List.contains_iff_mem.mpr member⟩⟩

/-! ## Walks -/

theorem exists_number {id : String} (member : id ∈ (ofEdges nodes edges).ids) :
    ∃ i : Nat, (ofEdges nodes edges).ids[i]? = some id := List.mem_iff_getElem?.mp member

/-- Steps between numbers are the steps between the ids that have them, and every id that a step
leads to has a number. -/
structure Numbers (g : Graph) (numbered : Nat → Nat → Prop) (named : String → String → Prop) :
    Prop where
  step_iff : ∀ i j, numbered i j ↔
    ∃ source target, g.ids[i]? = some source ∧ g.ids[j]? = some target ∧ named source target
  known : ∀ source target, named source target → target ∈ g.ids

namespace Numbers

variable {g : Graph} {numbered : Nat → Nat → Prop} {named : String → String → Prop} {i j : Nat}
  {id place : String}

theorem walk_of (numbers : g.Numbers numbered named) (at_i : g.ids[i]? = some id)
    (walk : ReflTransGen numbered i j) :
    ∃ place, g.ids[j]? = some place ∧ ReflTransGen named id place := by
  induction walk with
  | refl => exact ⟨id, at_i, .refl⟩
  | tail _ step ih =>
      obtain ⟨place, at_place, walk⟩ := ih
      obtain ⟨source, target, at_source, at_target, leads⟩ := (numbers.step_iff _ _).mp step
      have same : place = source := Option.some_inj.mp (at_place.symm.trans at_source)
      exact ⟨target, at_target, walk.tail (same ▸ leads)⟩

theorem walk_to (numbers : g.Numbers numbered named) (at_i : g.ids[i]? = some id)
    (walk : ReflTransGen named id place) :
    ∃ j : Nat, g.ids[j]? = some place ∧ ReflTransGen numbered i j := by
  induction walk with
  | refl => exact ⟨i, at_i, .refl⟩
  | @tail source target _ leads ih =>
      obtain ⟨j, at_source, walk⟩ := ih
      obtain ⟨k, at_target⟩ := List.mem_iff_getElem?.mp (numbers.known source target leads)
      have step := (numbers.step_iff j k).mpr ⟨source, target, at_source, at_target, leads⟩
      exact ⟨k, at_target, walk.tail step⟩

end Numbers

theorem leads_numbers (nodes : List String) (edges : List (String × String)) :
    (ofEdges nodes edges).Numbers (ofEdges nodes edges).successors.Leads (Joins edges) where
  step_iff _ _ := leads_iff
  known source _ listed := mem_ids.mpr (.inr ⟨source, .inr listed⟩)

/-- A number leads to a cycle of numbers exactly where its id leads to a cycle of ids. -/
theorem acyclicFrom_iff {i : Nat} {id : String} (at_i : (ofEdges nodes edges).ids[i]? = some id) :
    AcyclicFrom (ofEdges nodes edges).successors.Leads i ↔ AcyclicFrom (Joins edges) id := by
  constructor
  · intro acyclic place walk loop
    obtain ⟨j, at_j, walk⟩ := (leads_numbers nodes edges).walk_to at_i walk
    obtain ⟨next, listed, back⟩ := TransGen.head'_iff.mp loop
    obtain ⟨k, at_k⟩ := exists_number (mem_ids.mpr (.inr ⟨place, .inr listed⟩))
    obtain ⟨j', at_j', back⟩ := (leads_numbers nodes edges).walk_to at_k back
    have edge := leads_iff.mpr ⟨place, next, at_j, at_k, listed⟩
    exact acyclic j walk (TransGen.head' edge (number_unique at_j' at_j ▸ back))
  · intro acyclic j walk loop
    obtain ⟨place, at_j, walk⟩ := (leads_numbers nodes edges).walk_of at_i walk
    obtain ⟨k, edge, back⟩ := TransGen.head'_iff.mp loop
    obtain ⟨source, next, at_source, at_k, listed⟩ := leads_iff.mp edge
    obtain ⟨place', at_j', back⟩ := (leads_numbers nodes edges).walk_of at_k back
    have same : place' = place := Option.some_inj.mp (at_j'.symm.trans at_j)
    have same' : source = place := Option.some_inj.mp (at_source.symm.trans at_j)
    subst same same'
    exact acyclic _ walk (TransGen.head' listed back)

/-- The id of a number of the graph. -/
def nameOf (g : Graph) (i : Nat) : String := (g.ids[i]?).getD ""

theorem getElem?_ids {g : Graph} {i : Nat} (bound : i < g.ids.length) :
    g.ids[i]? = some (g.nameOf i) := by
  rw [nameOf, List.getElem?_eq_getElem bound, Option.getD_some]

theorem idsOf_eq_map {g : Graph} {numbers : List Nat} (inside : ∀ i ∈ numbers, i < g.ids.length) :
    g.idsOf numbers = numbers.map g.nameOf := by
  induction numbers with
  | nil => rfl
  | cons i numbers ih =>
      rw [idsOf, List.filterMap_cons_some (getElem?_ids (inside i List.mem_cons_self)),
        List.map_cons]
      exact congrArg _ (ih fun j member => inside j (List.mem_cons_of_mem i member))

/-! ## Cycles -/

theorem findCycle_search (nodes : List String) (edges : List (String × String)) : ∃ result,
    (ofEdges nodes edges).successors.findCycle (ofEdges nodes edges).declared = .ok result ∧
      (ofEdges nodes edges).findCycle = result.map (ofEdges nodes edges).idsOf := by
  have inside : ∀ root ∈ (ofEdges nodes edges).declared,
      root < (ofEdges nodes edges).successors.length := by
    intro root member
    obtain ⟨id, -, found⟩ := mem_declared.mp member
    rw [length_successors]
    exact (List.getElem?_eq_some_iff.mp found).1
  obtain ⟨result, outcome⟩ := Arena.exists_findCycle_eq_ok successors_enclosed inside
  refine ⟨result, outcome, ?_⟩
  rw [findCycle, outcome]
  cases result <;> rfl

theorem isCycle_of_findCycle {path : List String}
    (found : (ofEdges nodes edges).findCycle = some path) :
    IsCycle (Joins edges) path ∧
      ∃ id ∈ nodes, ∃ first, path.head? = some first ∧ ReflTransGen (Joins edges) id first := by
  obtain ⟨result, outcome, named⟩ := findCycle_search nodes edges
  rw [found] at named
  obtain ⟨numbers, rfl, rfl⟩ := Option.map_eq_some_iff.mp named.symm
  obtain ⟨cycle, root, member, first, head, walk⟩ := Arena.isCycle_of_findCycle outcome
  have inside : ∀ i ∈ numbers, i < (ofEdges nodes edges).ids.length := by
    intro i member
    obtain ⟨next, edge⟩ := cycle.exists_step member
    exact length_successors ▸ edge.source_lt
  rw [idsOf_eq_map inside]
  refine ⟨cycle.map _ ?_ ?_, ?_⟩
  · intro i j edge
    obtain ⟨source, target, at_i, at_j, listed⟩ := leads_iff.mp edge
    rw [nameOf, nameOf, at_i, at_j]
    exact listed
  · intro i iMember j jMember same
    apply number_unique (getElem?_ids (inside i iMember))
    rw [same]
    exact getElem?_ids (inside j jMember)
  · obtain ⟨id, declared, at_root⟩ := mem_declared.mp member
    obtain ⟨place, at_first, walk⟩ := (leads_numbers nodes edges).walk_of at_root walk
    refine ⟨id, declared, place, ?_, walk⟩
    rw [List.head?_map, head, Option.map_some, nameOf, at_first, Option.getD_some]

theorem findCycle_eq_none_iff :
    (ofEdges nodes edges).findCycle = none ↔ ∀ id ∈ nodes, AcyclicFrom (Joins edges) id := by
  constructor
  · intro none id declared
    obtain ⟨result, outcome, named⟩ := findCycle_search nodes edges
    rw [none, eq_comm, Option.map_eq_none_iff] at named
    subst named
    obtain ⟨i, at_i⟩ := exists_number (mem_ids.mpr (.inl declared))
    exact (acyclicFrom_iff at_i).mp
      (Arena.acyclicFrom_of_findCycle outcome i (mem_declared.mpr ⟨id, declared, at_i⟩))
  · intro acyclic
    cases found : (ofEdges nodes edges).findCycle with
    | none => rfl
    | some path =>
        obtain ⟨cycle, id, declared, first, head, walk⟩ := isCycle_of_findCycle found
        exact absurd (cycle.transGen head) (acyclic id declared first walk)

end Graph

end Workflow
