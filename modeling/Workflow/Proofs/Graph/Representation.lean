import Workflow.Proofs.Graph.Numbering

/-!
What a graph holds of the ids and the edges that it is put together from. The ids are numbered in
their order, and the row of a node lists the numbers of the node's targets, one for each edge. Main
statements: there is exactly one graph that represents some declared ids and some edges, whatever
the order is in which they are given; and what such a graph tells of an id are the targets of the
edges that leave it.
-/

namespace Workflow.Graph

/-- The graph holds the declared ids and the ends of the edges under ascending numbers, and each
edge once in the row of its source. -/
structure Represents (g : Graph) (nodes : List String) (edges : List (String × String)) :
    Prop where
  ids_sorted : g.ids.Pairwise (· < ·)
  mem_ids : ∀ id, id ∈ g.ids ↔ id ∈ nodes ∨ ∃ other, (id, other) ∈ edges ∨ (other, id) ∈ edges
  index : ∀ id (i : Nat), g.index? id = some i ↔ g.ids[i]? = some id
  rows : g.successors.length = g.ids.length
  rows_sorted : ∀ row ∈ g.successors, row.Pairwise (· ≤ ·)
  inside : ∀ row ∈ g.successors, ∀ j ∈ row, j < g.ids.length
  counts : ∀ (i j : Nat) source target row, g.ids[i]? = some source → g.ids[j]? = some target →
    g.successors[i]? = some row → row.count j = edges.count (source, target)
  declared_sorted : g.declared.Pairwise (· < ·)
  mem_declared : ∀ i, i ∈ g.declared ↔ ∃ id ∈ nodes, g.ids[i]? = some id

variable {g g' : Graph} {nodes nodes' : List String} {edges edges' : List (String × String)}

/-! ## The graph of some edges -/

theorem count_targetsIn {ids : List String} (distinct : ids.Nodup) {j : Nat} {target : String}
    (at_j : ids[j]? = some target) (source : String) :
    (targetsIn ids edges source).count j = edges.count (source, target) := by
  have named (edge : String × String) : ids.idxOf? edge.2 = some j ↔ edge.2 = target := by
    rw [idxOf?_eq_some_iff distinct, at_j, Option.some_inj, eq_comm]
  calc
    (targetsIn ids edges source).count j
        = ((edges.filter (·.1 == source)).filterMap fun edge => ids.idxOf? edge.2).count j :=
          (List.mergeSort_perm _ _).count_eq j
    _ = (edges.filter (·.1 == source)).countP fun edge => ids.idxOf? edge.2 == some j :=
          List.count_filterMap
    _ = edges.countP fun edge => ids.idxOf? edge.2 == some j && edge.1 == source :=
          List.countP_filter
    _ = edges.count (source, target) := by
          rw [List.count_eq_countP]
          apply List.countP_congr
          intro edge _
          simp [named, Prod.ext_iff, and_comm]

theorem represents_ofEdges (nodes : List String) (edges : List (String × String)) :
    (ofEdges nodes edges).Represents nodes edges where
  ids_sorted := ascendingSet_pairwise _
  mem_ids _ := mem_ids
  index _ _ := idxOf?_eq_some_iff ids_nodup
  rows := length_successors
  rows_sorted := by
    intro row listed
    obtain ⟨id, -, rfl⟩ := List.mem_map.mp listed
    exact List.pairwise_mergeSort' (· ≤ ·) _
  inside := by
    intro row listed j member
    exact length_successors ▸ successors_enclosed row listed j member
  counts := by
    intro i j source target row at_i at_j found
    have named : (ofEdges nodes edges).successors[i]? =
        (ofEdges nodes edges).ids[i]?.map (targetsIn (ofEdges nodes edges).ids edges) :=
      List.getElem?_map
    rw [at_i, Option.map_some, found, Option.some_inj] at named
    rw [named]
    exact count_targetsIn ids_nodup at_j source
  declared_sorted := List.Pairwise.filter _ List.pairwise_lt_range
  mem_declared _ := mem_declared

namespace Represents

/-! ## One graph only -/

/-- How often the ids are declared and in which order the edges are listed does not count. -/
theorem congr (represents : g.Represents nodes edges) (same : ∀ id, id ∈ nodes ↔ id ∈ nodes')
    (perm : edges.Perm edges') : g.Represents nodes' edges' where
  ids_sorted := represents.ids_sorted
  mem_ids id := by
    simp only [represents.mem_ids, same, perm.mem_iff]
  index := represents.index
  rows := represents.rows
  rows_sorted := represents.rows_sorted
  inside := represents.inside
  counts := by
    intro i j source target row at_i at_j found
    rw [represents.counts i j source target row at_i at_j found, perm.count_eq]
  declared_sorted := represents.declared_sorted
  mem_declared i := by
    simp only [represents.mem_declared, same]

theorem ids_eq (first : g.Represents nodes edges) (second : g'.Represents nodes edges) :
    g.ids = g'.ids := by
  apply List.Pairwise.eq_of_mem_iff first.ids_sorted second.ids_sorted
  intro id
  rw [first.mem_ids, second.mem_ids]

/-- A row is known by how often it lists each number. -/
theorem row_eq (first : g.Represents nodes edges) (second : g'.Represents nodes edges) {i : Nat}
    {row row' : List Nat} (found : g.successors[i]? = some row)
    (found' : g'.successors[i]? = some row') : row = row' := by
  have listed := List.mem_of_getElem? found
  have listed' := List.mem_of_getElem? found'
  have ids := first.ids_eq second
  apply List.Perm.eq_of_pairwise' (first.rows_sorted row listed)
    (second.rows_sorted row' listed')
  rw [List.perm_iff_count]
  intro j
  by_cases bound : j < g.ids.length
  · have inside : i < g.ids.length := first.rows ▸ (List.getElem?_eq_some_iff.mp found).1
    have at_i : g.ids[i]? = some g.ids[i] := List.getElem?_eq_getElem inside
    have at_j : g.ids[j]? = some g.ids[j] := List.getElem?_eq_getElem bound
    have at_i' : g'.ids[i]? = some g.ids[i] := by rw [← ids, at_i]
    have at_j' : g'.ids[j]? = some g.ids[j] := by rw [← ids, at_j]
    calc
      row.count j = edges.count (g.ids[i], g.ids[j]) := first.counts i j _ _ row at_i at_j found
      _ = row'.count j := (second.counts i j _ _ row' at_i' at_j' found').symm
  · have off : j ∉ row := mt (first.inside row listed j) bound
    have off' : j ∉ row' := mt (second.inside row' listed' j) (ids ▸ bound)
    rw [List.count_eq_zero.mpr off, List.count_eq_zero.mpr off']

theorem unique (first : g.Represents nodes edges) (second : g'.Represents nodes edges) :
    g = g' := by
  have ids := first.ids_eq second
  have successors : g.successors = g'.successors := by
    have length : g.successors.length = g'.successors.length := by
      rw [first.rows, second.rows, ids]
    apply List.ext_getElem length
    intro i bound bound'
    exact first.row_eq second (List.getElem?_eq_getElem bound) (List.getElem?_eq_getElem bound')
  have declared : g.declared = g'.declared := by
    apply List.Pairwise.eq_of_mem_iff first.declared_sorted second.declared_sorted
    intro i
    rw [first.mem_declared, second.mem_declared, ids]
  cases g
  cases g'
  rw [mk.injEq]
  exact ⟨ids, successors, declared⟩

/-! ## Targets -/

theorem le_of_numbers (represents : g.Represents nodes edges) {i j : Nat} {id other : String}
    (at_i : g.ids[i]? = some id) (at_j : g.ids[j]? = some other) (le : i ≤ j) : id ≤ other := by
  obtain ⟨bound, rfl⟩ := List.getElem?_eq_some_iff.mp at_i
  obtain ⟨bound', rfl⟩ := List.getElem?_eq_some_iff.mp at_j
  rcases Nat.lt_or_eq_of_le le with less | same
  · have below := List.pairwise_iff_getElem.mp represents.ids_sorted i j bound bound' less
    exact String.not_lt.mp (String.lt_asymm below)
  · subst same
    exact String.le_refl _

theorem exists_row (represents : g.Represents nodes edges) {i : Nat} {id : String}
    (at_i : g.ids[i]? = some id) : ∃ row, g.successors[i]? = some row := by
  have bound := (List.getElem?_eq_some_iff.mp at_i).1
  rw [← represents.rows] at bound
  exact ⟨_, List.getElem?_eq_getElem bound⟩

/-- The ids that a row stands for: each number gives way to its id, and the order stays. -/
theorem idsOf_row_pairwise (represents : g.Represents nodes edges) {row : List Nat}
    (listed : row ∈ g.successors) : (g.idsOf row).Pairwise (· ≤ ·) := by
  apply List.Pairwise.filterMap _ _ (represents.rows_sorted row listed)
  intro i j le id at_i other at_j
  exact represents.le_of_numbers at_i at_j le

theorem count_idsOf_row (represents : g.Represents nodes edges) {i : Nat} {id : String}
    {row : List Nat} (at_i : g.ids[i]? = some id) (found : g.successors[i]? = some row)
    (target : String) : (g.idsOf row).count target = edges.count (id, target) := by
  have named : (g.idsOf row).count target = row.countP fun k => g.ids[k]? == some target :=
    List.count_filterMap
  by_cases known : target ∈ g.ids
  · obtain ⟨j, at_j⟩ := List.mem_iff_getElem?.mp known
    have number (k : Nat) : g.ids[k]? = some target ↔ k = j := by
      rw [← represents.index, (represents.index target j).mpr at_j, Option.some_inj, eq_comm]
    calc
      (g.idsOf row).count target = row.countP fun k => g.ids[k]? == some target := named
      _ = row.count j := by
        rw [List.count_eq_countP]
        apply List.countP_congr
        intro k _
        simp [number]
      _ = edges.count (id, target) := represents.counts i j id target row at_i at_j found
  · have unlisted : (id, target) ∉ edges := by
      intro listed
      exact known ((represents.mem_ids target).mpr (.inr ⟨id, .inr listed⟩))
    rw [named, List.count_eq_zero.mpr unlisted, List.countP_eq_zero]
    intro k _ at_k
    exact known (List.mem_of_getElem? (eq_of_beq at_k))

end Represents

theorem count_targets (edges : List (String × String)) (id target : String) :
    ((edges.filter (·.1 == id)).map Prod.snd).count target = edges.count (id, target) := by
  rw [List.count_eq_countP, List.countP_map, List.countP_filter, List.count_eq_countP]
  apply List.countP_congr
  intro edge _
  simp [Prod.ext_iff, and_comm]

/-- The graph tells the targets of the edges that leave an id, in ascending order. -/
theorem Represents.successorIds_eq (represents : g.Represents nodes edges) (id : String) :
    g.successorIds id = ascending ((edges.filter (·.1 == id)).map Prod.snd) := by
  rw [successorIds]
  cases number : g.index? id with
  | none =>
      have unknown : id ∉ g.ids := by
        intro known
        obtain ⟨i, at_i⟩ := List.mem_iff_getElem?.mp known
        cases number.symm.trans ((represents.index id i).mpr at_i)
      have leaving : edges.filter (·.1 == id) = [] := by
        rw [List.filter_eq_nil_iff]
        intro edge listed same
        apply unknown
        rw [represents.mem_ids]
        exact .inr ⟨edge.2, .inl (eq_of_beq same ▸ listed)⟩
      rw [leaving, List.map_nil, ascending, List.mergeSort_nil]
  | some i =>
      have at_i := (represents.index id i).mp number
      obtain ⟨row, found⟩ := represents.exists_row at_i
      have sorted := represents.idsOf_row_pairwise (List.mem_of_getElem? found)
      dsimp only
      rw [found, Option.getD_some]
      apply List.Perm.eq_of_pairwise' sorted (ascending_pairwise _)
      apply List.Perm.trans _ (ascending_perm _).symm
      rw [List.perm_iff_count]
      intro target
      rw [represents.count_idsOf_row at_i found, count_targets]

/-- A graph does not tell in which order its ids and edges were given, nor how often its ids. -/
theorem ofEdges_eq_of_perm (declared : ∀ id, id ∈ nodes ↔ id ∈ nodes')
    (perm : edges.Perm edges') : ofEdges nodes edges = ofEdges nodes' edges' :=
  ((represents_ofEdges nodes edges).congr declared perm).unique (represents_ofEdges nodes' edges')

/-- The graph of declared ids and edges is the one that represents them. It tells of every text the
targets of the edges that leave it, in ascending order and one for each edge, and it depends on the
set of the declared ids and on the multiset of the edges only. -/
theorem ofEdges_exact (nodes : List String) (edges : List (String × String)) :
    (∀ g : Graph, g.Represents nodes edges ↔ g = ofEdges nodes edges) ∧
      (∀ id, ((ofEdges nodes edges).successorIds id).Pairwise (· ≤ ·) ∧
        ((ofEdges nodes edges).successorIds id).Perm
          ((edges.filter (·.1 == id)).map Prod.snd)) ∧
      ∀ nodes' edges', (∀ id, id ∈ nodes ↔ id ∈ nodes') → edges.Perm edges' →
        ofEdges nodes edges = ofEdges nodes' edges' := by
  have represents := represents_ofEdges nodes edges
  refine ⟨?_, ?_, fun _ _ => ofEdges_eq_of_perm⟩
  · intro g
    constructor
    · intro other
      exact other.unique represents
    · intro same
      exact same ▸ represents
  · intro id
    rw [represents.successorIds_eq]
    exact ⟨ascending_pairwise _, ascending_perm _⟩

/-- Two edges from "a" to "x", which is not declared, are two entries of one row. -/
theorem ofEdges_exact_parallel : (∀ id, id ∈ ["b", "a", "b"] ↔ id ∈ ["a", "b"]) ∧
    [("a", "x"), ("a", "b"), ("a", "x")].Perm [("a", "b"), ("a", "x"), ("a", "x")] ∧
    ofEdges ["b", "a", "b"] [("a", "x"), ("a", "b"), ("a", "x")] =
      ofEdges ["a", "b"] [("a", "b"), ("a", "x"), ("a", "x")] := by
  have same (id : String) : id ∈ ["b", "a", "b"] ↔ id ∈ ["a", "b"] := by grind
  have perm : [("a", "x"), ("a", "b"), ("a", "x")].Perm [("a", "b"), ("a", "x"), ("a", "x")] := by
    decide
  exact ⟨same, perm, (ofEdges_exact _ _).2.2 _ _ same perm⟩

example : (ofEdges ["b", "a", "b"] [("a", "x"), ("a", "b"), ("a", "x")]).successorIds "a" =
    ["b", "x", "x"] := by cbv

end Workflow.Graph
