import Workflow.Graph.Ascending
import Workflow.Graph.Search

/-!
Directed graphs over node ids. The ids are held in ascending order and their positions number the
nodes, so a graph depends on the set of its ids and on the multiset of its edges only. An end of
an edge that is not a declared node has a number too.
-/

namespace Workflow

structure Graph where
  /-- Declared ids and ends of edges, ascending and without repeats. -/
  ids : List String
  /-- For each node the numbers of its targets, ascending, parallel edges kept. -/
  successors : Arena
  /-- The numbers of the declared nodes, ascending. -/
  declared : List Nat
  deriving DecidableEq, Repr

namespace Graph

/-- The numbers of the nodes that edges lead to from the node `id`. -/
def targetsIn (ids : List String) (edges : List (String × String)) (id : String) : List Nat :=
  ((edges.filter (·.1 == id)).filterMap fun edge => ids.idxOf? edge.2).mergeSort

/-- The graph of some declared ids and of edges from a source to a target. -/
def ofEdges (nodes : List String) (edges : List (String × String)) : Graph :=
  let ids := ascendingSet (nodes ++ edges.map Prod.fst ++ edges.map Prod.snd)
  { ids
    successors := ids.map (targetsIn ids edges)
    declared := (List.range ids.length).filter fun i => (ids[i]?).any nodes.contains }

def index? (g : Graph) (id : String) : Option Nat := g.ids.idxOf? id

def contains (g : Graph) (id : String) : Bool := g.ids.contains id

def size (g : Graph) : Nat := g.ids.length

/-- The ids of the numbered nodes. -/
def idsOf (g : Graph) (nodes : List Nat) : List String := nodes.filterMap (g.ids[·]?)

/-- The targets of the edges that leave a node, ascending. An id that is not in the graph has
none. -/
def successorIds (g : Graph) (id : String) : List String :=
  match g.index? id with
  | none => []
  | some i => g.idsOf (g.successors[i]?.getD [])

/-- The nodes that edges between declared nodes lead to from `start`, ascending, `start` being one
of them; `none` where `start` is not in the graph. -/
def reachable? (g : Graph) (start : String) : Option (List String) := do
  let i ← g.index? start
  let visited ← (g.successors.reachableFrom i (some g.declared)).toOption
  some (g.idsOf ((List.range g.size).filter visited.contains))

/-- The first cycle that a search from the declared nodes in ascending order closes. -/
def findCycle (g : Graph) : Option (List String) := do
  let cycle ← (← (g.successors.findCycle g.declared).toOption)
  some (g.idsOf cycle)

def hasCycle (g : Graph) : Bool := g.findCycle.isSome

end Graph

end Workflow
