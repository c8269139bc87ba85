import Workflow.Proofs.Graph.Reachability
import Workflow.Proofs.Lint.FirstFault

/-!
What the passes that search the graph tell of any orchestration, also of one with edges that join
nodes that are not declared. The search for a cycle follows such edges, and the search for the nodes
that the start node reaches does not. Main statements: a cycle is found exactly where a declared
node leads to one, and the nodes that are pointed out are those that the start node does not lead to
by way of declared nodes only.
-/

namespace Workflow.Orchestration

open Relation

variable {o : Orchestration}

/-! ## Cycles -/

/-- There is a fault exactly where a declared node leads to a cycle, by way of whatever nodes. There
is one fault then, and it shows a cycle of edges that a declared node leads to, which starts and
ends at the node that the fault names. -/
theorem checkAcyclic_exact (o : Orchestration) :
    (o.checkAcyclic.faults ≠ [] ↔ ∃ id ∈ o.nodeIds, ∃ place,
      ReflTransGen (EdgesLead o.edges) id place ∧ TransGen (EdgesLead o.edges) place place) ∧
      o.checkAcyclic.faults.length ≤ 1 ∧
      ∀ fault ∈ o.checkAcyclic.faults, ∃ node path, fault.code = .cycleDetected ∧
        fault.details = [("nodeId", .text node), ("cycle", .texts path)] ∧
        IsCycle (EdgesLead o.edges) path ∧ path.head? = some node ∧ path.getLast? = some node ∧
        ∃ id ∈ o.nodeIds, ReflTransGen (EdgesLead o.edges) id node := by
  refine ⟨?_, Option.length_toList_le, ?_⟩
  · rw [ne_eq, checkAcyclic_faults_eq_nil_iff_acyclicFrom]
    simp only [AcyclicFrom, not_forall, not_not, exists_prop]
  · intro fault listed
    obtain ⟨path, cycle, rfl, id, declared, node, head, walk⟩ := isCycle_of_checkAcyclic listed
    have last : path.getLast? = some node := cycle.closed.symm.trans head
    refine ⟨node, path, rfl, ?_, cycle, head, last, id, declared, walk⟩
    rw [Fault.details, List.headD_eq_head?_getD, head, Option.getD_some]

/-- A detour from one agent to the other by way of a node that is not declared, which leads on to a
cycle; and a cycle that no agent leads to. -/
def detour : Orchestration :=
  { id := "o", name := "O", tools := [], gates := [], startNode := "a", outputs := []
    agents := [⟨"a", "A", "Go", [], none, none⟩, ⟨"b", "B", "Check", [], none, none⟩]
    edges := [⟨"1", "a", "x", none, none⟩, ⟨"2", "x", "b", none, none⟩,
      ⟨"3", "b", "x", none, none⟩, ⟨"4", "y", "y", none, none⟩] }

theorem checkAcyclic_exact_detour : ∃ fault, detour.checkAcyclic.faults = [fault] ∧
    ∃ node path, fault.details = [("nodeId", .text node), ("cycle", .texts path)] ∧
      IsCycle (EdgesLead detour.edges) path ∧ path.head? = some node := by
  have detoured : ReflTransGen (EdgesLead detour.edges) "a" "x" := .single (by decide)
  have there : EdgesLead detour.edges "x" "b" := by decide
  have back : EdgesLead detour.edges "b" "x" := by decide
  obtain ⟨found, single, shown⟩ := checkAcyclic_exact detour
  have faulty := found.mpr ⟨"a", by decide, "x", detoured, .tail (.single there) back⟩
  have one := Nat.le_antisymm single (List.length_pos_iff.mpr faulty)
  obtain ⟨fault, only⟩ := List.length_eq_one_iff.mp one
  have listed : fault ∈ detour.checkAcyclic.faults := only ▸ List.mem_singleton_self fault
  obtain ⟨node, path, -, details, cycle, head, -⟩ := shown fault listed
  exact ⟨fault, only, node, path, details, cycle, head⟩

/-! ## Nodes that are not reached -/

/-- One of the edges leads from `source` to `target`, and both of them are declared. -/
def LeadsWithin (o : Orchestration) (source target : String) : Prop :=
  EdgesLead o.edges source target ∧ source ∈ o.nodeIds ∧ target ∈ o.nodeIds

theorem leadsWithin_eq (declared : o.EdgesDeclared) : o.LeadsWithin = EdgesLead o.edges := by
  funext source target
  rw [LeadsWithin, eq_iff_iff, and_iff_left_iff_imp]
  intro leads
  obtain ⟨edge, listed, rfl, rfl⟩ := leads
  exact declared edge listed

/-- The search only looks at where an edge leads to, but where it comes from is declared by then. -/
theorem reflTransGen_joinsDeclared_iff {start id : String} (declared : start ∈ o.nodeIds) :
    ReflTransGen (Graph.JoinsDeclared o.nodeIds (o.edges.map Edge.ends)) start id ↔
      ReflTransGen o.LeadsWithin start id := by
  constructor
  · intro walk
    have within : id ∈ o.nodeIds ∧ ReflTransGen o.LeadsWithin start id := by
      induction walk with
      | refl => exact ⟨declared, .refl⟩
      | tail _ step ih =>
          rw [Graph.JoinsDeclared, joins_ends] at step
          exact ⟨step.2, ih.2.tail ⟨step.1, ih.1, step.2⟩⟩
    exact within.2
  · intro walk
    refine ReflTransGen.mono ?_ _ _ walk
    intro source target step
    rw [Graph.JoinsDeclared, joins_ends]
    exact ⟨step.1, step.2.2⟩

theorem exists_missed (start : o.StartDeclared) : ∃ missed : List String,
    o.checkReachability.findings =
      (if o.agents.isEmpty then [.noAgents] else []) ++ missed.map Finding.unreachable ∧
      missed.Pairwise (· < ·) ∧
      ∀ id, id ∈ missed ↔ id ∈ o.nodeIds ∧ ¬ ReflTransGen o.LeadsWithin o.startNode id := by
  have known : o.startNode ∈ o.graph.ids := Graph.mem_ids.mpr (.inl start)
  obtain ⟨reached, found, members⟩ := Graph.exists_reachable? known
  have answer : o.graph.reachable? o.startNode = some reached := found
  refine ⟨(ascendingSet o.nodeIds).filter (!reached.contains ·), ?_, ?_, ?_⟩
  · rw [checkReachability, if_pos (show o.startNode ∈ o.nodeIds from start), answer,
      Option.getD_some]
  · exact (ascendingSet_pairwise o.nodeIds).filter _
  · intro id
    rw [List.mem_filter, mem_ascendingSet, ← reflTransGen_joinsDeclared_iff start, ← members]
    simp

theorem checkReachability_faults_eq_iff :
    o.checkReachability.faults = [.startMissing o.startNode] ↔ ¬ o.StartDeclared := by
  rw [← checkReachability_faults_eq_nil_iff, checkReachability]
  split <;> simp

/-- The start node is found fault with exactly where it is not declared. Where it is, the nodes that
are pointed out are, in strictly ascending order, the declared ones that it does not lead to by way
of declared nodes, and it is not one of them. -/
theorem checkReachability_exact (o : Orchestration) :
    (o.checkReachability.faults = [.startMissing o.startNode] ↔ o.startNode ∉ o.nodeIds) ∧
      (o.startNode ∈ o.nodeIds → o.checkReachability.faults = [] ∧ ∃ missed : List String,
        o.checkReachability.findings.filter (·.code = .unreachableNode) =
          missed.map Finding.unreachable ∧
        missed.Pairwise (· < ·) ∧
        (∀ id, id ∈ missed ↔ id ∈ o.nodeIds ∧ ¬ ReflTransGen o.LeadsWithin o.startNode id) ∧
        o.startNode ∉ missed) := by
  refine ⟨checkReachability_faults_eq_iff, ?_⟩
  intro start
  obtain ⟨missed, findings, sorted, members⟩ := exists_missed start
  refine ⟨checkReachability_faults_eq_nil_iff.mpr start, missed, ?_, sorted, members, ?_⟩
  · have agents : (if o.agents.isEmpty then [Finding.noAgents] else []).filter
        (·.code = .unreachableNode) = [] := by split <;> rfl
    have nodes : (missed.map Finding.unreachable).filter (·.code = .unreachableNode) =
        missed.map Finding.unreachable := by simp [List.filter_eq_self, Finding.code]
    rw [findings, List.filter_append, agents, nodes, List.nil_append]
  · rw [members]
    exact fun apart => apart.2 .refl

/-- The only edge that leaves the start node leads to the node that is not declared. -/
theorem detour_apart : ¬ ReflTransGen detour.LeadsWithin detour.startNode "b" := by
  have leaves : ∀ edge ∈ detour.edges, edge.source = detour.startNode →
      edge.target ∉ detour.nodeIds := by decide
  intro walk
  rcases walk.cases_head with same | first
  · exact absurd same (by decide)
  · obtain ⟨target, ⟨⟨edge, listed, source, rfl⟩, -, within⟩, -⟩ := first
    exact leaves edge listed source within

theorem checkReachability_exact_detour : detour.startNode ∈ detour.nodeIds ∧
    "b" ∈ detour.nodeIds ∧ ¬ ReflTransGen detour.LeadsWithin detour.startNode "b" ∧
    .unreachable "b" ∈ detour.checkReachability.findings := by
  have start : detour.startNode ∈ detour.nodeIds := by decide
  have declared : "b" ∈ detour.nodeIds := by decide
  obtain ⟨-, missed, findings, -, members, -⟩ := (checkReachability_exact detour).2 start
  have named : .unreachable "b" ∈ missed.map Finding.unreachable :=
    List.mem_map_of_mem ((members "b").mpr ⟨declared, detour_apart⟩)
  rw [← findings] at named
  exact ⟨start, declared, detour_apart, List.mem_of_mem_filter named⟩

end Workflow.Orchestration
