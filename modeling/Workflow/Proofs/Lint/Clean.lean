import Workflow.Proofs.Lint.Rearranged
import Workflow.Proofs.Lint.Searches
import Workflow.Proofs.Service.Determinism

/-!
Orchestrations that the checks find no fault in and point nothing out in. All nodes are reached from
the start node then, and as edges have no cycle, the start node is the only one that no edge enters.
Main statement: such an orchestration has agents, outputs and no id or edge twice, and its projects
compile to one canonical text whatever the order of their declarations, unless an agent or a tool in
use cannot be written out.
-/

namespace Workflow

open Relation

namespace Orchestration

variable {o : Orchestration}

/-! ## Single checks -/

theorem checkReachability_findings_eq_nil_iff (start : o.StartDeclared) (edges : o.EdgesDeclared) :
    o.checkReachability.findings = [] ↔
      o.agents ≠ [] ∧ ∀ id ∈ o.nodeIds, ReflTransGen (EdgesLead o.edges) o.startNode id := by
  obtain ⟨missed, findings, -, members⟩ := exists_missed start
  rw [leadsWithin_eq edges] at members
  rw [findings, List.append_eq_nil_iff, List.map_eq_nil_iff]
  apply and_congr
  · cases o.agents <;> simp
  · rw [List.eq_nil_iff_forall_not_mem]
    apply forall_congr'
    intro id
    rw [members, not_and_not_right]

theorem repeatedEdges_eq_nil_iff {edges : List Edge} :
    repeatedEdges [] edges = [] ↔ (edges.map Edge.ends).Nodup := by
  rw [← List.map_eq_nil_iff, List.nodup_iff_count_le_one]
  have count (ends : String × String) := count_repeatedEdges ends edges []
  simp only [List.not_mem_nil, if_false] at count
  constructor
  · intro none ends
    have counted := count ends
    rw [none, List.count_nil] at counted
    omega
  · intro once
    rw [List.eq_nil_iff_forall_not_mem]
    intro ends member
    have some := List.count_pos_iff.mpr member
    have few := once ends
    rw [count ends] at some
    omega

theorem checkEdges_findings_eq_nil_iff :
    o.checkEdges.findings = [] ↔ (o.edges.map Edge.ends).Nodup ∧ o.nodeIds.Nodup := by
  rw [checkEdges, List.append_eq_nil_iff, List.map_eq_nil_iff, List.map_eq_nil_iff,
    repeatedEdges_eq_nil_iff, List.filter_eq_nil_iff, List.nodup_iff_count_le_one (l := o.nodeIds)]
  apply and_congr_right'
  constructor
  · intro once id
    by_cases declared : id ∈ o.nodeIds
    · have few := once id (mem_ascendingSet.mpr declared)
      simpa using few
    · rw [List.count_eq_zero_of_not_mem declared]
      exact Nat.zero_le 1
  · intro once id _
    simpa using once id

theorem checkOutputs_findings_eq_nil_iff : o.checkOutputs.findings = [] ↔ o.outputs ≠ [] := by
  rw [checkOutputs]
  cases o.outputs <;> simp

/-! ## All checks -/

/-- All is declared, nothing is declared twice, and all is reached. -/
structure Clean (o : Orchestration) : Prop where
  sound : o.Sound
  agents : o.agents ≠ []
  outputs : o.outputs ≠ []
  nodes : o.nodeIds.Nodup
  edges : (o.edges.map Edge.ends).Nodup
  reached : ∀ id ∈ o.nodeIds, ReflTransGen (EdgesLead o.edges) o.startNode id

theorem lint_findings (o : Orchestration) : o.lint.findings =
    o.checkReachability.findings ++ (o.checkEdges.findings ++ o.checkOutputs.findings) := by
  have joined : o.lint.findings = [] ++ o.checkReachability.findings ++ [] ++
      o.checkEdges.findings ++ [] ++ o.checkOutputs.findings := rfl
  simpa only [List.append_assoc, List.append_nil, List.nil_append] using joined

theorem clean_iff : o.Clean ↔ o.lint.faults = [] ∧ o.lint.findings = [] := by
  rw [lint_faults_eq_nil_iff, lint_findings, List.append_eq_nil_iff, List.append_eq_nil_iff,
    checkEdges_findings_eq_nil_iff, checkOutputs_findings_eq_nil_iff]
  constructor
  · intro clean
    refine ⟨clean.sound, ?_, ⟨clean.edges, clean.nodes⟩, clean.outputs⟩
    exact (checkReachability_findings_eq_nil_iff clean.sound.start clean.sound.edges).mpr
      ⟨clean.agents, clean.reached⟩
  · intro clear
    obtain ⟨sound, reachability, ⟨edges, nodes⟩, outputs⟩ := clear
    obtain ⟨agents, reached⟩ :=
      (checkReachability_findings_eq_nil_iff sound.start sound.edges).mp reachability
    exact ⟨sound, agents, outputs, nodes, edges, reached⟩

/-! ## What is clean -/

namespace Clean

/-- An edge into the start node would close a cycle, as its source is reached from there. -/
theorem entered_iff (clean : o.Clean) {id : String} (declared : id ∈ o.nodeIds) :
    (∃ edge ∈ o.edges, edge.target = id) ↔ id ≠ o.startNode := by
  constructor
  · intro entered same
    obtain ⟨edge, listed, rfl⟩ := entered
    have walk := clean.reached edge.source (clean.sound.edges edge listed).1
    have back : EdgesLead o.edges edge.source o.startNode := ⟨edge, listed, rfl, same⟩
    exact clean.sound.acyclic o.startNode (TransGen.tail' walk back)
  · intro other
    rcases ReflTransGen.cases_tail_iff _ _ _ |>.mp (clean.reached id declared) with same | last
    · exact absurd same other
    · obtain ⟨source, -, edge, listed, -, enters⟩ := last
      exact ⟨edge, listed, enters⟩

end Clean

theorem targetsOf_pairwise_lt (distinct : (o.edges.map Edge.ends).Nodup) (id : String) :
    (o.targetsOf id).Pairwise (· < ·) := by
  have differ : (o.edges.filter (·.source == id)).Pairwise fun a b => a.ends ≠ b.ends :=
    (List.pairwise_map.mp distinct).filter _
  have targets : ((o.edges.filter (·.source == id)).map Edge.target).Nodup := by
    apply List.pairwise_map.mpr
    apply differ.imp_of_mem
    intro a b first second ends same
    have source := beq_iff_eq.mp (List.mem_filter.mp first).2
    have source' := beq_iff_eq.mp (List.mem_filter.mp second).2
    exact ends (Prod.ext (source.trans source'.symm) same)
  have sorted : (o.targetsOf id).Pairwise (· ≤ ·) := ascending_pairwise _
  have nodup : (o.targetsOf id).Nodup := (targetsOf_perm o id).nodup_iff.mpr targets
  apply (sorted.and nodup).imp
  intro a b both
  exact String.not_le.mp fun le => both.2 (String.le_antisymm both.1 le)

end Orchestration

/-- No two nodes of a clean orchestration share an id, so no order shows in the service. -/
theorem Project.canonical_rearranged_of_clean {p q : Project} (clean : p.orchestration.Clean)
    (fits : ¬ p.Unwritable) (rearranged : p.Rearranged q) :
    q.compilation = .done q.build ∧ q.build.canonical = p.build.canonical ∧
      q.build.canonical? = p.build.canonical? := by
  have distinct : p.orchestration.toolIds.Nodup := (List.nodup_append.mp clean.nodes).2.1
  have fits' : ¬ q.Unwritable := fun unwritable =>
    fits (rearranged.unwritable_of_distinct clean.sound distinct unwritable)
  have same := (rearranged.canonical_eq clean.sound distinct).symm
  have written := (rearranged.canonical?_eq_none_iff fits fits').symm
  exact ⟨compilation_of_sound (rearranged.sound clean.sound) fits', same,
    Service.canonical?_eq_of_canonical_eq written same⟩

/-- Where the checks find no fault and point nothing out, there are agents and outputs, all ids and
all ends of edges are distinct, all nodes are reached from the start node, and it is the only node
that no edge enters. A project with the orchestration compiles, unless an agent or a tool in use
cannot be written out; its agents go on to ids in strictly ascending order, and however its
declarations are ordered it has the same canonical text. -/
theorem Orchestration.clear_lint_guarantees {o : Orchestration} (faultless : o.lint.faults = [])
    (unremarked : o.lint.findings = []) :
    o.agents ≠ [] ∧ o.outputs ≠ [] ∧ o.nodeIds.Nodup ∧ (o.edges.map Edge.ends).Nodup ∧
      (∀ id ∈ o.nodeIds, ReflTransGen (EdgesLead o.edges) o.startNode id) ∧
      o.startNode ∈ o.nodeIds ∧
      (∀ id ∈ o.nodeIds, (¬ ∃ edge ∈ o.edges, edge.target = id) ↔ id = o.startNode) ∧
      ∀ p : Project, p.orchestration = o →
        (p.Unwritable → ∃ fault, p.compilation = .unwritable fault) ∧
        (¬ p.Unwritable → ∃ s, p.compilation = .done s ∧
          (∀ agent ∈ s.agents, agent.next.Pairwise (· < ·)) ∧
          ∀ q, p.Rearranged q → ∃ t, q.compilation = .done t ∧ t.canonical = s.canonical ∧
            t.canonical? = s.canonical?) := by
  have clean : o.Clean := clean_iff.mpr ⟨faultless, unremarked⟩
  refine ⟨clean.agents, clean.outputs, clean.nodes, clean.edges, clean.reached, clean.sound.start,
    ?_, ?_⟩
  · intro id declared
    rw [clean.entered_iff declared, not_not]
  · rintro p rfl
    refine ⟨fun unwritable =>
      Project.exists_compilation_eq_unwritable_iff.mpr ⟨clean.sound, unwritable⟩, ?_⟩
    intro fits
    refine ⟨p.build, Project.compilation_of_sound clean.sound fits, ?_, ?_⟩
    · intro agent listed
      obtain ⟨other, -, rfl⟩ := Project.mem_build_agents.mp listed
      exact targetsOf_pairwise_lt clean.edges other.id
    · intro q rearranged
      exact ⟨q.build, Project.canonical_rearranged_of_clean clean fits rearranged⟩

/-- An agent that goes on to a tool with nested lists and to another agent. -/
def wiredProject (depth : Nat) : Project :=
  { nestedProject [depth] with
    orchestration :=
      { (nestedProject [depth]).orchestration with
        agents := [⟨"a", "A", "Go", ["t"], none, none⟩, ⟨"b", "B", "Check", [], none, none⟩]
        edges := [⟨"1", "a", "t", none, none⟩, ⟨"2", "a", "b", none, none⟩]
        outputs := ["b"] } }

theorem nodeIds_wiredProject (depth : Nat) :
    (wiredProject depth).orchestration.nodeIds = ["a", "b", "t"] := rfl

theorem edges_wiredProject (depth : Nat) : (wiredProject depth).orchestration.edges =
    [⟨"1", "a", "t", none, none⟩, ⟨"2", "a", "b", none, none⟩] := rfl

theorem wiredProject_sound (depth : Nat) : (wiredProject depth).orchestration.Sound where
  start := by
    rw [Orchestration.StartDeclared, nodeIds_wiredProject]
    exact List.mem_cons_self
  tools := by
    simp [Orchestration.ToolsDeclared, Orchestration.toolIds, wiredProject, nestedProject,
      nestedTool]
  edges := by
    rw [Orchestration.EdgesDeclared, nodeIds_wiredProject, edges_wiredProject]
    decide
  acyclic := by
    apply Orchestration.acyclic_of_rank ["a", "b", "t"].idxOf
    rw [edges_wiredProject]
    decide
  outputs := by
    rw [Orchestration.OutputsDeclared, nodeIds_wiredProject]
    simp [wiredProject]

theorem wiredProject_clean (depth : Nat) : (wiredProject depth).orchestration.Clean where
  sound := wiredProject_sound depth
  agents := List.cons_ne_nil _ _
  outputs := List.cons_ne_nil _ _
  nodes := by
    rw [nodeIds_wiredProject]
    decide
  edges := by
    rw [edges_wiredProject]
    decide
  reached := by
    rw [nodeIds_wiredProject, edges_wiredProject]
    have tool : EdgesLead [⟨"1", "a", "t", none, none⟩, ⟨"2", "a", "b", none, none⟩] "a" "t" :=
      ⟨_, List.mem_cons_self, rfl, rfl⟩
    have agent : EdgesLead [⟨"1", "a", "t", none, none⟩, ⟨"2", "a", "b", none, none⟩] "a" "b" :=
      ⟨_, List.mem_cons_of_mem _ List.mem_cons_self, rfl, rfl⟩
    intro id declared
    simp only [List.mem_cons, List.not_mem_nil, or_false] at declared
    rcases declared with rfl | rfl | rfl
    · exact .refl
    · exact .single agent
    · exact .single tool

theorem wiredProject_unwritable_iff (depth : Nat) :
    (wiredProject depth).Unwritable ↔ 255 ≤ depth := by
  rw [← nestedProject_unwritable_iff [] depth]
  -- The other agent refers to no tool.
  simp [Project.Unwritable, wiredProject, nestedProject, Orchestration.tool?, Agent.toValue]

theorem wiredProject_validated (depth : Nat) : (wiredProject depth).Validated := by
  refine ⟨(wiredProject depth).toValue .wire, ?_, ?_⟩
  · simp [wiredProject, nestedProject, Project.toValue, Orchestration.toValue, Agent.toValue,
      Edge.toValue, nestedTool, Tool.toValue, Labelled.toValue, Form.wire_record, Form.setFields,
      listValue, Value.texts, Value.plain, Value.plainEntries, plain_nestedList,
      keysDistinct_nestedList]
  · have tools : Value.listOf? Tool.ofValue?
        (listValue (Tool.toValue .wire) [nestedTool depth]) = some [nestedTool depth] :=
      mapM_nestedTool [depth]
    have graph : Orchestration.ofValue? ((wiredProject depth).orchestration.toValue .wire) =
        (Value.listOf? Tool.ofValue? (listValue (Tool.toValue .wire) [nestedTool depth])).bind
          fun tools => some { (wiredProject depth).orchestration with tools } := rfl
    have read : Project.ofValue? ((wiredProject depth).toValue .wire) =
        (Orchestration.ofValue? ((wiredProject depth).orchestration.toValue .wire)).bind
          fun orchestration => some { wiredProject depth with orchestration } := rfl
    rw [Project.read, readAs, read, graph, tools]
    rfl

theorem Orchestration.clear_lint_guarantees_wired :
    (wiredProject 1).orchestration.lint.faults = [] ∧
      (wiredProject 1).orchestration.lint.findings = [] ∧
      ∃ s t, (wiredProject 1).compilation = .done s ∧
        (∀ agent ∈ s.agents, agent.next.Pairwise (· < ·)) ∧
        (wiredProject 1).reversed.compilation = .done t ∧ t.canonical = s.canonical ∧
        t.canonical? = s.canonical? := by
  obtain ⟨faultless, unremarked⟩ := clean_iff.mp (wiredProject_clean 1)
  have fits : ¬ (wiredProject 1).Unwritable := by
    rw [wiredProject_unwritable_iff]
    decide
  obtain ⟨-, -, -, -, -, -, -, projects⟩ := clear_lint_guarantees faultless unremarked
  obtain ⟨s, done, ascending, rearranged⟩ := (projects (wiredProject 1) rfl).2 fits
  obtain ⟨t, done', same⟩ := rearranged _ (wiredProject 1).rearranged_reversed
  exact ⟨faultless, unremarked, s, t, done, ascending, done', same⟩

/-- A clear verdict does not promise a service: a tool in use may be too deep to be written out. -/
theorem clear_lint_not_done : (wiredProject 255).Validated ∧
    (wiredProject 255).orchestration.lint.faults = [] ∧
    (wiredProject 255).orchestration.lint.findings = [] ∧
    ¬ ∃ s, (wiredProject 255).compilation = .done s := by
  obtain ⟨faultless, unremarked⟩ := Orchestration.clean_iff.mp (wiredProject_clean 255)
  refine ⟨wiredProject_validated 255, faultless, unremarked, ?_⟩
  intro made
  obtain ⟨s, done⟩ := made
  have unwritable := (wiredProject_unwritable_iff 255).mpr (Nat.le_refl 255)
  exact (Project.compilation_eq_done_iff.mp done).2.1 unwritable

end Workflow
