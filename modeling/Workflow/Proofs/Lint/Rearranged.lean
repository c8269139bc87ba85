import Workflow.Proofs.Graph.Representation
import Workflow.Proofs.Service.Rearranged

/-!
What the checks tell of orchestrations whose declarations stand in another order. The graph is the
same, so are the cycle that is found and the nodes that are missed; the faults of the other passes
only change their order, and of the edges with the same ends only the first one is not pointed out,
whichever that is. Main statement: rearranged orchestrations are diagnosed alike, and if one of them
is refused so is the other, for a fault of the same pass.
-/

namespace Workflow

/-- The ends of an edge that has them in common with an edge before it. -/
def Finding.repeatedEnds? : Finding → Option (String × String)
  | .duplicateEdge _ source target => some (source, target)
  | _ => none

namespace Orchestration

variable {o o' : Orchestration}

/-! ## Repeated edges -/

/-- All edges with the same ends are repeated, but for the first one where none was seen before. -/
theorem count_repeatedEdges (ends : String × String) (edges : List Edge)
    (seen : List (String × String)) :
    ((repeatedEdges seen edges).map Edge.ends).count ends =
      (edges.map Edge.ends).count ends - if ends ∈ seen then 0 else 1 := by
  induction edges generalizing seen with
  | nil => simp [repeatedEdges]
  | cons edge edges ih =>
      rw [repeatedEdges, List.map_cons, List.count_cons]
      by_cases same : edge.ends = ends
      · subst same
        by_cases before : edge.ends ∈ seen <;> simp [before, ih]
      · have other : ends ∈ edge.ends :: seen ↔ ends ∈ seen := by simp [Ne.symm same]
        by_cases before : edge.ends ∈ seen <;> simp [before, ih, same, other]

theorem repeatedEdges_perm {edges others : List Edge} (perm : edges.Perm others) :
    ((repeatedEdges [] edges).map Edge.ends).Perm ((repeatedEdges [] others).map Edge.ends) := by
  apply List.perm_iff_count.mpr
  intro ends
  rw [count_repeatedEdges, count_repeatedEdges, (perm.map Edge.ends).count_eq]

theorem repeatedEnds_checkEdges (o : Orchestration) :
    o.checkEdges.findings.filterMap Finding.repeatedEnds? =
      (repeatedEdges [] o.edges).map Edge.ends := by
  simp [checkEdges, List.filterMap_map, Finding.repeatedEnds?, Function.comp_def, Edge.ends]

theorem repeatedIds_checkEdges (o : Orchestration) :
    o.checkEdges.findings.filter (·.code = .duplicateNodeId) =
      ((ascendingSet o.nodeIds).filter fun id => 1 < o.nodeIds.count id).map fun id =>
        .duplicateId id (o.nodeIds.count id) := by
  simp [checkEdges, List.filter_map, Finding.code, Function.comp_def]

/-! ## Single checks -/

namespace Rearranged

theorem graph (rearranged : o.Rearranged o') : o.graph = o'.graph :=
  Graph.ofEdges_eq_of_perm (fun _ => rearranged.mem_nodeIds_iff) (rearranged.edges.map Edge.ends)

theorem ascendingSet_nodeIds (rearranged : o.Rearranged o') :
    ascendingSet o.nodeIds = ascendingSet o'.nodeIds :=
  ascendingSet_eq_of_mem_iff fun _ => rearranged.mem_nodeIds_iff

theorem checkReachability (rearranged : o.Rearranged o') :
    o.checkReachability = o'.checkReachability := by
  have agents : o.agents.isEmpty = o'.agents.isEmpty := by
    simpa [Orchestration.agentIds] using rearranged.agentIds.isEmpty_eq
  simp only [Orchestration.checkReachability, agents, rearranged.start, rearranged.graph,
    rearranged.ascendingSet_nodeIds, rearranged.mem_nodeIds_iff]

theorem checkAcyclic (rearranged : o.Rearranged o') : o.checkAcyclic = o'.checkAcyclic := by
  rw [Orchestration.checkAcyclic, Orchestration.checkAcyclic, rearranged.graph]

theorem checkTools_faults (rearranged : o.Rearranged o') :
    o.checkTools.faults.Perm o'.checkTools.faults := by
  obtain ⟨middle, perm, paired⟩ := rearranged.agents
  have declared : (fun id => !o.toolIds.contains id) = fun id => !o'.toolIds.contains id := by
    funext id
    rw [rearranged.toolIds.contains_eq]
  refine (perm.flatMap_right _).trans (flatMap_perm_of_forall₂ paired ?_)
  intro agent agent' same
  rw [declared, same.id]
  exact (same.tools.filter _).map _

theorem checkEdges_faults (rearranged : o.Rearranged o') :
    o.checkEdges.faults.Perm o'.checkEdges.faults := by
  have same : edgeFaults o.nodeIds = edgeFaults o'.nodeIds := by
    funext edge
    simp only [edgeFaults, rearranged.mem_nodeIds_iff]
  rw [Orchestration.checkEdges, Orchestration.checkEdges, same]
  exact rearranged.edges.flatMap_right _

theorem checkOutputs_faults (rearranged : o.Rearranged o') :
    o.checkOutputs.faults.Perm o'.checkOutputs.faults := by
  have declared : (fun id => !o.nodeIds.contains id) = fun id => !o'.nodeIds.contains id := by
    funext id
    rw [rearranged.nodeIds.contains_eq]
  rw [Orchestration.checkOutputs, Orchestration.checkOutputs, declared]
  exact (rearranged.outputs.filter _).map _

theorem checkOutputs_findings (rearranged : o.Rearranged o') :
    o.checkOutputs.findings = o'.checkOutputs.findings := by
  rw [Orchestration.checkOutputs, Orchestration.checkOutputs, rearranged.outputs.isEmpty_eq]

theorem faults_perm (rearranged : o.Rearranged o') :
    ∀ pass ∈ passes, (pass o).faults.Perm (pass o').faults := by
  have reachability := List.Perm.of_eq (congrArg Verdict.faults rearranged.checkReachability)
  have acyclic := List.Perm.of_eq (congrArg Verdict.faults rearranged.checkAcyclic)
  exact forall_mem_passes.mpr ⟨reachability, rearranged.checkTools_faults,
    rearranged.checkEdges_faults, acyclic, rearranged.checkOutputs_faults⟩

end Rearranged

/-! ## All checks -/

/-- The pass is the first one that finds a fault, and the fault is the first one that it finds. -/
def SuppliedBy (o : Orchestration) (pass : Orchestration → Verdict) (fault : Fault) : Prop :=
  IsFirst (fun pass => (pass o).faults ≠ []) passes pass ∧ (pass o).faults.head? = some fault

theorem lint_faults_eq_flatMap (o : Orchestration) :
    o.lint.faults = passes.flatMap fun pass => (pass o).faults := by
  simp [lint_faults, passes]

theorem head?_lint_faults_iff {fault : Fault} :
    o.lint.faults.head? = some fault ↔ ∃ pass, o.SuppliedBy pass fault := by
  rw [lint_faults_eq_flatMap, List.head?_flatMap]
  constructor
  · intro found
    obtain ⟨pass, first, head⟩ :=
      isFirst_of_findSome? (fun pass => (pass o).faults ≠ []) (by simp) found
    exact ⟨pass, first, head⟩
  · intro supplied
    rcases supplied with ⟨pass, ⟨before, after, split, -, clear⟩, head⟩
    apply List.findSome?_eq_some_iff.mpr
    refine ⟨before, pass, after, split, head, ?_⟩
    intro earlier listed
    rw [List.head?_eq_none_iff]
    exact not_not.mp (clear earlier listed)

theorem Rearranged.suppliedBy (rearranged : o.Rearranged o') {pass : Orchestration → Verdict}
    {fault : Fault} (supplied : o.SuppliedBy pass fault) :
    ∃ fault', o'.SuppliedBy pass fault' := by
  rcases supplied with ⟨⟨before, after, split, faulty, clear⟩, -⟩
  have alike (other : Orchestration → Verdict) (listed : other ∈ passes) :
      (other o).faults = [] ↔ (other o').faults = [] := by
    rw [← List.isEmpty_iff, ← List.isEmpty_iff, (rearranged.faults_perm other listed).isEmpty_eq]
  have listed : pass ∈ passes := by
    rw [split]
    exact List.mem_append_right before List.mem_cons_self
  have faulty' := mt (alike pass listed).mpr faulty
  obtain ⟨fault', rest, first⟩ := List.exists_cons_of_ne_nil faulty'
  refine ⟨fault', ⟨before, after, split, faulty', ?_⟩, by rw [first, List.head?_cons]⟩
  intro earlier member found
  have listed' : earlier ∈ passes := by
    rw [split]
    exact List.mem_append_left _ member
  exact clear earlier member (mt (alike earlier listed').mp found)

/-- The same is told of both orchestrations, though not in the same order. -/
structure DiagnosedAlike (o o' : Orchestration) : Prop where
  reachability : o.checkReachability = o'.checkReachability
  acyclic : o.checkAcyclic = o'.checkAcyclic
  tools : o.checkTools.faults.Perm o'.checkTools.faults
  edges : o.checkEdges.faults.Perm o'.checkEdges.faults
  outputs : o.checkOutputs.faults.Perm o'.checkOutputs.faults
  noOutputs : o.checkOutputs.findings = o'.checkOutputs.findings
  repeatedIds : o.checkEdges.findings.filter (·.code = .duplicateNodeId) =
    o'.checkEdges.findings.filter (·.code = .duplicateNodeId)
  repeatedEdges : (o.checkEdges.findings.filterMap Finding.repeatedEnds?).Perm
    (o'.checkEdges.findings.filterMap Finding.repeatedEnds?)
  valid : o.lint.isValid = o'.lint.isValid

theorem Rearranged.diagnosedAlike (rearranged : o.Rearranged o') : o.DiagnosedAlike o' where
  reachability := rearranged.checkReachability
  acyclic := rearranged.checkAcyclic
  tools := rearranged.checkTools_faults
  edges := rearranged.checkEdges_faults
  outputs := rearranged.checkOutputs_faults
  noOutputs := rearranged.checkOutputs_findings
  repeatedIds := by
    rw [repeatedIds_checkEdges, repeatedIds_checkEdges, rearranged.ascendingSet_nodeIds]
    simp only [rearranged.nodeIds.count_eq]
  repeatedEdges := by
    rw [repeatedEnds_checkEdges, repeatedEnds_checkEdges]
    exact repeatedEdges_perm rearranged.edges
  valid := by
    have perm : o.lint.faults.Perm o'.lint.faults := by
      rw [lint_faults_eq_flatMap, lint_faults_eq_flatMap]
      exact List.Perm.flatMap_left passes rearranged.faults_perm
    exact perm.isEmpty_eq

/-- The order of declarations is not seen in what the checks tell, but for the order in which they
tell it and the edges that stand for those with the same ends; and where a project is refused, it is
so for a fault of the same pass. -/
theorem rearranged_diagnosedAlike (rearranged : o.Rearranged o') :
    o.DiagnosedAlike o' ∧
      ∀ p q : Project, p.orchestration = o → q.orchestration = o' →
        ∀ fault, p.compilation = .refused fault →
          ∃ pass fault', o.SuppliedBy pass fault ∧ q.compilation = .refused fault' ∧
            o'.SuppliedBy pass fault' := by
  refine ⟨rearranged.diagnosedAlike, ?_⟩
  rintro p q rfl rfl fault refused
  rw [Project.compilation_eq_refused_iff, head?_lint_faults_iff] at refused
  rcases refused with ⟨pass, supplied⟩
  obtain ⟨fault', supplied'⟩ := rearranged.suppliedBy supplied
  refine ⟨pass, fault', supplied, ?_, supplied'⟩
  rw [Project.compilation_eq_refused_iff, head?_lint_faults_iff]
  exact ⟨pass, supplied'⟩

/-- Two agents with one id, of which the second one leads back to the first, twice; and tools and an
output that are not declared. -/
def tangledProject : Project :=
  { id := "p", name := "Tangled", version := "1", description := none, evaluations := none,
    metadata := none
    orchestration :=
      { id := "o", name := "O", startNode := "writer", outputs := ["report", "checker"]
        agents := [⟨"checker", "C", "Check", [], none, none⟩,
          ⟨"writer", "W", "Write", ["search", "browse", "index"], none, none⟩,
          ⟨"checker", "D", "Check twice", ["index"], none, none⟩]
        tools := [⟨"search", "S", .rest, [], none⟩]
        gates := [⟨"approval", .approval, none, none, none⟩]
        edges := [⟨"1", "writer", "checker", none, none⟩, ⟨"2", "checker", "writer", none, none⟩,
          ⟨"3", "checker", "writer", none, none⟩] } }

/-- The order decides which of the tools that are missing is named. -/
theorem rearranged_diagnosedAlike_tangled :
    tangledProject.orchestration.DiagnosedAlike tangledProject.reversed.orchestration ∧
      tangledProject.compilation = .refused (.toolMissing "writer" "browse") ∧
      ∃ pass fault, tangledProject.orchestration.SuppliedBy pass (.toolMissing "writer" "browse") ∧
        tangledProject.reversed.compilation = .refused fault ∧
        tangledProject.reversed.orchestration.SuppliedBy pass fault := by
  have told := rearranged_diagnosedAlike tangledProject.rearranged_reversed.orchestration
  have refused : tangledProject.compilation = .refused (.toolMissing "writer" "browse") := by
    rw [Project.compilation_eq_refused_iff, lint_faults]
    decide
  exact ⟨told.1, refused, told.2 _ _ rfl rfl _ refused⟩

end Orchestration

end Workflow
