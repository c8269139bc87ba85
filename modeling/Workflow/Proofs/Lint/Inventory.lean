import Mathlib.Data.Finset.Card
import Workflow.Proofs.Lint.Clean
import Workflow.Proofs.Lint.Searches

/-!
What the checks list, item by item. An id that is referred to and not declared is found fault with
once for each reference, an edge is pointed out if an edge before it has the same ends, and an id
that is declared more than once is pointed out once, with how often it is. Main statement: the
verdict on an orchestration lists all this and nothing else of the kind, and the items of one kind
stand together, in the order of the passes.
-/

namespace Workflow

/-! ## Blocks -/

section

variable {α κ : Type} [DecidableEq κ] {key : α → κ} {groups : List (List κ)}
  {blocks : List (List α)}

theorem filter_eq_nil_of_keys {group : List κ} {items : List α}
    (clear : ∀ item ∈ items, key item ∉ group) : items.filter (key · ∈ group) = [] := by
  rw [List.filter_eq_nil_iff]
  intro item listed
  simpa using clear item listed

theorem filter_eq_self_of_keys {group : List κ} {items : List α}
    (keys : ∀ item ∈ items, key item ∈ group) : items.filter (key · ∈ group) = items := by
  rw [List.filter_eq_self]
  intro item listed
  exact decide_eq_true (keys item listed)

/-- By induction on the blocks, with the items that stand before them. -/
theorem forall₂_filter_flatten (before : List α)
    (keyed : List.Forall₂ (fun group block => ∀ item ∈ block, key item ∈ group) groups blocks)
    (apart : groups.Pairwise fun group other => ∀ k ∈ group, k ∉ other)
    (clear : ∀ group ∈ groups, ∀ item ∈ before, key item ∉ group) :
    List.Forall₂ (fun group block => (before ++ blocks.flatten).filter (key · ∈ group) = block)
      groups blocks := by
  induction keyed generalizing before with
  | nil => exact .nil
  | @cons group block groups blocks own others ih =>
      obtain ⟨first, apart⟩ := List.pairwise_cons.mp apart
      obtain ⟨clearFirst, clear⟩ := List.forall_mem_cons.mp clear
      constructor
      · have later : ∀ item ∈ blocks.flatten, key item ∉ group := by
          intro item listed member
          obtain ⟨block, listedBlock, inside⟩ := List.mem_flatten.mp listed
          obtain ⟨other, listedGroup, keys⟩ := exists_left_of_forall₂ others listedBlock
          exact first other listedGroup _ member (keys item inside)
        rw [List.flatten_cons, List.filter_append, List.filter_append,
          filter_eq_nil_of_keys clearFirst, filter_eq_self_of_keys own,
          filter_eq_nil_of_keys later, List.nil_append, List.append_nil]
      · rw [List.flatten_cons, ← List.append_assoc]
        apply ih _ apart
        intro other listedGroup item listed
        rcases List.mem_append.mp listed with old | new
        · exact clear other listedGroup item old
        · exact first other listedGroup _ (own item new)

/-- Where the keys of each block are from a group that shares none with the others, the block is
what the whole list has with a key from the group. -/
theorem blocks_of_keyed {items : List α} (joined : blocks.flatten = items)
    (keyed : List.Forall₂ (fun group block => ∀ item ∈ block, key item ∈ group) groups blocks)
    (apart : groups.Pairwise fun group other => ∀ k ∈ group, k ∉ other) :
    groups.map (fun group => items.filter (key · ∈ group)) = blocks := by
  have filtered := forall₂_filter_flatten [] keyed apart (by simp)
  rw [List.nil_append, joined] at filtered
  rw [← List.forall₂_eq_eq_eq]
  exact List.forall₂_map_left_iff.mpr filtered

end

/-- The faults with one of some codes. -/
def Verdict.faultsOf (v : Verdict) (codes : List ErrorCode) : List Fault :=
  v.faults.filter (·.code ∈ codes)

/-- The findings with one of some codes. -/
def Verdict.findingsOf (v : Verdict) (codes : List WarningCode) : List Finding :=
  v.findings.filter (·.code ∈ codes)

/-! ## Undeclared ids -/

/-- An id that is referred to, and the fault to be found where the id is not declared. -/
structure Reference where
  id : String
  fault : Fault

/-- The faults of the references to ids that are not declared. -/
def undeclared (declared : List String) (references : List Reference) : List Fault :=
  (references.filter (·.id ∉ declared)).map Reference.fault

theorem mem_undeclared {declared : List String} {references : List Reference} {fault : Fault} :
    fault ∈ undeclared declared references ↔
      ∃ reference ∈ references, reference.id ∉ declared ∧ reference.fault = fault := by
  simp [undeclared, and_assoc]

namespace Orchestration

variable {o : Orchestration}

/-- The tools that agents refer to, agent by agent. -/
def toolReferences (o : Orchestration) : List Reference :=
  o.agents.flatMap fun agent => agent.tools.map fun tool => ⟨tool, .toolMissing agent.id tool⟩

/-- The ends of the edges, edge by edge, with the source before the target. -/
def endReferences (o : Orchestration) : List Reference :=
  o.edges.flatMap fun edge => [⟨edge.source, .sourceMissing edge.id edge.source⟩,
    ⟨edge.target, .targetMissing edge.id edge.target⟩]

def outputReferences (o : Orchestration) : List Reference :=
  o.outputs.map fun output => ⟨output, .outputMissing output⟩

theorem checkTools_faults_eq (o : Orchestration) :
    o.checkTools.faults = undeclared o.toolIds o.toolReferences := by
  rw [undeclared, toolReferences, List.filter_flatMap, List.map_flatMap]
  simp [checkTools, List.filter_map, Function.comp_def]

theorem edgeFaults_eq (declared : List String) (edge : Edge) : edgeFaults declared edge =
    undeclared declared [⟨edge.source, .sourceMissing edge.id edge.source⟩,
      ⟨edge.target, .targetMissing edge.id edge.target⟩] := by
  by_cases source : edge.source ∈ declared <;> by_cases target : edge.target ∈ declared <;>
    simp [edgeFaults, undeclared, source, target]

theorem checkEdges_faults_eq (o : Orchestration) :
    o.checkEdges.faults = undeclared o.nodeIds o.endReferences := by
  rw [undeclared, endReferences, List.filter_flatMap, List.map_flatMap]
  exact congrArg o.edges.flatMap (funext (edgeFaults_eq o.nodeIds))

theorem checkOutputs_faults_eq (o : Orchestration) :
    o.checkOutputs.faults = undeclared o.nodeIds o.outputReferences := by
  simp [checkOutputs, undeclared, outputReferences, List.filter_map, Function.comp_def]

/-! ## Repeated edges -/

/-- The edge at this place has its ends in common with an edge before it, or they were seen. -/
def RepeatedAt (seen : List (String × String)) (edges : List Edge) (i : Fin edges.length) : Prop :=
  edges[i].ends ∈ seen ∨ ∃ j < i, edges[j].ends = edges[i].ends

instance (seen : List (String × String)) (edges : List Edge) (i : Fin edges.length) :
    Decidable (RepeatedAt seen edges i) :=
  inferInstanceAs (Decidable (_ ∨ _))

theorem repeatedAt_zero {seen : List (String × String)} {edge : Edge} {edges : List Edge} :
    RepeatedAt seen (edge :: edges) 0 ↔ edge.ends ∈ seen := by
  simp [RepeatedAt]

theorem repeatedAt_succ {seen : List (String × String)} {edge : Edge} {edges : List Edge}
    {i : Fin edges.length} :
    RepeatedAt seen (edge :: edges) i.succ ↔ RepeatedAt (edge.ends :: seen) edges i := by
  simp [RepeatedAt, Fin.exists_fin_succ, or_assoc, or_left_comm, eq_comm]

theorem repeatedAt_seen {seen : List (String × String)} {edge : Edge} {edges : List Edge}
    (before : edge.ends ∈ seen) {i : Fin edges.length} :
    RepeatedAt (edge.ends :: seen) edges i ↔ RepeatedAt seen edges i := by
  have same : edges[i].ends ∈ edge.ends :: seen ↔ edges[i].ends ∈ seen := by
    rw [List.mem_cons, or_iff_right_iff_imp]
    exact fun equal => equal ▸ before
  exact or_congr_left same

/-- The ends that were seen grow along the edges, and a pair that is seen once more makes no
difference. -/
theorem repeatedEdges_eq (edges : List Edge) (seen : List (String × String)) :
    repeatedEdges seen edges =
      ((List.finRange edges.length).filter (RepeatedAt seen edges ·)).map (edges[·]) := by
  induction edges generalizing seen with
  | nil => rfl
  | cons edge edges ih =>
      have places : List.finRange (edge :: edges).length =
          0 :: (List.finRange edges.length).map Fin.succ := List.finRange_succ
      have later : (((List.finRange edges.length).map Fin.succ).filter
          (RepeatedAt seen (edge :: edges) ·)).map ((edge :: edges)[·]) =
            repeatedEdges (edge.ends :: seen) edges := by
        rw [List.filter_map, List.map_map, ih]
        congr 1
        apply List.filter_congr
        intro i _
        exact decide_eq_decide.mpr repeatedAt_succ
      rw [repeatedEdges, places, List.filter_cons]
      simp only [decide_eq_true_eq, repeatedAt_zero]
      by_cases before : edge.ends ∈ seen
      · have same : repeatedEdges (edge.ends :: seen) edges = repeatedEdges seen edges := by
          rw [ih, ih]
          simp only [repeatedAt_seen before]
        rw [if_pos before, if_pos before, List.map_cons, later, same]
        rfl
      · rw [if_neg before, if_neg before, later]

/-- An edge is either repeated or the first one with ends that were not seen before. -/
theorem length_repeatedEdges (edges : List Edge) (seen : List (String × String)) :
    (repeatedEdges seen edges).length +
      ((edges.map Edge.ends).toFinset \ seen.toFinset).card = edges.length := by
  induction edges generalizing seen with
  | nil => simp [repeatedEdges]
  | cons edge edges ih =>
      rw [repeatedEdges, List.map_cons, List.toFinset_cons, List.length_cons]
      by_cases before : edge.ends ∈ seen
      · rw [if_pos before, Finset.insert_sdiff_of_mem _ (List.mem_toFinset.mpr before),
          List.length_cons, ← ih seen]
        omega
      · rw [if_neg before, Finset.insert_sdiff_of_notMem _ (mt List.mem_toFinset.mp before),
          ← ih (edge.ends :: seen), List.toFinset_cons, Finset.sdiff_insert]
        have first := Finset.card_erase_add_one (Finset.mem_insert_self edge.ends
          ((edges.map Edge.ends).toFinset \ seen.toFinset))
        rw [Finset.erase_insert_eq_erase] at first
        omega

theorem length_repeatedEdges_add_card (o : Orchestration) :
    (repeatedEdges [] o.edges).length + (o.edges.map Edge.ends).toFinset.card =
      o.edges.length := by
  simpa using length_repeatedEdges o.edges []

/-- The places of the edges that have their ends in common with an edge before them. -/
def repeatedPlaces (edges : List Edge) : List (Fin edges.length) :=
  (List.finRange edges.length).filter fun i => ∃ j < i, edges[j].ends = edges[i].ends

theorem repeatedEdges_eq_map (edges : List Edge) :
    repeatedEdges [] edges = (repeatedPlaces edges).map (edges[·]) := by
  rw [repeatedEdges_eq, repeatedPlaces]
  congr 1
  apply List.filter_congr
  intro i _
  simp [RepeatedAt]

example : repeatedPlaces [⟨"1", "a", "b", none, none⟩, ⟨"2", "b", "a", none, none⟩,
    ⟨"3", "a", "b", none, none⟩, ⟨"1", "a", "b", none, none⟩] = [2, 3] := by
  decide

/-! ## Faults -/

/-- The codes of the faults of each pass. -/
def faultGroups : List (List ErrorCode) :=
  [[.invalidStartNode], [.missingTool], [.invalidEdgeSource, .invalidEdgeTarget],
    [.cycleDetected], [.invalidOutputNode]]

theorem keyed_faults (o : Orchestration) :
    List.Forall₂ (fun group block => ∀ fault ∈ block, Fault.code fault ∈ group) faultGroups
      [o.checkReachability.faults, undeclared o.toolIds o.toolReferences,
        undeclared o.nodeIds o.endReferences, o.checkAcyclic.faults,
        undeclared o.nodeIds o.outputReferences] := by
  refine .cons ?reachability (.cons ?tools (.cons ?edges (.cons ?acyclic (.cons ?outputs .nil))))
  case reachability =>
    intro fault listed
    by_cases start : o.StartDeclared
    · rw [checkReachability_faults_eq_nil_iff.mpr start] at listed
      cases listed
    · rw [checkReachability_faults_eq_iff.mpr start, List.mem_singleton] at listed
      exact listed ▸ List.mem_singleton_self _
  case tools =>
    intro fault listed
    obtain ⟨reference, member, -, rfl⟩ := mem_undeclared.mp listed
    obtain ⟨agent, -, named⟩ := List.mem_flatMap.mp member
    obtain ⟨tool, -, rfl⟩ := List.mem_map.mp named
    exact List.mem_singleton_self _
  case edges =>
    intro fault listed
    obtain ⟨reference, member, -, rfl⟩ := mem_undeclared.mp listed
    obtain ⟨edge, -, named⟩ := List.mem_flatMap.mp member
    rcases List.mem_pair.mp named with rfl | rfl
    · exact List.mem_cons_self
    · exact List.mem_cons_of_mem _ List.mem_cons_self
  case acyclic =>
    intro fault listed
    obtain ⟨path, -, rfl, -⟩ := isCycle_of_checkAcyclic listed
    exact List.mem_singleton_self _
  case outputs =>
    intro fault listed
    obtain ⟨reference, member, -, rfl⟩ := mem_undeclared.mp listed
    obtain ⟨output, -, rfl⟩ := List.mem_map.mp member
    exact List.mem_singleton_self _

theorem flatten_faults (o : Orchestration) : List.flatten
    [o.checkReachability.faults, undeclared o.toolIds o.toolReferences,
      undeclared o.nodeIds o.endReferences, o.checkAcyclic.faults,
      undeclared o.nodeIds o.outputReferences] = o.lint.faults := by
  rw [lint_faults, checkTools_faults_eq, checkEdges_faults_eq, checkOutputs_faults_eq]
  simp only [List.flatten_cons, List.flatten_nil, List.append_nil]

theorem lint_faultsOf (o : Orchestration) : faultGroups.map o.lint.faultsOf =
    [o.checkReachability.faults, undeclared o.toolIds o.toolReferences,
      undeclared o.nodeIds o.endReferences, o.checkAcyclic.faults,
      undeclared o.nodeIds o.outputReferences] :=
  blocks_of_keyed o.flatten_faults o.keyed_faults (by decide)

/-! ## Findings -/

def findingGroups : List (List WarningCode) :=
  [[.noAgents], [.unreachableNode], [.duplicateEdge], [.duplicateNodeId], [.noOutputs]]

/-- What is pointed out of an orchestration of which `missed` are not reached. -/
def findingBlocks (o : Orchestration) (missed : List String) : List (List Finding) :=
  [if o.agents.isEmpty then [.noAgents] else [], missed.map .unreachable,
    (repeatedEdges [] o.edges).map fun e => .duplicateEdge e.id e.source e.target,
    ((ascendingSet o.nodeIds).filter fun id => 1 < o.nodeIds.count id).map fun id =>
      .duplicateId id (o.nodeIds.count id),
    if o.outputs.isEmpty then [.noOutputs] else []]

theorem flatten_findings {missed : List String} (reachability : o.checkReachability.findings =
      (if o.agents.isEmpty then [.noAgents] else []) ++ missed.map .unreachable) :
    (o.findingBlocks missed).flatten = o.lint.findings := by
  rw [lint_findings, reachability, findingBlocks, checkEdges, checkOutputs]
  simp only [List.flatten_cons, List.flatten_nil, List.append_nil, List.append_assoc]

theorem keyed_findings (o : Orchestration) (missed : List String) :
    List.Forall₂ (fun group block => ∀ finding ∈ block, Finding.code finding ∈ group)
      findingGroups (o.findingBlocks missed) := by
  have keyed {α : Type} {items : List α} {cause : α → Finding} {code : WarningCode}
      (codes : ∀ item, (cause item).code = code) :
      ∀ finding ∈ items.map cause, finding.code ∈ [code] := by
    intro finding listed
    obtain ⟨item, -, rfl⟩ := List.mem_map.mp listed
    exact List.mem_singleton.mpr (codes item)
  refine .cons ?agents (.cons (keyed fun _ => rfl) (.cons (keyed fun _ => rfl)
    (.cons (keyed fun _ => rfl) (.cons ?outputs .nil))))
  case agents => split <;> simp [Finding.code]
  case outputs => split <;> simp [Finding.code]

theorem lint_findingsOf {missed : List String} (reachability : o.checkReachability.findings =
      (if o.agents.isEmpty then [.noAgents] else []) ++ missed.map .unreachable) :
    findingGroups.map o.lint.findingsOf = o.findingBlocks missed :=
  blocks_of_keyed (flatten_findings reachability) (o.keyed_findings missed) (by decide)

theorem exists_unreachable (o : Orchestration) : ∃ missed : List String,
    o.checkReachability.findings =
      (if o.agents.isEmpty then [.noAgents] else []) ++ missed.map .unreachable := by
  simp only [checkReachability]
  split
  · exact ⟨_, rfl⟩
  · exact ⟨[], (List.append_nil _).symm⟩

/-! ## The verdict -/

/-- The verdict on an orchestration names each reference to an undeclared id and each repetition, kind
by kind. -/
structure Itemized (o : Orchestration) : Prop where
  faults : o.lint.faults = faultGroups.flatMap o.lint.faultsOf
  findings : o.lint.findings = findingGroups.flatMap o.lint.findingsOf
  tools : o.lint.faultsOf [.missingTool] = undeclared o.toolIds o.toolReferences
  ends : o.lint.faultsOf [.invalidEdgeSource, .invalidEdgeTarget] =
    undeclared o.nodeIds o.endReferences
  outputs : o.lint.faultsOf [.invalidOutputNode] = undeclared o.nodeIds o.outputReferences
  repeatedEdges : o.lint.findingsOf [.duplicateEdge] = (repeatedPlaces o.edges).map fun i =>
    .duplicateEdge o.edges[i].id o.edges[i].source o.edges[i].target
  repeatedEdgesNumber : (o.lint.findingsOf [.duplicateEdge]).length =
    o.edges.length - (o.edges.map Edge.ends).toFinset.card
  repeatedIds : ∃ ids : List String, o.lint.findingsOf [.duplicateNodeId] =
      ids.map (fun id => .duplicateId id (o.nodeIds.count id)) ∧
    ids.Pairwise (· < ·) ∧ ∀ id, id ∈ ids ↔ 1 < o.nodeIds.count id

/-- In every verdict the faults and the findings stand kind by kind in the order of the passes. Each
reference to an undeclared id, from an agent, an edge or the outputs, is a fault; each edge with the
ends of an edge before it is pointed out, and so is each id that is declared more than once, in
ascending order and with its number. -/
theorem lint_itemized (o : Orchestration) : o.Itemized := by
  have faults := o.lint_faultsOf
  obtain ⟨missed, reachability⟩ := o.exists_unreachable
  have findings := lint_findingsOf reachability
  have faultsJoined : o.lint.faults = faultGroups.flatMap o.lint.faultsOf := by
    rw [List.flatMap_def, faults, flatten_faults]
  have findingsJoined : o.lint.findings = findingGroups.flatMap o.lint.findingsOf := by
    rw [List.flatMap_def, findings, flatten_findings reachability]
  simp only [faultGroups, List.map_cons, List.map_nil, List.cons.injEq, and_true] at faults
  simp only [findingGroups, findingBlocks, List.map_cons, List.map_nil, List.cons.injEq,
    and_true] at findings
  obtain ⟨-, tools, ends, -, outputs⟩ := faults
  obtain ⟨-, -, edges, ids, -⟩ := findings
  refine ⟨faultsJoined, findingsJoined, tools, ends, outputs, ?_, ?_, _, ids, ?_, ?_⟩
  · rw [edges, repeatedEdges_eq_map, List.map_map]
    rfl
  · have number := o.length_repeatedEdges_add_card
    rw [edges, List.length_map]
    omega
  · exact (ascendingSet_pairwise o.nodeIds).filter _
  · intro id
    rw [List.mem_filter, mem_ascendingSet, decide_eq_true_eq, and_iff_right_iff_imp]
    exact fun several => List.count_pos_iff.mp (Nat.zero_lt_of_lt several)

end Orchestration

end Workflow
