import Workflow.Lint
import Workflow.Proofs.Graph.Numbering

/-!
What the checks of an orchestration say of it. An orchestration is sound if all that it refers to
is declared and its edges have no cycle. Main statements: the checks find no fault exactly in sound
orchestrations, and else their first fault is the first offender against the first condition that
does not hold.
-/

namespace Workflow

open Relation

/-- One of the edges leads from `source` to `target`. -/
def EdgesLead (edges : List Edge) (source target : String) : Prop :=
  ∃ edge ∈ edges, edge.source = source ∧ edge.target = target

instance (edges : List Edge) (source target : String) :
    Decidable (EdgesLead edges source target) :=
  inferInstanceAs (Decidable (∃ edge ∈ edges, edge.source = source ∧ edge.target = target))

theorem joins_ends (edges : List Edge) : Joins (edges.map Edge.ends) = EdgesLead edges := by
  funext source target
  apply propext
  constructor
  · intro listed
    obtain ⟨edge, member, same⟩ := List.mem_map.mp listed
    obtain ⟨rfl, rfl⟩ := Prod.mk.inj same
    exact ⟨edge, member, rfl, rfl⟩
  · intro leads
    obtain ⟨edge, member, rfl, rfl⟩ := leads
    exact List.mem_map.mpr ⟨edge, member, rfl⟩

/-- The first item of a list that has a property. -/
def IsFirst {α : Type} (property : α → Prop) (items : List α) (item : α) : Prop :=
  ∃ before after, items = before ++ item :: after ∧ property item ∧
    ∀ other ∈ before, ¬ property other

theorem isFirst_of_find? {α : Type} (property : α → Prop) {test : α → Bool} {items : List α}
    {item : α} (tests : ∀ a, test a = true ↔ property a) (found : items.find? test = some item) :
    IsFirst property items item := by
  obtain ⟨passes, before, after, split, fail⟩ := List.find?_eq_some_iff_append.mp found
  refine ⟨before, after, split, (tests item).mp passes, ?_⟩
  intro other member holds
  have fails := fail other member
  rw [(tests other).mpr holds] at fails
  cases fails

theorem isFirst_of_findSome? {α β : Type} (property : α → Prop) {test : α → Option β}
    {items : List α} {result : β} (tests : ∀ a, test a = none ↔ ¬ property a)
    (found : items.findSome? test = some result) :
    ∃ item, IsFirst property items item ∧ test item = some result := by
  obtain ⟨before, item, after, split, passes, fail⟩ := List.findSome?_eq_some_iff.mp found
  refine ⟨item, ⟨before, after, split, ?_, ?_⟩, passes⟩
  · by_contra lacks
    rw [(tests item).mpr lacks] at passes
    cases passes
  · intro other member
    exact (tests other).mp (fail other member)

namespace Orchestration

variable {o : Orchestration}

/-! ## Sound orchestrations -/

def StartDeclared (o : Orchestration) : Prop := o.startNode ∈ o.nodeIds

def ToolsDeclared (o : Orchestration) : Prop :=
  ∀ agent ∈ o.agents, ∀ tool ∈ agent.tools, tool ∈ o.toolIds

def EdgesDeclared (o : Orchestration) : Prop :=
  ∀ edge ∈ o.edges, edge.source ∈ o.nodeIds ∧ edge.target ∈ o.nodeIds

def Acyclic (o : Orchestration) : Prop := ∀ place, ¬ TransGen (EdgesLead o.edges) place place

def OutputsDeclared (o : Orchestration) : Prop := ∀ output ∈ o.outputs, output ∈ o.nodeIds

instance (o : Orchestration) : Decidable o.StartDeclared :=
  inferInstanceAs (Decidable (o.startNode ∈ o.nodeIds))

instance (o : Orchestration) : Decidable o.ToolsDeclared :=
  inferInstanceAs (Decidable (∀ agent ∈ o.agents, ∀ tool ∈ agent.tools, tool ∈ o.toolIds))

instance (o : Orchestration) : Decidable o.EdgesDeclared :=
  inferInstanceAs
    (Decidable (∀ edge ∈ o.edges, edge.source ∈ o.nodeIds ∧ edge.target ∈ o.nodeIds))

instance (o : Orchestration) : Decidable o.OutputsDeclared :=
  inferInstanceAs (Decidable (∀ output ∈ o.outputs, output ∈ o.nodeIds))

theorem acyclic_of_rank (rank : String → Nat)
    (rises : ∀ edge ∈ o.edges, rank edge.source < rank edge.target) : o.Acyclic := by
  apply not_transGen_of_rank rank
  intro source target leads
  rcases leads with ⟨edge, listed, rfl, rfl⟩
  exact rises edge listed

/-- All that the orchestration refers to is declared, and its edges have no cycle. -/
structure Sound (o : Orchestration) : Prop where
  start : o.StartDeclared
  tools : o.ToolsDeclared
  edges : o.EdgesDeclared
  acyclic : o.Acyclic
  outputs : o.OutputsDeclared

/-- The first offender against the first condition that does not hold. -/
inductive FirstFault (o : Orchestration) : Fault → Prop where
  | start (missing : ¬ o.StartDeclared) : FirstFault o (.startMissing o.startNode)
  | tool {agent : Agent} {tool : String} (start : o.StartDeclared)
      (agentFirst : IsFirst (fun a => ∃ id ∈ a.tools, id ∉ o.toolIds) o.agents agent)
      (toolFirst : IsFirst (· ∉ o.toolIds) agent.tools tool) :
      FirstFault o (.toolMissing agent.id tool)
  | source {edge : Edge} (start : o.StartDeclared) (tools : o.ToolsDeclared)
      (first : IsFirst (fun e => ¬ (e.source ∈ o.nodeIds ∧ e.target ∈ o.nodeIds)) o.edges edge)
      (missing : edge.source ∉ o.nodeIds) : FirstFault o (.sourceMissing edge.id edge.source)
  | target {edge : Edge} (start : o.StartDeclared) (tools : o.ToolsDeclared)
      (first : IsFirst (fun e => ¬ (e.source ∈ o.nodeIds ∧ e.target ∈ o.nodeIds)) o.edges edge)
      (declared : edge.source ∈ o.nodeIds) (missing : edge.target ∉ o.nodeIds) :
      FirstFault o (.targetMissing edge.id edge.target)
  | cycle {path : List String} (start : o.StartDeclared) (tools : o.ToolsDeclared)
      (edges : o.EdgesDeclared) (cycle : IsCycle (EdgesLead o.edges) path) :
      FirstFault o (.cycle path)
  | output {output : String} (start : o.StartDeclared) (tools : o.ToolsDeclared)
      (edges : o.EdgesDeclared) (acyclic : o.Acyclic)
      (first : IsFirst (· ∉ o.nodeIds) o.outputs output) : FirstFault o (.outputMissing output)

/-! ## Single checks -/

theorem checkReachability_faults_eq_nil_iff :
    o.checkReachability.faults = [] ↔ o.StartDeclared := by
  rw [checkReachability, StartDeclared]
  split
  next declared => exact iff_of_true rfl declared
  next missing => exact iff_of_false (List.cons_ne_nil _ _) missing

theorem head?_checkReachability {fault : Fault}
    (head : o.checkReachability.faults.head? = some fault) :
    ¬ o.StartDeclared ∧ fault = .startMissing o.startNode := by
  rw [checkReachability] at head
  split at head
  next => cases head
  next missing => exact ⟨missing, (Option.some_inj.mp head).symm⟩

theorem checkTools_faults_eq_nil_iff : o.checkTools.faults = [] ↔ o.ToolsDeclared := by
  simp [checkTools, ToolsDeclared]

theorem head?_checkTools {fault : Fault} (head : o.checkTools.faults.head? = some fault) :
    ∃ agent tool, IsFirst (fun a => ∃ id ∈ a.tools, id ∉ o.toolIds) o.agents agent ∧
      IsFirst (· ∉ o.toolIds) agent.tools tool ∧ fault = .toolMissing agent.id tool := by
  rw [checkTools, List.head?_flatMap] at head
  obtain ⟨agent, agentFirst, named⟩ := isFirst_of_findSome?
    (fun a => ∃ id ∈ a.tools, id ∉ o.toolIds) (by simp) head
  rw [List.head?_map, List.head?_filter, Option.map_eq_some_iff] at named
  obtain ⟨tool, found, rfl⟩ := named
  exact ⟨agent, tool, agentFirst, isFirst_of_find? (· ∉ o.toolIds) (by simp) found, rfl⟩

theorem edgeFaults_eq_nil_iff {declared : List String} {edge : Edge} :
    edgeFaults declared edge = [] ↔ edge.source ∈ declared ∧ edge.target ∈ declared := by
  rw [edgeFaults, List.append_eq_nil_iff]
  apply and_congr
  · split <;> simp [*]
  · split <;> simp [*]

theorem checkEdges_faults_eq_nil_iff : o.checkEdges.faults = [] ↔ o.EdgesDeclared := by
  simp [checkEdges, EdgesDeclared, edgeFaults_eq_nil_iff]

theorem head?_checkEdges {fault : Fault} (head : o.checkEdges.faults.head? = some fault) :
    ∃ edge,
      IsFirst (fun e => ¬ (e.source ∈ o.nodeIds ∧ e.target ∈ o.nodeIds)) o.edges edge ∧
      (edge.source ∉ o.nodeIds ∧ fault = .sourceMissing edge.id edge.source ∨
        edge.source ∈ o.nodeIds ∧ edge.target ∉ o.nodeIds ∧
          fault = .targetMissing edge.id edge.target) := by
  rw [checkEdges, List.head?_flatMap] at head
  obtain ⟨edge, first, named⟩ := isFirst_of_findSome?
    (fun e => ¬ (e.source ∈ o.nodeIds ∧ e.target ∈ o.nodeIds))
    (by simp [edgeFaults_eq_nil_iff]) head
  refine ⟨edge, first, ?_⟩
  by_cases source : edge.source ∈ o.nodeIds
  · have target : edge.target ∉ o.nodeIds := by
      obtain ⟨-, -, -, offends, -⟩ := first
      intro target
      exact offends ⟨source, target⟩
    rw [edgeFaults, if_pos source, if_neg target] at named
    exact .inr ⟨source, target, (Option.some_inj.mp named).symm⟩
  · rw [edgeFaults, if_neg source] at named
    exact .inl ⟨source, (Option.some_inj.mp named).symm⟩

theorem isCycle_of_checkAcyclic {fault : Fault} (member : fault ∈ o.checkAcyclic.faults) :
    ∃ path, IsCycle (EdgesLead o.edges) path ∧ fault = .cycle path ∧
      ∃ id ∈ o.nodeIds, ∃ first, path.head? = some first ∧
        ReflTransGen (EdgesLead o.edges) id first := by
  rw [checkAcyclic, Option.mem_toList, Option.map_eq_some_iff] at member
  obtain ⟨path, found, rfl⟩ := member
  have real := Graph.isCycle_of_findCycle found
  rw [joins_ends] at real
  exact ⟨path, real.1, rfl, real.2⟩

theorem checkAcyclic_faults_eq_nil_iff_acyclicFrom :
    o.checkAcyclic.faults = [] ↔ ∀ id ∈ o.nodeIds, AcyclicFrom (EdgesLead o.edges) id := by
  rw [checkAcyclic, Option.toList_eq_nil_iff, Option.map_eq_none_iff, graph,
    Graph.findCycle_eq_none_iff, joins_ends]

/-- The roots of the search are the declared nodes, so declared edges leave no cycle out. -/
theorem checkAcyclic_faults_eq_nil_iff (edges : o.EdgesDeclared) :
    o.checkAcyclic.faults = [] ↔ o.Acyclic := by
  rw [checkAcyclic_faults_eq_nil_iff_acyclicFrom]
  constructor
  · intro acyclic place loop
    obtain ⟨next, ⟨edge, member, rfl, -⟩, -⟩ := TransGen.head'_iff.mp loop
    exact acyclic edge.source (edges edge member).1 edge.source .refl loop
  · intro acyclic id _ place _
    exact acyclic place

theorem checkOutputs_faults_eq_nil_iff : o.checkOutputs.faults = [] ↔ o.OutputsDeclared := by
  simp [checkOutputs, OutputsDeclared]

theorem head?_checkOutputs {fault : Fault} (head : o.checkOutputs.faults.head? = some fault) :
    ∃ output, IsFirst (· ∉ o.nodeIds) o.outputs output ∧ fault = .outputMissing output := by
  rw [checkOutputs, List.head?_map, List.head?_filter, Option.map_eq_some_iff] at head
  obtain ⟨output, found, rfl⟩ := head
  exact ⟨output, isFirst_of_find? (· ∉ o.nodeIds) (by simp) found, rfl⟩

/-! ## All checks -/

theorem forall_mem_passes {property : (Orchestration → Verdict) → Prop} :
    (∀ pass ∈ passes, property pass) ↔ property checkReachability ∧ property checkTools ∧
      property checkEdges ∧ property checkAcyclic ∧ property checkOutputs := by
  simp [passes]

theorem lint_faults (o : Orchestration) : o.lint.faults =
    o.checkReachability.faults ++ (o.checkTools.faults ++ (o.checkEdges.faults ++
      (o.checkAcyclic.faults ++ o.checkOutputs.faults))) := by
  have joined : o.lint.faults = [] ++ o.checkReachability.faults ++ o.checkTools.faults ++
      o.checkEdges.faults ++ o.checkAcyclic.faults ++ o.checkOutputs.faults := rfl
  simpa only [List.append_assoc, List.nil_append] using joined

theorem lint_faults_eq_nil_iff : o.lint.faults = [] ↔ o.Sound := by
  rw [lint_faults, List.append_eq_nil_iff, List.append_eq_nil_iff, List.append_eq_nil_iff,
    List.append_eq_nil_iff, checkTools_faults_eq_nil_iff, checkEdges_faults_eq_nil_iff,
    checkOutputs_faults_eq_nil_iff, checkReachability_faults_eq_nil_iff]
  constructor
  · intro passed
    obtain ⟨start, tools, edges, acyclic, outputs⟩ := passed
    exact ⟨start, tools, edges, (checkAcyclic_faults_eq_nil_iff edges).mp acyclic, outputs⟩
  · intro sound
    obtain ⟨start, tools, edges, acyclic, outputs⟩ := sound
    exact ⟨start, tools, edges, (checkAcyclic_faults_eq_nil_iff edges).mpr acyclic, outputs⟩

theorem head?_append_cases {faults later : List Fault} {fault : Fault}
    (head : (faults ++ later).head? = some fault) :
    faults.head? = some fault ∨ faults = [] ∧ later.head? = some fault := by
  cases faults with
  | nil => exact .inr ⟨rfl, head⟩
  | cons first rest => exact .inl head

theorem firstFault_of_lint {fault : Fault} (head : o.lint.faults.head? = some fault) :
    o.FirstFault fault := by
  rw [lint_faults] at head
  rcases head?_append_cases head with head | ⟨start, head⟩
  · obtain ⟨missing, rfl⟩ := head?_checkReachability head
    exact .start missing
  have start := checkReachability_faults_eq_nil_iff.mp start
  rcases head?_append_cases head with head | ⟨tools, head⟩
  · obtain ⟨agent, tool, agentFirst, toolFirst, rfl⟩ := head?_checkTools head
    exact .tool start agentFirst toolFirst
  have tools := checkTools_faults_eq_nil_iff.mp tools
  rcases head?_append_cases head with head | ⟨edges, head⟩
  · obtain ⟨edge, first, ⟨missing, rfl⟩ | ⟨declared, missing, rfl⟩⟩ := head?_checkEdges head
    · exact .source start tools first missing
    · exact .target start tools first declared missing
  have edges := checkEdges_faults_eq_nil_iff.mp edges
  rcases head?_append_cases head with head | ⟨acyclic, head⟩
  · obtain ⟨path, cycle, rfl, -⟩ := isCycle_of_checkAcyclic (List.mem_of_head? head)
    exact .cycle start tools edges cycle
  have acyclic := (checkAcyclic_faults_eq_nil_iff edges).mp acyclic
  obtain ⟨output, first, rfl⟩ := head?_checkOutputs head
  exact .output start tools edges acyclic first

/-- Where nothing is undeclared and there is a cycle, one is found. -/
theorem exists_cycle_of_declared (start : o.StartDeclared) (tools : o.ToolsDeclared)
    (edges : o.EdgesDeclared) (cyclic : ¬ o.Acyclic) :
    ∃ path, o.lint.faults.head? = some (.cycle path) ∧ IsCycle (EdgesLead o.edges) path := by
  have faulty : o.checkAcyclic.faults ≠ [] := mt (checkAcyclic_faults_eq_nil_iff edges).mp cyclic
  obtain ⟨fault, rest, faults⟩ := List.exists_cons_of_ne_nil faulty
  have member : fault ∈ o.checkAcyclic.faults := faults ▸ List.mem_cons_self
  obtain ⟨path, cycle, rfl, -⟩ := isCycle_of_checkAcyclic member
  refine ⟨path, ?_, cycle⟩
  rw [lint_faults, checkReachability_faults_eq_nil_iff.mpr start,
    checkTools_faults_eq_nil_iff.mpr tools, checkEdges_faults_eq_nil_iff.mpr edges, faults]
  rfl

end Orchestration

end Workflow
