import Workflow.Proofs.Lookup.Graph
import Workflow.Proofs.Service.Assembly
import Workflow.Proofs.Service.Compilation

/-!
Compilations where every lookup on the way may find nothing. A start node is looked up only once it
is known to be declared, a cycle and the faults of a refused project have a first item, and tools
are looked up only where they are declared. Main statement: nothing that is looked up is missing, so
each pass has a verdict, and every document has the outcome of its compilation.
-/

namespace Workflow.Lookup

/-! ## Checks -/

def graphOf (o : Orchestration) : Except Missing Graph := graph o.nodeIds (o.edges.map Edge.ends)

def checkReachability (o : Orchestration) : Except Missing Verdict := do
  let noAgents : List Finding := if o.agents.isEmpty then [.noAgents] else []
  if o.startNode ∈ o.nodeIds then
    let reached ← reachable (← graphOf o) o.startNode
    let missed := (ascendingSet o.nodeIds).filter (!reached.contains ·)
    .ok ⟨[], noAgents ++ missed.map Finding.unreachable⟩
  else .ok ⟨[.startMissing o.startNode], noAgents⟩

def checkAcyclic (o : Orchestration) : Except Missing Verdict := do
  match ← cycle (← graphOf o) with
  | none => .ok .empty
  | some path =>
    -- The report names the first node of the cycle.
    let _first ← itemAt path 0
    .ok ⟨[.cycle path], []⟩

/-- The passes; those over tools, edges and outputs look nothing up. -/
def passes : List (Orchestration → Except Missing Verdict) :=
  [checkReachability, fun o => .ok o.checkTools, fun o => .ok o.checkEdges, checkAcyclic,
    fun o => .ok o.checkOutputs]

def lint (o : Orchestration) : Except Missing Verdict := do
  let verdicts ← passes.mapM (· o)
  .ok (verdicts.foldl (· ++ ·) .empty)

variable (o : Orchestration)

theorem graphOf_eq : graphOf o = .ok o.graph := graph_eq _ _

theorem checkReachability_eq : checkReachability o = .ok o.checkReachability := by
  rw [checkReachability, Orchestration.checkReachability]
  split
  next declared =>
    have known : o.startNode ∈ o.graph.ids := Graph.mem_ids.mpr (.inl declared)
    obtain ⟨found, reached, looked, searched, same⟩ := exists_reachable known
    have contains : found.contains = reached.contains := by
      funext id
      rw [Bool.eq_iff_iff, List.contains_iff_mem, List.contains_iff_mem, same]
    have reached_eq : o.graph.reachable? o.startNode = some reached := searched
    have looked_eq : reachable o.graph o.startNode = .ok found := looked
    rw [graphOf_eq, Except.ok_andThen, looked_eq, Except.ok_andThen, reached_eq, Option.getD_some,
      contains]
  next => rfl

theorem checkAcyclic_eq : checkAcyclic o = .ok o.checkAcyclic := by
  have looked : cycle o.graph = .ok o.graph.findCycle := cycle_eq _ _
  rw [checkAcyclic, Orchestration.checkAcyclic, graphOf_eq, Except.ok_andThen, looked,
    Except.ok_andThen]
  cases found : o.graph.findCycle with
  | none => rfl
  | some path =>
      obtain ⟨first, head⟩ := (Graph.isCycle_of_findCycle found).1.exists_head
      have start : path[0]? = some first := List.head?_eq_getElem? ▸ head
      dsimp only
      rw [itemAt_eq_ok start]
      rfl

theorem passes_eq : List.Forall₂ (fun look pass => look o = .ok (pass o)) passes
    Orchestration.passes :=
  .cons (checkReachability_eq o) <| .cons rfl <| .cons rfl <| .cons (checkAcyclic_eq o) <|
    .cons rfl .nil

theorem lint_eq : lint o = .ok o.lint := by
  have verdicts : passes.mapM (· o) = .ok (Orchestration.passes.map (· o)) :=
    Except.mapM_eq_ok (List.forall₂_map_right_iff.mpr (passes_eq o))
  rw [lint, verdicts]
  rfl

/-! ## Compiling -/

def toolOf (o : Orchestration) (id : String) : Except Missing Tool :=
  match o.tool? id with
  | some tool => .ok tool
  | none => .error (.id id)

def compileAgent (o : Orchestration) (a : Agent) : Except Missing CompiledAgent := do
  let tools ← (a.tools.filter o.toolIds.contains).mapM (toolOf o)
  .ok { o.compileAgent a with tools := sortByKey Tool.sortKey tools }

def build (p : Project) : Except Missing Service := do
  let agents ← p.orchestration.agents.mapM (compileAgent p.orchestration)
  .ok { p.build with agents := sortByKey CompiledAgent.sortKey agents }

def compile (p : Project) : Except Missing (Except Fault Service) := do
  let verdict ← lint p.orchestration
  if verdict.isValid then
    let service ← build p
    .ok (.ok service)
  else
    let fault ← itemAt verdict.faults 0
    .ok (.error fault)

def compilation (p : Project) : Except Missing Compilation := do
  match ← compile p with
  | .ok service =>
    match p.writeFault? with
    | none => .ok (.done service)
    | some fault => .ok (.unwritable fault)
  | .error fault => .ok (.refused fault)

def ofDocument (v : Value) : Except Missing Compilation :=
  match Project.read v with
  | .ok p => compilation p
  | .error violations => .ok (.refused (.invalid violations))

variable {o}

theorem mapM_toolOf (ids : List String) :
    (ids.filter o.toolIds.contains).mapM (toolOf o) = .ok (ids.filterMap o.tool?) := by
  induction ids with
  | nil => rfl
  | cons id ids ih =>
      by_cases declared : id ∈ o.toolIds
      · obtain ⟨tool, found⟩ := Orchestration.exists_tool?_eq_some declared
        rw [List.filter_cons_of_pos (List.contains_iff_mem.mpr declared), List.mapM_cons, toolOf,
          found, ih, List.filterMap_cons_some found]
        rfl
      · have none : o.tool? id = none := by
          by_contra some
          obtain ⟨tool, found⟩ := Option.ne_none_iff_exists'.mp some
          obtain ⟨member, rfl⟩ := Orchestration.tool?_eq_some found
          exact declared (List.mem_map_of_mem member)
        rw [List.filter_cons_of_neg (mt List.contains_iff_mem.mp declared), ih,
          List.filterMap_cons_none none]

theorem compileAgent_eq (a : Agent) : compileAgent o a = .ok (o.compileAgent a) := by
  rw [compileAgent, mapM_toolOf]
  rfl

theorem build_eq (p : Project) : build p = .ok p.build := by
  have agents : p.orchestration.agents.mapM (compileAgent p.orchestration) =
      .ok (p.orchestration.agents.map p.orchestration.compileAgent) :=
    Except.mapM_eq_ok (List.forall₂_map_right_iff.mpr
      (List.forall₂_same.mpr fun agent _ => compileAgent_eq agent))
  rw [build, agents]
  rfl

theorem compile_eq (p : Project) : compile p = .ok p.compile := by
  rw [compile, Project.compile, lint_eq, Except.ok_andThen, Verdict.isValid]
  cases faults : p.orchestration.lint.faults with
  | nil =>
      rw [List.isEmpty_nil, if_pos rfl, build_eq]
      rfl
  | cons fault rest => rfl

theorem compilation_eq (p : Project) : compilation p = .ok p.compilation := by
  rw [compilation, Project.compilation, compile_eq, Except.ok_andThen]
  cases p.compile with
  | ok service => cases p.writeFault? <;> rfl
  | error fault => rfl

theorem ofDocument_eq (v : Value) : ofDocument v = .ok (Compilation.ofDocument v) := by
  rw [ofDocument, Compilation.ofDocument]
  cases Project.read v with
  | ok p => exact compilation_eq p
  | error violations => rfl

/-- What is looked up is there: no check and no compilation fails for want of an id, of a position
or of a node on a path. A document that gets neither a service nor a fault has an agent or a tool that
cannot be written out. -/
theorem lookups_succeed :
    (∀ o : Orchestration,
      List.Forall₂ (fun look pass => look o = .ok (pass o)) passes Orchestration.passes ∧
        lint o = .ok o.lint) ∧
    ∀ v : Value, ∃ outcome, ofDocument v = .ok outcome ∧ Compilation.ofDocument v = outcome ∧
      ((∃ s, outcome = .done s) ∨ (∃ fault, outcome = .refused fault) ∨
        (∃ fault, outcome = .unwritable fault) ∧ ∃ p, Project.read v = .ok p ∧ p.Unwritable) := by
  refine ⟨fun o => ⟨passes_eq o, lint_eq o⟩, ?_⟩
  intro v
  refine ⟨Compilation.ofDocument v, ofDocument_eq v, rfl, ?_⟩
  cases outcome : Compilation.ofDocument v with
  | done s => exact .inl ⟨s, rfl⟩
  | refused fault => exact .inr (.inl ⟨fault, rfl⟩)
  | unwritable fault =>
      rw [Compilation.ofDocument] at outcome
      split at outcome
      next p read =>
        have unwritable := Project.exists_compilation_eq_unwritable_iff.mp ⟨fault, outcome⟩
        exact .inr (.inr ⟨⟨fault, rfl⟩, p, read, unwritable.2⟩)
      next => cases outcome

end Workflow.Lookup
