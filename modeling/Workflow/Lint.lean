import Workflow.Fault
import Workflow.Graph.Basic
import Workflow.Spec.Project

/-!
Checks of an orchestration's graph. Each pass looks for its own faults and findings; `lint` joins
the passes in a fixed order, so the first fault of the whole is the one of the first pass that has
any.
-/

namespace Workflow

/-- The faults and the findings of one pass or of several. -/
structure Verdict where
  faults : List Fault
  findings : List Finding
  deriving DecidableEq, Repr

namespace Verdict

def isValid (v : Verdict) : Bool := v.faults.isEmpty

def empty : Verdict := ⟨[], []⟩

def append (v w : Verdict) : Verdict := ⟨v.faults ++ w.faults, v.findings ++ w.findings⟩

instance : Append Verdict := ⟨append⟩

def toValue (v : Verdict) : Value :=
  .table [("isValid", .bool v.isValid),
    ("errors", .list (v.faults.map fun f => f.report.toValue ErrorCode.label)),
    ("warnings", .list (v.findings.map fun f => f.report.toValue WarningCode.label))]

end Verdict

namespace Orchestration

/-- The graph of the declared nodes and of all edges. -/
def graph (o : Orchestration) : Graph := Graph.ofEdges o.nodeIds (o.edges.map Edge.ends)

/-- The start node is declared; declared nodes that it does not reach are pointed out. -/
def checkReachability (o : Orchestration) : Verdict :=
  let noAgents : List Finding := if o.agents.isEmpty then [.noAgents] else []
  if o.startNode ∈ o.nodeIds then
    let reached := (o.graph.reachable? o.startNode).getD []
    let missed := (ascendingSet o.nodeIds).filter (!reached.contains ·)
    ⟨[], noAgents ++ missed.map Finding.unreachable⟩
  else ⟨[.startMissing o.startNode], noAgents⟩

/-- Each tool that an agent refers to is declared as a tool. -/
def checkTools (o : Orchestration) : Verdict :=
  ⟨o.agents.flatMap fun agent =>
    (agent.tools.filter (!o.toolIds.contains ·)).map (Fault.toolMissing agent.id), []⟩

/-- The edges that have the ends of an edge before them. -/
def repeatedEdges (seen : List (String × String)) : List Edge → List Edge
  | [] => []
  | edge :: rest =>
    if edge.ends ∈ seen then edge :: repeatedEdges seen rest
    else repeatedEdges (edge.ends :: seen) rest

def edgeFaults (declared : List String) (edge : Edge) : List Fault :=
  (if edge.source ∈ declared then [] else [.sourceMissing edge.id edge.source]) ++
    (if edge.target ∈ declared then [] else [.targetMissing edge.id edge.target])

/-- Each edge joins declared nodes; edges and ids that are declared again are pointed out. -/
def checkEdges (o : Orchestration) : Verdict :=
  let repeated := (ascendingSet o.nodeIds).filter fun id => 1 < o.nodeIds.count id
  ⟨o.edges.flatMap (edgeFaults o.nodeIds),
    (repeatedEdges [] o.edges).map (fun e => .duplicateEdge e.id e.source e.target) ++
      repeated.map fun id => .duplicateId id (o.nodeIds.count id)⟩

/-- No declared node leads to a cycle of edges. -/
def checkAcyclic (o : Orchestration) : Verdict :=
  ⟨(o.graph.findCycle.map Fault.cycle).toList, []⟩

/-- Each output is a declared node; that there is none is pointed out. -/
def checkOutputs (o : Orchestration) : Verdict :=
  ⟨(o.outputs.filter (!o.nodeIds.contains ·)).map Fault.outputMissing,
    if o.outputs.isEmpty then [.noOutputs] else []⟩

/-- The passes in the order in which their faults count. -/
def passes : List (Orchestration → Verdict) :=
  [checkReachability, checkTools, checkEdges, checkAcyclic, checkOutputs]

/-- What some passes find, one after the other. -/
def lintWith (passes : List (Orchestration → Verdict)) (o : Orchestration) : Verdict :=
  (passes.map (· o)).foldl (· ++ ·) .empty

/-- What all passes find. -/
def lint (o : Orchestration) : Verdict := o.lintWith passes

end Orchestration

end Workflow
