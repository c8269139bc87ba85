import Workflow.Spec.Violation
import Workflow.Value.Same
import Workflow.Value.Literal

/-!
Faults, which end a compilation, and findings, which do not. Both are causes; a report gives a
cause its code, its message and the identifiers that explain it.
-/

namespace Workflow

inductive ErrorCode where
  | invalidSpec | invalidStartNode | missingTool | invalidEdgeSource | invalidEdgeTarget
  | cycleDetected | invalidOutputNode | invalidStartAgent | invalidNextAgent
  deriving DecidableEq, Repr

namespace ErrorCode

def all : List ErrorCode :=
  [.invalidSpec, .invalidStartNode, .missingTool, .invalidEdgeSource, .invalidEdgeTarget,
    .cycleDetected, .invalidOutputNode, .invalidStartAgent, .invalidNextAgent]

def label : ErrorCode → String
  | .invalidSpec => "INVALID_SPEC"
  | .invalidStartNode => "INVALID_START_NODE"
  | .missingTool => "MISSING_TOOL"
  | .invalidEdgeSource => "INVALID_EDGE_SOURCE"
  | .invalidEdgeTarget => "INVALID_EDGE_TARGET"
  | .cycleDetected => "CYCLE_DETECTED"
  | .invalidOutputNode => "INVALID_OUTPUT_NODE"
  | .invalidStartAgent => "INVALID_START_AGENT"
  | .invalidNextAgent => "INVALID_NEXT_AGENT"

def summary : ErrorCode → String
  | .invalidSpec => "The raw input does not conform to the ProjectSpec schema."
  | .invalidStartNode => "The start node is not a declared agent, gate or tool."
  | .missingTool => "An agent references a tool id that is not declared."
  | .invalidEdgeSource => "An edge starts at an undeclared node."
  | .invalidEdgeTarget => "An edge ends at an undeclared node."
  | .cycleDetected => "The node/edge graph contains a directed cycle."
  | .invalidOutputNode => "An output id is not a declared node."
  | .invalidStartAgent => "The compiled start agent is not among the compiled agents."
  | .invalidNextAgent => "A compiled agent lists a successor that is not a compiled agent."

def ofLabel? (s : String) : Option ErrorCode := all.find? (·.label == s)

end ErrorCode

inductive WarningCode where
  | unreachableNode | duplicateEdge | duplicateNodeId | noOutputs | noAgents
  deriving DecidableEq, Repr

namespace WarningCode

def all : List WarningCode :=
  [.unreachableNode, .duplicateEdge, .duplicateNodeId, .noOutputs, .noAgents]

def label : WarningCode → String
  | .unreachableNode => "UNREACHABLE_NODE"
  | .duplicateEdge => "DUPLICATE_EDGE"
  | .duplicateNodeId => "DUPLICATE_NODE_ID"
  | .noOutputs => "NO_OUTPUTS"
  | .noAgents => "NO_AGENTS"

def summary : WarningCode → String
  | .unreachableNode => "A node cannot be reached from the start node."
  | .duplicateEdge => "Two edges share the same (source, target) pair."
  | .duplicateNodeId => "An id is declared more than once across agents, gates and tools."
  | .noOutputs => "The orchestration declares no output nodes."
  | .noAgents => "The orchestration declares no agents."

def ofLabel? (s : String) : Option WarningCode := all.find? (·.label == s)

end WarningCode

/-- A code with a message and the identifiers that explain it. -/
structure Report (Code : Type) where
  code : Code
  message : String
  details : Entries

namespace Report

variable {Code : Type}

def toValue (label : Code → String) (r : Report Code) : Value :=
  .table [("code", .text (label r.code)), ("message", .text r.message),
    ("details", .table r.details)]

/-- The same code and message, and the same details whatever their order. -/
def same [DecidableEq Code] (r s : Report Code) : Bool :=
  r.code = s.code && r.message == s.message && (Value.table r.details).same (.table s.details)

/-- The report on one line, as `title(code=…, message=…, details=…)`. -/
def literal (title : String) (r : Report ErrorCode) : String :=
  title ++ "(code=" ++ quoted r.code.label ++ ", message=" ++ quoted r.message ++ ", details=" ++
    String.ofList (Value.table r.details).literal ++ ")"

end Report

/-- What can end a compilation, or keep a compiled service from being run. -/
inductive Fault where
  | invalid (violations : List Violation)
  | startMissing (node : String)
  | toolMissing (agent tool : String)
  | sourceMissing (edge node : String)
  | targetMissing (edge node : String)
  | cycle (path : List String)
  | outputMissing (node : String)
  | startAgentMissing (agent : String)
  | nextAgentMissing (agent next : String)
  deriving DecidableEq, Repr

namespace Fault

def code : Fault → ErrorCode
  | .invalid _ => .invalidSpec
  | .startMissing _ => .invalidStartNode
  | .toolMissing .. => .missingTool
  | .sourceMissing .. => .invalidEdgeSource
  | .targetMissing .. => .invalidEdgeTarget
  | .cycle _ => .cycleDetected
  | .outputMissing _ => .invalidOutputNode
  | .startAgentMissing _ => .invalidStartAgent
  | .nextAgentMissing .. => .invalidNextAgent

def message : Fault → String
  | .invalid _ => "Invalid project specification"
  | .startMissing node => s!"Start node \"{node}\" does not exist"
  | .toolMissing agent tool => s!"Agent \"{agent}\" references non-existent tool \"{tool}\""
  | .sourceMissing edge node => s!"Edge \"{edge}\" has invalid source node \"{node}\""
  | .targetMissing edge node => s!"Edge \"{edge}\" has invalid target node \"{node}\""
  | .cycle _ => "Cycle detected in agent graph"
  | .outputMissing node => s!"Output node \"{node}\" does not exist"
  | .startAgentMissing agent => s!"Start agent \"{agent}\" not found in compiled agents"
  | .nextAgentMissing agent next =>
    s!"Agent \"{agent}\" references non-existent next agent \"{next}\""

def details : Fault → Entries
  | .invalid violations => [("violations", .list (violations.map Violation.toValue))]
  | .startMissing node => [("startNode", .text node)]
  | .toolMissing agent tool => [("agentId", .text agent), ("toolId", .text tool)]
  | .sourceMissing edge node => [("edgeId", .text edge), ("source", .text node)]
  | .targetMissing edge node => [("edgeId", .text edge), ("target", .text node)]
  | .cycle path => [("nodeId", .text (path.headD "")), ("cycle", Value.texts path)]
  | .outputMissing node => [("outputId", .text node)]
  | .startAgentMissing agent => [("startAgent", .text agent)]
  | .nextAgentMissing agent next => [("agentId", .text agent), ("nextAgentId", .text next)]

def report (f : Fault) : Report ErrorCode := ⟨f.code, f.message, f.details⟩

end Fault

/-- What a check may point out without ending a compilation. -/
inductive Finding where
  | noAgents
  | unreachable (node : String)
  | duplicateEdge (edge source target : String)
  | duplicateId (node : String) (count : Nat)
  | noOutputs
  deriving DecidableEq, Repr

namespace Finding

def code : Finding → WarningCode
  | .noAgents => .noAgents
  | .unreachable _ => .unreachableNode
  | .duplicateEdge .. => .duplicateEdge
  | .duplicateId .. => .duplicateNodeId
  | .noOutputs => .noOutputs

def message : Finding → String
  | .noAgents => "No agents defined"
  | .unreachable node => s!"Node \"{node}\" is unreachable from start node"
  | .duplicateEdge _ source target => s!"Duplicate edge from \"{source}\" to \"{target}\""
  | .duplicateId node count => s!"Node id \"{node}\" is declared {count} times"
  | .noOutputs => "No output nodes defined"

def details : Finding → Entries
  | .noAgents => []
  | .unreachable node => [("nodeId", .text node)]
  | .duplicateEdge edge source target =>
    [("edgeId", .text edge), ("source", .text source), ("target", .text target)]
  | .duplicateId node count => [("nodeId", .text node), ("count", .int count)]
  | .noOutputs => []

def report (f : Finding) : Report WarningCode := ⟨f.code, f.message, f.details⟩

end Finding

end Workflow
