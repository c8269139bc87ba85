import Workflow.Graph.Ascending
import Workflow.Lint
import Workflow.Service.Canonical

/-!
Compiling a project into a service. Every list of the service is in an order of its own, so the
order of declarations does not show: ids come first, and what shares an id is ordered by its text.
-/

namespace Workflow

/-- A text that orders what shares an id: the wire form on one line. -/
def tieBreak (v : Value) : String := Json.text Json.lineStyle v.sorted

namespace Tool

def sortKey (t : Tool) : String × String := (t.id, tieBreak (t.toValue .wire))

/-- What keeps the sort key from being made. -/
def writeFault? (t : Tool) : Option WriteFault :=
  Workflow.writeFault? [t.config] (t.toValue .wire)

end Tool

namespace Edge

def sortKey (e : Edge) : String × String := (e.id, tieBreak (e.toValue .wire))

end Edge

namespace CompiledAgent

def sortKey (a : CompiledAgent) : String × String := (a.id, tieBreak (a.toValue .wire))

/-- What keeps the sort key from being made. -/
def writeFault? (a : CompiledAgent) : Option WriteFault :=
  Workflow.writeFault? (a.tools.map Tool.config) (a.toValue .wire)

end CompiledAgent

namespace TopologyNode

def sortKey (n : TopologyNode) : String × String := (n.id, Labelled.label n.kind)

end TopologyNode

namespace Orchestration

/-- The last declared tool with an id. -/
def tool? (o : Orchestration) (id : String) : Option Tool := o.tools.reverse.find? (·.id == id)

/-- The ids of the nodes that edges lead to from an id, ascending, once for each edge. -/
def targetsOf (o : Orchestration) (id : String) : List String :=
  ascending ((o.edges.filter (·.source == id)).map Edge.target)

/-- An agent with the tools it refers to; references to tools that are not declared are dropped. -/
def compileAgent (o : Orchestration) (a : Agent) : CompiledAgent :=
  { id := a.id
    name := a.name
    prompt := a.prompt
    tools := sortByKey Tool.sortKey (a.tools.filterMap o.tool?)
    next := o.targetsOf a.id
    memory := a.memory
    policies := a.policies }

def topologyNodes (o : Orchestration) : List TopologyNode :=
  o.agentIds.map (⟨·, .agent⟩) ++ o.toolIds.map (⟨·, .tool⟩) ++ o.gateIds.map (⟨·, .gate⟩)

def topology (o : Orchestration) : Topology :=
  { nodes := sortByKey TopologyNode.sortKey o.topologyNodes
    edges := sortByKey Edge.sortKey o.edges }

/-- The tools that agents refer to, as often as they do. -/
def usedTools (o : Orchestration) : List Tool :=
  o.agents.flatMap fun agent => agent.tools.filterMap o.tool?

end Orchestration

namespace Project

/-- The service of a project, whatever the checks of its graph say. -/
def build (p : Project) : Service :=
  let o := p.orchestration
  { id := p.id
    name := p.name
    version := p.version
    agents := sortByKey CompiledAgent.sortKey (o.agents.map o.compileAgent)
    startAgent := o.startNode
    outputs := ascending o.outputs
    topology := o.topology
    metadata := p.metadata }

/-- The service of a project whose graph is in order, else the first fault of its graph. -/
def compile (p : Project) : Except Fault Service :=
  match p.orchestration.lint.faults with
  | [] => .ok p.build
  | fault :: _ => .error fault

/-- What keeps the service from being made. The tools of all agents are put in order before the
agents are; edges and nodes have keys in any case, since they hold no numbers. -/
def writeFault? (p : Project) : Option WriteFault :=
  let o := p.orchestration
  (o.usedTools.findSome? Tool.writeFault?).or
    ((o.agents.map o.compileAgent).findSome? CompiledAgent.writeFault?)

end Project

/-- How a compilation ends. A service is not made where a text that would order a part of it cannot
be written out. -/
inductive Compilation where
  | done (service : Service)
  | refused (fault : Fault)
  | unwritable (fault : WriteFault)

def Project.compilation (p : Project) : Compilation :=
  match p.compile with
  | .ok service =>
    match p.writeFault? with
    | none => .done service
    | some fault => .unwritable fault
  | .error fault => .refused fault

/-- The compilation of a document: the document is read as a project, which is compiled. -/
def Compilation.ofDocument (v : Value) : Compilation :=
  match Project.read v with
  | .ok p => p.compilation
  | .error violations => .refused (.invalid violations)

end Workflow
