import Workflow.Fault
import Workflow.Service.Basic

/-!
Whether a service can be run: its start agent, and every id that an agent may go on to, is the id
of one of its agents. An id of a gate or a tool does not count.
-/

namespace Workflow

namespace CompiledAgent

/-- The ids that the agent may go on to and that are not among `agents`. -/
def danglingNext (a : CompiledAgent) (agents : List String) : List Fault :=
  (a.next.filter (!agents.contains ·)).map (Fault.nextAgentMissing a.id)

end CompiledAgent

namespace Service

/-- The first fault, in the order of the agents. -/
def fault? (s : Service) : Option Fault :=
  if s.startAgent ∈ s.agentIds then (s.agents.flatMap (·.danglingNext s.agentIds)).head?
  else some (.startAgentMissing s.startAgent)

end Service

end Workflow
