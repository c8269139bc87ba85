import Workflow.Proofs.Lint.Searches
import Workflow.Proofs.Service.Order
import Workflow.Proofs.Service.Run

/-!
What one more edge does to a project that compiles. Main statement: the project still compiles
exactly where the edge's target does not reach its source; if it does, a cycle is found that takes
the edge, and if not, the service changes only by the edge.
-/

namespace Workflow

open Relation

/-! ## Graphs -/

section

variable {e : Edge} {edges more : List Edge}

theorem edgesLead_inserted (inserted : Inserted e edges more) :
    EdgesLead more = Joined (EdgesLead edges) e.source e.target := by
  funext source target
  apply propext
  simp only [EdgesLead, Joined, inserted.perm.mem_iff, List.mem_cons]
  constructor
  · intro leads
    rcases leads with ⟨edge, rfl | listed, rfl, rfl⟩
    · exact .inr ⟨rfl, rfl⟩
    · exact .inl ⟨edge, listed, rfl, rfl⟩
  · intro leads
    rcases leads with ⟨edge, listed, rfl, rfl⟩ | ⟨rfl, rfl⟩
    · exact ⟨edge, .inr listed, rfl, rfl⟩
    · exact ⟨e, .inl rfl, rfl, rfl⟩

namespace Orchestration

variable {o : Orchestration}

/-- Where all edges join declared nodes, none of them is left out in looking for what a node
reaches. -/
theorem exists_reached (declared : o.EdgesDeclared) {start : String} (known : start ∈ o.nodeIds) :
    ∃ reached, o.graph.reachable? start = some reached ∧
      ∀ id, id ∈ reached ↔ ReflTransGen (EdgesLead o.edges) start id := by
  have known' : start ∈ o.graph.ids := Graph.mem_ids.mpr (.inl known)
  obtain ⟨reached, found, members⟩ := Graph.exists_reachable? known'
  refine ⟨reached, found, ?_⟩
  intro id
  rw [members, reflTransGen_joinsDeclared_iff known, leadsWithin_eq declared]

theorem mem_reached_iff (declared : o.EdgesDeclared) {start : String} (known : start ∈ o.nodeIds)
    {reached : List String} (found : o.graph.reachable? start = some reached) {id : String} :
    id ∈ reached ↔ ReflTransGen (EdgesLead o.edges) start id := by
  obtain ⟨reached', found', members⟩ := exists_reached declared known
  obtain rfl := Option.some_inj.mp (found.symm.trans found')
  exact members id

theorem edgesDeclared_inserted (declared : o.EdgesDeclared) (source : e.source ∈ o.nodeIds)
    (target : e.target ∈ o.nodeIds) (inserted : Inserted e o.edges more) :
    (o.withEdges more).EdgesDeclared := by
  intro edge listed
  rcases List.mem_cons.mp (inserted.perm.mem_iff.mp listed) with rfl | old
  · exact ⟨source, target⟩
  · exact declared edge old

theorem acyclic_inserted_iff (acyclic : o.Acyclic) (inserted : Inserted e o.edges more) :
    (o.withEdges more).Acyclic ↔ ¬ ReflTransGen (EdgesLead o.edges) e.target e.source := by
  rw [Acyclic, withEdges, edgesLead_inserted inserted]
  exact acyclic_joined_iff acyclic

theorem targetsOf_inserted (inserted : Inserted e o.edges more) (id : String) :
    (id = e.source → Inserted e.target (o.targetsOf id) ((o.withEdges more).targetsOf id)) ∧
      (id ≠ e.source → (o.withEdges more).targetsOf id = o.targetsOf id) := by
  have targets := (inserted.perm.filter (·.source == id)).map Edge.target
  rw [List.filter_cons] at targets
  constructor
  · intro same
    rw [if_pos (beq_iff_eq.mpr same.symm)] at targets
    exact inserted_ascending targets
  · intro differ
    rw [if_neg (mt beq_iff_eq.mp differ.symm)] at targets
    exact ascending_eq_of_perm targets

end Orchestration

end

/-! ## Services -/

/-- The same agent, which may also go on to the target of the edge if it is the source. -/
structure CompiledAgent.GainsEdge (e : Edge) (a b : CompiledAgent) : Prop where
  kept : { b with next := a.next } = a
  gained : a.id = e.source → Inserted e.target a.next b.next
  same : a.id ≠ e.source → b.next = a.next

/-- The same service with the edge in its topology, and its agents in the same order. -/
structure Service.GainsEdge (e : Edge) (s t : Service) : Prop where
  kept : { t with agents := s.agents, topology := { t.topology with edges := s.topology.edges } } = s
  agents : List.Forall₂ (CompiledAgent.GainsEdge e) s.agents t.agents
  edges : Inserted e s.topology.edges t.topology.edges

namespace Project

variable {p : Project} {e : Edge} {edges : List Edge}

theorem build_gainsEdge (inserted : Inserted e p.orchestration.edges edges) :
    p.build.GainsEdge e (p.withEdges edges).build where
  kept := rfl
  agents := by
    obtain ⟨order, -, built⟩ := p.exists_order_agents
    have before : p.build.agents = order.map p.orchestration.compileAgent :=
      built p.orchestration.edges
    rw [before, built edges, List.forall₂_map_left_iff, List.forall₂_map_right_iff,
      List.forall₂_same]
    intro agent _
    have targets := Orchestration.targetsOf_inserted inserted agent.id
    exact ⟨rfl, targets.1, targets.2⟩
  edges := inserted_sortByKey Edge.sortKey_injective inserted.perm

/-- A project that compiles still does with one more edge between declared nodes exactly where the
target of the edge does not reach its source. If it does, the project is refused for a cycle that
takes the edge; and else the service gains the edge, and nothing else. -/
theorem compilation_withEdges {s : Service} (done : p.compilation = .done s)
    (source : e.source ∈ p.orchestration.nodeIds) (target : e.target ∈ p.orchestration.nodeIds)
    (inserted : Inserted e p.orchestration.edges edges) :
    ∃ reached, p.orchestration.graph.reachable? e.target = some reached ∧ e.target ∈ reached ∧
      ((∃ t, (p.withEdges edges).compilation = .done t) ↔ e.source ∉ reached) ∧
      (e.source ∈ reached → ∃ path, (p.withEdges edges).compilation = .refused (.cycle path) ∧
        [e.source, e.target] <:+: path) ∧
      ∀ t, (p.withEdges edges).compilation = .done t → s.GainsEdge e t := by
  obtain ⟨sound, fits, rfl⟩ := compilation_eq_done_iff.mp done
  obtain ⟨reached, found, members⟩ := Orchestration.exists_reached sound.edges target
  have declared := Orchestration.edgesDeclared_inserted sound.edges source target inserted
  have acyclic_iff := Orchestration.acyclic_inserted_iff sound.acyclic inserted
  rw [← members] at acyclic_iff
  refine ⟨reached, found, (members e.target).mpr .refl, ?_, ?_, ?_⟩
  · constructor
    · intro made
      rcases made with ⟨t, done'⟩
      exact acyclic_iff.mp (compilation_eq_done_iff.mp done').1.acyclic
    · intro apart
      have sound' : (p.withEdges edges).orchestration.Sound :=
        ⟨sound.start, sound.tools, declared, acyclic_iff.mpr apart, sound.outputs⟩
      exact ⟨_, compilation_eq_done_iff.mpr ⟨sound', fits, rfl⟩⟩
  · intro reaches
    -- All else is in order, so the first fault is the cycle; without the edge there was none.
    have cyclic : ¬ (p.orchestration.withEdges edges).Acyclic := by
      intro acyclic
      exact acyclic_iff.mp acyclic reaches
    have start : (p.orchestration.withEdges edges).StartDeclared := sound.start
    have tools : (p.orchestration.withEdges edges).ToolsDeclared := sound.tools
    obtain ⟨path, head, cycle⟩ :=
      Orchestration.exists_cycle_of_declared start tools declared cyclic
    refine ⟨path, compilation_eq_refused_iff.mpr head, ?_⟩
    apply IsCycle.infix_of_joined sound.acyclic
    rw [← edgesLead_inserted inserted]
    exact cycle
  · intro t done'
    obtain ⟨-, -, rfl⟩ := compilation_eq_done_iff.mp done'
    exact build_gainsEdge inserted

/-- Three agents in a row with one more edge between two of them. -/
def relayProjectWith (source target : String) : Project :=
  Service.relayProject.withEdges
    (⟨"4", source, target, none, none⟩ :: Service.relayProject.orchestration.edges)

/-- An edge back to the writer closes a cycle, and a second edge from the writer does not. -/
theorem compilation_withEdges_relay :
    (∃ path, (relayProjectWith "checker" "writer").compilation = .refused (.cycle path) ∧
        ["checker", "writer"] <:+: path) ∧
      ∃ t, (relayProjectWith "writer" "checker").compilation = .done t ∧
        Service.relayProject.build.GainsEdge ⟨"4", "writer", "checker", none, none⟩ t := by
  have sound := (compilation_eq_done_iff.mp Service.relayProject_done).1
  have inserted (e : Edge) : Inserted e Service.relayProject.orchestration.edges
      (e :: Service.relayProject.orchestration.edges) := ⟨[], _, rfl, rfl⟩
  have declared : ∀ id ∈ ["writer", "checker"], id ∈ Service.relayProject.orchestration.nodeIds := by
    decide
  constructor
  · obtain ⟨reached, found, -, -, refused, -⟩ :=
      compilation_withEdges Service.relayProject_done (declared "checker" (by decide))
        (declared "writer" (by decide)) (inserted ⟨"4", "checker", "writer", none, none⟩)
    apply refused
    rw [Orchestration.mem_reached_iff sound.edges (declared "writer" (by decide)) found]
    exact .single ⟨⟨"3", "writer", "checker", none, none⟩, by decide, rfl, rfl⟩
  · obtain ⟨reached, found, -, made, -, gains⟩ :=
      compilation_withEdges Service.relayProject_done (declared "writer" (by decide))
        (declared "checker" (by decide)) (inserted ⟨"4", "writer", "checker", none, none⟩)
    have apart : "writer" ∉ reached := by
      rw [Orchestration.mem_reached_iff sound.edges (declared "checker" (by decide)) found]
      intro walk
      rcases walk.cases_head with same | ⟨next, ⟨edge, listed, leaves, -⟩, -⟩
      · exact absurd same (by decide)
      · have stays : ∀ edge ∈ Service.relayProject.orchestration.edges,
            edge.source ≠ "checker" := by decide
        exact stays edge listed leaves
    obtain ⟨t, done⟩ := made.mpr apart
    exact ⟨t, done, gains t done⟩

end Project

end Workflow
