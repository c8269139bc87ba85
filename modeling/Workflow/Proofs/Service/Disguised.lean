import Workflow.Proofs.Service.SameWire
import Workflow.Proofs.Spec.Disguise
import Workflow.Proofs.Value.Same

/-!
Documents that say the same about a project. Main statement: such documents are read as the same
project and compiled to the same canonical text, or both are refused with the same violations.
-/

namespace Workflow

open Value (Reordered)

namespace Project

variable {v w : Value}

theorem read_of_ofValue?_eq_none (refused : ofValue? v = none) :
    Project.read v = .error (shape.violations [] v) := by
  rw [Project.read, readAs, refused]

theorem keysDistinct_of_read (distinct : v.KeysDistinct) {p : Project}
    (found : ofValue? v = some p) {form : Form} (standard : form.Standard) :
    (p.toValue form).KeysDistinct := modelled.lawful.distinct standard distinct found

/-- Documents that differ in the order of keys, in keys that no field of a model has and in which of
its two names a field goes by, are both read or both refused. If they are read, the projects are the
same but for the order of keys in free tables, and their compilations end in the same way. If they
are refused, it is with the same violations, but for the order and the names of fields. -/
theorem disguised_alike (distinct : v.KeysDistinct) (disguised : shape.Disguised v w) :
    (∃ p q, Project.read v = .ok p ∧ Project.read w = .ok q ∧
      Reordered (p.toValue .raw) (q.toValue .raw) ∧
      ((p.toValue .raw).NanFree → (p.toValue .raw).same (q.toValue .raw) = true) ∧
      (Compilation.ofDocument v).Agrees (.ofDocument w)) ∨
    ∃ violations others, Project.read v = .error violations ∧ Project.read w = .error others ∧
      Compilation.ofDocument v = .refused (.invalid violations) ∧
      Compilation.ofDocument w = .refused (.invalid others) ∧
      (violations.map shape.wired).Perm (others.map shape.wired) := by
  cases found : ofValue? v with
  | some p =>
      obtain ⟨q, found', same⟩ := modelled.exists_of_disguised disguised distinct found
      have read : Project.read v = .ok p := readAs_eq_ok_iff.mpr found
      have read' : Project.read w = .ok q := readAs_eq_ok_iff.mpr found'
      have raw := same .raw Form.raw_standard
      refine .inl ⟨p, q, read, read', raw, fun numbers => ?_, ?_⟩
      · have both := raw.sorted_eq (keysDistinct_of_read distinct found Form.raw_standard)
        exact Value.same_of_sorted_eq numbers both.2 both.1
      · rw [Compilation.ofDocument_of_read read, Compilation.ofDocument_of_read read']
        exact (sameWire (same .wire Form.wire_standard)
          (keysDistinct_of_read distinct found Form.wire_standard)).agrees
  | none =>
      have read := read_of_ofValue?_eq_none found
      have read' := read_of_ofValue?_eq_none
        (modelled.eq_none_of_disguised disguised distinct found)
      refine .inr ⟨_, _, read, read', ?_, ?_, ?_⟩
      · rw [Compilation.ofDocument, read]
      · rw [Compilation.ofDocument, read']
      · exact disguised.perm_wired_violations modelled.wellNamed distinct

/-- The graph of a document with one agent; the start node goes by a name of choice. -/
def agentGraph (start : String) (agent : Entries) : Entries :=
  [("id", .text "o"), ("name", .text "O"),
    ("agents", .list [.table ([("id", .text "a"), ("name", .text "A"), ("prompt", .text "Go"),
      ("tools", .list [])] ++ agent)]),
    ("tools", .list []), ("gates", .list []), ("edges", .list []), (start, .text "a"),
    ("outputs", .list [])]

def agentDocument (graph : Entries) : Entries :=
  [("id", .text "p"), ("name", .text "P"), ("version", .text "1"), ("orchestration", .table graph)]

theorem agentDocument_disguised : shape.Disguised
    (.table (agentDocument (agentGraph "start_node" [])))
    (.table (agentDocument (agentGraph "startNode" [("color", .text "red")])).reverse) := by
  have agent : Agent.shape.Disguised
      (.table [("id", .text "a"), ("name", .text "A"), ("prompt", .text "Go"),
        ("tools", .list [])])
      (.table [("id", .text "a"), ("name", .text "A"), ("prompt", .text "Go"),
        ("tools", .list []), ("color", .text "red")]) :=
    .extra _ _ _ (by decide) (by decide) (.text "red")
  have agents : Orchestration.shape.Disguised (.table (agentGraph "start_node" []))
      (.table (agentGraph "start_node" [("color", .text "red")])) := by
    refine @Shape.Disguised.field _ _ _ (.mk "agents" "agents" false (.listOf Agent.shape)) ?_
      [("id", .text "o"), ("name", .text "O")] _ _ (.inr rfl) _ _ (.item [] [] agent)
    exact List.mem_of_getElem? (i := 2) rfl
  have start : Orchestration.shape.Disguised
      (.table (agentGraph "start_node" [("color", .text "red")]))
      (.table (agentGraph "startNode" [("color", .text "red")])) := by
    refine @Shape.Disguised.renamed _ _ _ (.mk "start_node" "startNode" false (.text true)) ?_
      ((agentGraph "" [("color", .text "red")]).take 6) [("outputs", .list [])] (.text "a")
      (by decide)
    exact List.mem_of_getElem? (i := 6) rfl
  have graph : shape.Disguised (.table (agentDocument (agentGraph "start_node" [])))
      (.table (agentDocument (agentGraph "startNode" [("color", .text "red")]))) := by
    refine @Shape.Disguised.field _ _ _
      (.mk "orchestration" "orchestration" false Orchestration.shape) ?_
      [("id", .text "p"), ("name", .text "P"), ("version", .text "1")] [] _ (.inr rfl) _ _
      (agents.trans start)
    exact List.mem_of_getElem? (i := 4) rfl
  exact graph.trans (.reordered _ (.keys (List.reverse_perm _).symm))

theorem disguised_alike_agent :
    (Value.table (agentDocument (agentGraph "start_node" []))).KeysDistinct ∧
      ∃ p q, Project.read (.table (agentDocument (agentGraph "start_node" []))) = .ok p ∧
        Project.read (.table (agentDocument
          (agentGraph "startNode" [("color", .text "red")])).reverse) = .ok q ∧
        Reordered (p.toValue .raw) (q.toValue .raw) ∧
        (Compilation.ofDocument (.table (agentDocument (agentGraph "start_node" [])))).Agrees
          (.ofDocument (.table (agentDocument
            (agentGraph "startNode" [("color", .text "red")])).reverse)) := by
  have distinct : (Value.table (agentDocument (agentGraph "start_node" []))).KeysDistinct := by
    simp [agentDocument, agentGraph]
  refine ⟨distinct, ?_⟩
  rcases disguised_alike distinct agentDocument_disguised with
    ⟨p, q, read, read', same, -, agrees⟩ | ⟨violations, -, refused, -⟩
  · exact ⟨p, q, read, read', same, agrees⟩
  · cases refused

end Project

end Workflow
