import Workflow.Proofs.Lint.FirstFault
import Workflow.Proofs.Service.Writable
import Workflow.Proofs.Spec.Validated

/-!
How a compilation ends. Main statement: a project is made into a service exactly where its
orchestration is sound and its agents and every tool that they refer to can be written out; an
unsound one is refused with its first fault.
-/

namespace Workflow

namespace Project

variable {p : Project}

theorem compile_eq_ok_iff {s : Service} :
    p.compile = .ok s ↔ p.orchestration.Sound ∧ p.build = s := by
  rw [← Orchestration.lint_faults_eq_nil_iff, compile]
  split
  next none => simp [none]
  next fault rest some => simp [some]

theorem compile_eq_error_iff {fault : Fault} :
    p.compile = .error fault ↔ p.orchestration.lint.faults.head? = some fault := by
  rw [compile]
  split
  next none => simp [none]
  next first rest some => simp [some]

theorem compilation_eq_done_iff {s : Service} :
    p.compilation = .done s ↔ p.orchestration.Sound ∧ ¬ p.Unwritable ∧ p.build = s := by
  rw [compilation, and_left_comm, ← compile_eq_ok_iff, ← writeFault?_eq_none_iff]
  cases outcome : p.compile with
  | error fault => simp
  | ok service => cases written : p.writeFault? <;> simp

theorem compilation_of_sound (sound : p.orchestration.Sound) (fits : ¬ p.Unwritable) :
    p.compilation = .done p.build := compilation_eq_done_iff.mpr ⟨sound, fits, rfl⟩

theorem compilation_eq_unwritable_iff {fault : WriteFault} : p.compilation = .unwritable fault ↔
    p.orchestration.Sound ∧ p.writeFault? = some fault := by
  rw [compilation, ← Orchestration.lint_faults_eq_nil_iff, compile]
  cases faults : p.orchestration.lint.faults with
  | nil => cases written : p.writeFault? <;> simp
  | cons fault rest => simp

theorem exists_compilation_eq_unwritable_iff :
    (∃ fault, p.compilation = .unwritable fault) ↔ p.orchestration.Sound ∧ p.Unwritable := by
  simp only [compilation_eq_unwritable_iff, unwritable_iff, exists_and_left]

theorem compilation_eq_refused_iff {fault : Fault} :
    p.compilation = .refused fault ↔ p.orchestration.lint.faults.head? = some fault := by
  rw [compilation, ← compile_eq_error_iff]
  cases outcome : p.compile with
  | error fault => simp
  | ok service => cases written : p.writeFault? <;> simp

end Project

theorem Compilation.ofDocument_of_read {v : Value} {p : Project} (read : Project.read v = .ok p) :
    Compilation.ofDocument v = p.compilation := by
  rw [ofDocument, read]

/-! ## Nested tools -/

/-- A list in a list in a list, and so on. -/
def nestedList : Nat → Value
  | 0 => .null
  | depth + 1 => .list [nestedList depth]

theorem levels_nestedList (depth : Nat) : (nestedList depth).levels = depth + 1 := by
  induction depth with
  | zero => rfl
  | succ depth ih => simp [nestedList, Value.levels, Value.levelsOfItems, ih]

theorem plain_nestedList (depth : Nat) : (nestedList depth).plain = nestedList depth := by
  induction depth with
  | zero => rfl
  | succ depth ih => simp [nestedList, Value.plain, Value.plainItems, ih]

theorem keysDistinct_nestedList (depth : Nat) : (nestedList depth).KeysDistinct := by
  induction depth with
  | zero => exact .null
  | succ depth ih => exact .list (by simpa using ih)

/-- A tool with lists nested in its configuration. -/
def nestedTool (depth : Nat) : Tool :=
  { id := "t", name := "T", kind := .rest, config := [("a", nestedList depth)], auth := none }

theorem levels_nestedTool (depth : Nat) :
    (Value.table (nestedTool depth).config).levels = depth + 2 := by
  simp [nestedTool, Value.levels, Value.levelsOfEntries, levels_nestedList]

/-- One agent that refers to a tool with the id of all the given ones. -/
def nestedProject (depths : List Nat) : Project :=
  { id := "p", name := "P", version := "1", description := none, evaluations := none,
    metadata := none
    orchestration :=
      { id := "o", name := "O", gates := [], edges := [], startNode := "a", outputs := []
        agents := [⟨"a", "A", "Go", ["t"], none, none⟩]
        tools := depths.map nestedTool } }

theorem ofValue?_nestedTool (depth : Nat) :
    Tool.ofValue? ((nestedTool depth).toValue .wire) = some (nestedTool depth) := by
  have config :
      Form.wire.freeTable (nestedTool depth).config = .table (nestedTool depth).config := by
    simp [nestedTool, Value.plain, Value.plainEntries, plain_nestedList]
  rw [Tool.toValue, config]
  rfl

theorem mapM_nestedTool (depths : List Nat) :
    ((depths.map nestedTool).map (Tool.toValue .wire)).mapM Tool.ofValue? =
      some (depths.map nestedTool) := by
  induction depths with
  | nil => rfl
  | cons depth depths ih =>
      rw [List.map_cons, List.map_cons, List.mapM_cons, ofValue?_nestedTool, ih]
      rfl

theorem nestedProject_validated (depths : List Nat) : (nestedProject depths).Validated := by
  refine ⟨(nestedProject depths).toValue .wire, ?_, ?_⟩
  · simp [nestedProject, Project.toValue, Orchestration.toValue, Agent.toValue, nestedTool,
      Tool.toValue, Labelled.toValue, Form.wire_record, Form.setFields, listValue, Value.texts,
      Value.plain, Value.plainEntries, plain_nestedList, keysDistinct_nestedList]
  · have tools : Value.listOf? Tool.ofValue?
        (listValue (Tool.toValue .wire) (depths.map nestedTool)) = some (depths.map nestedTool) :=
      mapM_nestedTool depths
    have graph : Orchestration.ofValue? ((nestedProject depths).orchestration.toValue .wire) =
        (Value.listOf? Tool.ofValue? (listValue (Tool.toValue .wire) (depths.map nestedTool))).bind
          fun tools => some { (nestedProject depths).orchestration with tools } := rfl
    have read : Project.ofValue? ((nestedProject depths).toValue .wire) =
        (Orchestration.ofValue? ((nestedProject depths).orchestration.toValue .wire)).bind
          fun orchestration => some { nestedProject depths with orchestration } := rfl
    rw [Project.read, readAs, read, graph, tools]
    rfl

theorem nestedProject_sound {depths : List Nat} (nonempty : depths ≠ []) :
    (nestedProject depths).orchestration.Sound where
  start := List.mem_cons_self
  tools := by
    intro agent listed id referred
    obtain rfl := List.mem_singleton.mp listed
    obtain rfl := List.mem_singleton.mp referred
    obtain ⟨depth, rest, rfl⟩ := List.exists_cons_of_ne_nil nonempty
    exact List.mem_cons_self
  edges := by
    intro edge listed
    cases listed
  acyclic := by
    intro place loop
    obtain ⟨next, ⟨edge, listed, -⟩, -⟩ := Relation.TransGen.head'_iff.mp loop
    cases listed
  outputs := by
    intro output listed
    cases listed

/-- The last of the tools is the one that counts. -/
theorem tool?_nestedProject (depths : List Nat) (depth : Nat) :
    (nestedProject (depths ++ [depth])).orchestration.tool? "t" = some (nestedTool depth) := by
  simp [Orchestration.tool?, nestedProject, nestedTool]

theorem digitsFit_nestedList (depth : Nat) : (nestedList depth).digitsFit = true := by
  induction depth with
  | zero => rfl
  | succ depth ih => simp [nestedList, ih]

theorem nestedTool_unwritable_iff (depth : Nat) : (nestedTool depth).Unwritable ↔ 255 ≤ depth := by
  have fits : (Value.table (nestedTool depth).config).digitsFit = true := by
    simp [nestedTool, digitsFit_nestedList]
  rw [Tool.Unwritable, levels_nestedTool, levelLimit, fits, or_iff_left Bool.noConfusion]
  omega

theorem nestedProject_unwritable_iff (depths : List Nat) (depth : Nat) :
    (nestedProject (depths ++ [depth])).Unwritable ↔ 255 ≤ depth := by
  have resolved := tool?_nestedProject depths depth
  rw [← nestedTool_unwritable_iff]
  constructor
  · intro unwritable
    obtain ⟨agent, listed, long | ⟨id, referred, tool, found, unwritable⟩⟩ := unwritable
    · obtain rfl := List.mem_singleton.mp listed
      cases long
    · obtain rfl := List.mem_singleton.mp listed
      obtain rfl := List.mem_singleton.mp referred
      obtain rfl := Option.some_inj.mp (found.symm.trans resolved)
      exact unwritable
  · intro unwritable
    exact ⟨_, List.mem_cons_self, .inr ⟨"t", List.mem_cons_self, _, resolved, unwritable⟩⟩

/-! ## Outcomes -/

/-- The service of a project is made exactly where the orchestration is sound and no agent and no
tool in use is too long or too deep to be written out. An unsound orchestration, and no other, is
refused, with the first offender against the first condition that it breaks. -/
theorem Project.compilation_exact (p : Project) :
    ((∃ s, p.compilation = .done s) ↔ p.orchestration.Sound ∧ ¬ p.Unwritable) ∧
      ((∃ fault, p.compilation = .unwritable fault) ↔ p.orchestration.Sound ∧ p.Unwritable) ∧
      (¬ p.orchestration.Sound ↔
        ∃ fault, p.compilation = .refused fault ∧ p.orchestration.FirstFault fault) := by
  refine ⟨?_, exists_compilation_eq_unwritable_iff, ?_⟩
  · simp only [compilation_eq_done_iff, exists_and_left, exists_eq', and_true]
  · rw [← Orchestration.lint_faults_eq_nil_iff]
    simp only [compilation_eq_refused_iff]
    constructor
    · intro faulty
      obtain ⟨fault, rest, faults⟩ := List.exists_cons_of_ne_nil faulty
      have head : p.orchestration.lint.faults.head? = some fault := by rw [faults]; rfl
      exact ⟨fault, head, Orchestration.firstFault_of_lint head⟩
    · intro refused none
      obtain ⟨fault, head, -⟩ := refused
      rw [none] at head
      cases head

/-- A sound orchestration is not always made into a service. -/
theorem sound_not_done : (nestedProject [255]).Validated ∧
    (nestedProject [255]).orchestration.Sound ∧
    ¬ ∃ s, (nestedProject [255]).compilation = .done s := by
  refine ⟨nestedProject_validated [255], nestedProject_sound (List.cons_ne_nil _ _), ?_⟩
  intro made
  obtain ⟨s, done⟩ := made
  have unwritable : (nestedProject [255]).Unwritable :=
    (nestedProject_unwritable_iff [] 255).mpr (Nat.le_refl 255)
  exact (Project.compilation_eq_done_iff.mp done).2.1 unwritable

end Workflow
