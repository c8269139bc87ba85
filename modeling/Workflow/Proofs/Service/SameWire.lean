import Workflow.Proofs.Lint.SameGraph
import Workflow.Proofs.Service.Mirror

/-!
Projects with one wire form, up to the order of keys. The parts without free tables are the same and
tools differ in the order of keys only. Main statement: such projects are compiled to services with
one canonical text, refused for the same fault, or kept from being made by the same one.
-/

namespace Workflow

open Value (Reordered)

variable {α : Type}

/-! ## Forms that tell what they were written of -/

/-- What was written can be told from its form, whatever the order of keys. -/
def Telling (write : α → Value) : Prop :=
  ∀ a b, (write a).KeysDistinct → Reordered (write a) (write b) → a = b

namespace Telling

theorem scalar {write : α → Value} (scalar : ∀ a, (write a).Scalar)
    (injective : Function.Injective write) : Telling write :=
  fun a _ _ reordered => injective (reordered.eq_of_scalar (scalar a)).symm

theorem text : Telling Value.text := scalar .text fun _ _ => Value.text.inj

theorem int : Telling Value.int := scalar .int fun _ _ => Value.int.inj

theorem number : Telling Number.toValue := by
  apply scalar
  · intro n
    cases n <;> simp [Number.toValue]
  · intro n m same
    cases n <;> cases m <;> simp_all [Number.toValue]

theorem label [Labelled α] (injective : ∀ a b : α, Labelled.label a = Labelled.label b → a = b) :
    Telling (Labelled.toValue (α := α)) :=
  scalar (fun a => .text (Labelled.label a)) fun a b same => injective a b (Value.text.inj same)

theorem list {write : α → Value} (telling : Telling write) : Telling (listValue write) := by
  intro items others distinct reordered
  have paired := reordered_listValue reordered distinct
  rw [← List.forall₂_eq_eq_eq]
  exact paired.imp fun _ _ both => telling _ _ both.2 both.1

theorem option {write : α → Value} (telling : Telling write) {o o' : Option α}
    (rel : Option.Rel Reordered (o.map write) (o'.map write))
    (distinct : ∀ v ∈ o.map write, v.KeysDistinct) : o = o' := by
  cases o with
  | none =>
      cases o' with
      | none => rfl
      | some b => cases rel
  | some a =>
      cases o' with
      | none => cases rel
      | some b =>
          cases rel with
          | some same => exact congrArg some (telling _ _ (distinct _ rfl) same)

end Telling

/-! ## Fields of wire forms -/

namespace Form

/-- The wire forms of the records are one but for the order of keys, and no name is there twice. -/
structure SameWire (fields others : List (String × Option Value)) : Prop where
  reordered : Reordered (wire.record fields) (wire.record others)
  distinct : (wire.record fields).KeysDistinct
  names : fields.map Prod.fst = others.map Prod.fst
  nodup : (fields.map Prod.fst).Nodup

namespace SameWire

variable {fields others : List (String × Option Value)}

theorem rel (same : SameWire fields others) (key : String) {o o' : Option Value}
    (listed : (key, o) ∈ fields) (listed' : (key, o') ∈ others) : Option.Rel Reordered o o' := by
  have found := same.reordered.lookup same.distinct key
  have first : (wire.entries fields).lookup key = o.or none := lookup_entries same.nodup listed
  have second : (wire.entries others).lookup key = o'.or none :=
    lookup_entries (same.names ▸ same.nodup) listed'
  rw [Option.or_none] at first second
  exact second ▸ first ▸ found

theorem keysDistinct (same : SameWire fields others) (key : String) {o : Option Value}
    (listed : (key, o) ∈ fields) : ∀ v ∈ o, v.KeysDistinct := by
  rintro v rfl
  exact distinct_field same.distinct key listed

theorem told_option (same : SameWire fields others) (key : String) {write : α → Value}
    (telling : Telling write) {o o' : Option α} (listed : (key, o.map write) ∈ fields)
    (listed' : (key, o'.map write) ∈ others) : o = o' :=
  telling.option (same.rel key listed listed') (same.keysDistinct key listed)

theorem told (same : SameWire fields others) (key : String) {write : α → Value}
    (telling : Telling write) {a b : α} (listed : (key, some (write a)) ∈ fields)
    (listed' : (key, some (write b)) ∈ others) : a = b := by
  have alike : some a = some b := same.told_option key telling listed listed'
  exact Option.some_inj.mp alike

end SameWire

end Form

theorem sorted_eq_of_rel {o o' : Option Value} (rel : Option.Rel Reordered o o')
    (distinct : ∀ v ∈ o, v.KeysDistinct) : o.map Value.sorted = o'.map Value.sorted := by
  cases rel with
  | none => rfl
  | some same => exact congrArg some (same.sorted_eq (distinct _ rfl)).1

/-! ## Models without free tables -/

theorem MemoryKind.label_injective (kind other : MemoryKind) :
    Labelled.label kind = Labelled.label other → kind = other := by
  cases kind <;> cases other <;> decide

theorem Retry.label_injective (retry other : Retry) :
    Labelled.label retry = Labelled.label other → retry = other := by
  cases retry <;> cases other <;> decide

theorem Telling.texts : Telling Value.texts := Telling.list Telling.text

theorem Memory.telling : Telling (Memory.toValue .wire) := by
  intro m m' distinct reordered
  have same : Form.SameWire _ _ := ⟨reordered, distinct, rfl, by simp⟩
  have kind : m.kind = m'.kind :=
    same.told "type" (.label MemoryKind.label_injective) (by simp) (by simp)
  have maxTokens : m.maxTokens = m'.maxTokens :=
    same.told_option "maxTokens" .int (by simp) (by simp)
  cases m
  cases m'
  simp_all

theorem Policies.telling : Telling (Policies.toValue .wire) := by
  intro p p' distinct reordered
  have same : Form.SameWire _ _ := ⟨reordered, distinct, rfl, by simp⟩
  have maxIterations : p.maxIterations = p'.maxIterations :=
    same.told_option "maxIterations" .int (by simp) (by simp)
  have timeout : p.timeout = p'.timeout := same.told_option "timeout" .number (by simp) (by simp)
  have retry : p.retry = p'.retry :=
    same.told_option "retryPolicy" (.label Retry.label_injective) (by simp) (by simp)
  cases p
  cases p'
  simp_all

theorem Agent.telling : Telling (Agent.toValue .wire) := by
  intro a a' distinct reordered
  have same : Form.SameWire _ _ := ⟨reordered, distinct, rfl, by simp⟩
  have id : a.id = a'.id := same.told "id" .text (by simp) (by simp)
  have name : a.name = a'.name := same.told "name" .text (by simp) (by simp)
  have prompt : a.prompt = a'.prompt := same.told "prompt" .text (by simp) (by simp)
  have tools : a.tools = a'.tools := same.told "tools" .texts (by simp) (by simp)
  have memory : a.memory = a'.memory :=
    same.told_option "memory" Memory.telling (by simp) (by simp)
  have policies : a.policies = a'.policies :=
    same.told_option "policies" Policies.telling (by simp) (by simp)
  cases a
  cases a'
  simp_all

theorem Edge.telling : Telling (Edge.toValue .wire) := by
  intro e e' distinct reordered
  have same : Form.SameWire _ _ := ⟨reordered, distinct, rfl, by simp⟩
  have id : e.id = e'.id := same.told "id" .text (by simp) (by simp)
  have source : e.source = e'.source := same.told "source" .text (by simp) (by simp)
  have target : e.target = e'.target := same.told "target" .text (by simp) (by simp)
  have condition : e.condition = e'.condition :=
    same.told_option "condition" .text (by simp) (by simp)
  have label : e.label = e'.label := same.told_option "label" .text (by simp) (by simp)
  cases e
  cases e'
  simp_all

/-! ## Orchestrations -/

theorem Gate.id_eq {g h : Gate} (reordered : Reordered (g.toValue .wire) (h.toValue .wire))
    (distinct : (g.toValue .wire).KeysDistinct) : g.id = h.id := by
  have same : Form.SameWire _ _ := ⟨reordered, distinct, rfl, by simp⟩
  exact same.told "id" .text (by simp) (by simp)

/-- The wire forms of the tools are one but for the order of keys. -/
def Tool.SameWire (t u : Tool) : Prop :=
  Reordered (t.toValue .wire) (u.toValue .wire) ∧ (t.toValue .wire).KeysDistinct

namespace Tool.SameWire

variable {t u : Tool}

theorem alike (same : t.SameWire u) : Alike Tool.id (Tool.toValue .wire) t u := by
  have sorted := (same.1.sorted_eq same.2).1
  exact ⟨id_eq_of_sorted_eq sorted, sorted⟩

theorem levels_eq (same : t.SameWire u) :
    (Value.table t.config).levels = (Value.table u.config).levels := by
  have config := (config_reordered same.1 same.2).levels_eq
  rwa [Form.wire_freeTable, Form.wire_freeTable, Value.levels_plain, Value.levels_plain] at config

theorem digitsFit_eq (same : t.SameWire u) :
    (Value.table t.config).digitsFit = (Value.table u.config).digitsFit := by
  rw [← Tool.digitsFit_eq, ← Tool.digitsFit_eq, Bool.eq_iff_iff, same.1.digitsFit_iff]

theorem writeFault?_eq (same : t.SameWire u) : t.writeFault? = u.writeFault? := by
  simp only [writeFault?, Workflow.writeFault?, writable, List.all_cons, List.all_nil,
    Tool.digitsFit_eq, same.levels_eq, same.digitsFit_eq]

end Tool.SameWire

namespace Orchestration

/-- The orchestrations agree in all but the order of keys in their tools. -/
structure SameWire (o o' : Orchestration) : Prop where
  graph : o.SameGraph o'
  tools : List.Forall₂ Tool.SameWire o.tools o'.tools

variable {o o' : Orchestration}

theorem sameWire (reordered : Reordered (o.toValue .wire) (o'.toValue .wire))
    (distinct : (o.toValue .wire).KeysDistinct) : o.SameWire o' := by
  have same : Form.SameWire _ _ := ⟨reordered, distinct, rfl, by simp⟩
  have tools : Reordered (listValue (Tool.toValue .wire) o.tools)
      (listValue (Tool.toValue .wire) o'.tools) :=
    Form.reordered_field reordered distinct (by simp) (by simp) "tools" (by simp) (by simp)
  have gates : Reordered (listValue (Gate.toValue .wire) o.gates)
      (listValue (Gate.toValue .wire) o'.gates) :=
    Form.reordered_field reordered distinct (by simp) (by simp) "gates" (by simp) (by simp)
  have pairedTools := reordered_listValue tools (Form.distinct_field distinct "tools" (by simp))
  have pairedGates := reordered_listValue gates (Form.distinct_field distinct "gates" (by simp))
  refine ⟨?_, pairedTools⟩
  exact
    { agents := same.told "agents" (.list Agent.telling) (by simp) (by simp)
      edges := same.told "edges" (.list Edge.telling) (by simp) (by simp)
      start := same.told "startNode" .text (by simp) (by simp)
      outputs := same.told "outputs" .texts (by simp) (by simp)
      toolIds := by
        rw [toolIds, toolIds, map_eq_map_iff_forall₂]
        exact pairedTools.imp fun _ _ same => (Tool.SameWire.alike same).1
      gateIds := by
        rw [gateIds, gateIds, map_eq_map_iff_forall₂]
        exact pairedGates.imp fun _ _ both => Gate.id_eq both.1 both.2 }

namespace SameWire

theorem rel_tool? (same : o.SameWire o') (id : String) :
    Option.Rel Tool.SameWire (o.tool? id) (o'.tool? id) := by
  rw [tool?, tool?]
  apply rel_find? (List.forall₂_reverse_iff.mpr same.tools)
  intro t u alike
  rw [alike.alike.1]

/-- Where one orchestration has a tool, the other one has one that is alike. -/
theorem toolsAlike (same : o.SameWire o') {id : String} (declared : id ∈ o.toolIds) :
    o.ToolsAlike o' id := by
  obtain ⟨tool, found⟩ := exists_tool?_eq_some declared
  have matched := same.rel_tool? id
  rw [found] at matched
  cases found' : o'.tool? id with
  | none =>
      rw [found'] at matched
      cases matched
  | some tool' =>
      rw [found'] at matched
      cases matched with
      | some alike => exact ⟨tool, tool', found, found', alike.alike⟩

theorem resolved (same : o.SameWire o') (agent : Agent) : List.Forall₂ Tool.SameWire
    (agent.tools.filterMap o.tool?) (agent.tools.filterMap o'.tool?) := by
  refine List.rel_filterMap (R := Eq) ?_ (List.forall₂_refl agent.tools)
  rintro id _ rfl
  exact same.rel_tool? id

theorem usedTools (same : o.SameWire o') :
    List.Forall₂ Tool.SameWire o.usedTools o'.usedTools := by
  rw [Orchestration.usedTools, Orchestration.usedTools, ← same.graph.agents]
  exact forall₂_flatMap (List.forall₂_same.mpr fun agent _ => same.resolved agent)

theorem forall_tools_iff (same : o.SameWire o') {P : Tool → Prop}
    (steady : ∀ t u, Tool.SameWire t u → (P t ↔ P u)) (agent : Agent) :
    (∀ tool ∈ (o.compileAgent agent).tools, P tool) ↔
      ∀ tool ∈ (o'.compileAgent agent).tools, P tool := by
  simp only [compileAgent, mem_sortByKey]
  exact forall_mem_iff_of_forall₂ (same.resolved agent) steady

theorem writeFault?_compileAgent (same : o.SameWire o') (agent : Agent) :
    (o.compileAgent agent).writeFault? = (o'.compileAgent agent).writeFault? := by
  have deep : writable ((o.compileAgent agent).tools.map Tool.config) =
      writable ((o'.compileAgent agent).tools.map Tool.config) := by
    rw [Bool.eq_iff_iff, writable, writable, List.all_map, List.all_map, List.all_eq_true,
      List.all_eq_true]
    exact same.forall_tools_iff (fun t u alike => by simp [alike.levels_eq]) agent
  have long : ((o.compileAgent agent).toValue .wire).digitsFit =
      ((o'.compileAgent agent).toValue .wire).digitsFit := by
    rw [Bool.eq_iff_iff, digitsFit_compileAgent_iff, digitsFit_compileAgent_iff,
      same.forall_tools_iff (fun t u alike => by rw [alike.digitsFit_eq]) agent]
  rw [CompiledAgent.writeFault?, CompiledAgent.writeFault?, writeFault?, writeFault?, deep, long]

end SameWire

end Orchestration

/-! ## Canonical texts -/

namespace Service

variable {s t : Service}

/-- Services with one sorted wire form have one canonical text, or both have none. -/
theorem canonical?_eq_of_sorted_eq (same : s.wire.sorted = t.wire.sorted)
    (writable : s.isWritable = true) (writable' : t.isWritable = true) :
    s.canonical? = t.canonical? := by
  have digits : s.wire.digitsFit = t.wire.digitsFit := by
    rw [Bool.eq_iff_iff, (Reordered.sorted s.wire).digitsFit_iff, same,
      ← (Reordered.sorted t.wire).digitsFit_iff]
  rw [canonical?, canonical?, writable, writable', digits, (canonical_eq_iff s t).mpr same]

end Service

/-! ## Compilations -/

/-- The compilations end in the same way: with the same canonical text or with the same fault. -/
inductive Compilation.Agrees : Compilation → Compilation → Prop
  | done {s t : Service} (canonical : s.canonical = t.canonical)
      (canonical? : s.canonical? = t.canonical?) : Agrees (.done s) (.done t)
  | refused (fault : Fault) : Agrees (.refused fault) (.refused fault)
  | unwritable (fault : WriteFault) : Agrees (.unwritable fault) (.unwritable fault)

theorem Compilation.Agrees.refl (c : Compilation) : c.Agrees c := by
  cases c with
  | done s => exact .done rfl rfl
  | refused fault => exact .refused fault
  | unwritable fault => exact .unwritable fault

namespace Project

variable {p q : Project}

/-- The projects agree in all that a compilation looks at but the order of keys. -/
structure SameWire (p q : Project) : Prop where
  id : p.id = q.id
  name : p.name = q.name
  version : p.version = q.version
  orchestration : p.orchestration.SameWire q.orchestration
  metadata : (p.metadata.map (Metadata.toValue .wire)).map Value.sorted =
    (q.metadata.map (Metadata.toValue .wire)).map Value.sorted

theorem sameWire (reordered : Reordered (p.toValue .wire) (q.toValue .wire))
    (distinct : (p.toValue .wire).KeysDistinct) : p.SameWire q := by
  have same : Form.SameWire _ _ := ⟨reordered, distinct, rfl, by simp⟩
  exact
    { id := same.told "id" .text (by simp) (by simp)
      name := same.told "name" .text (by simp) (by simp)
      version := same.told "version" .text (by simp) (by simp)
      orchestration := Orchestration.sameWire
        (Form.reordered_field reordered distinct (by simp) (by simp) "orchestration" (by simp)
          (by simp))
        (Form.distinct_field distinct "orchestration" (by simp))
      metadata := sorted_eq_of_rel (same.rel "metadata" (by simp) (by simp))
        (same.keysDistinct "metadata" (by simp)) }

namespace SameWire

theorem writeFault? (same : p.SameWire q) : p.writeFault? = q.writeFault? := by
  have tools := findSome?_eq_of_forall₂
    (same.orchestration.usedTools.imp fun _ _ alike => alike.writeFault?_eq)
  have agents : (p.orchestration.agents.map p.orchestration.compileAgent).findSome?
        CompiledAgent.writeFault? =
      (q.orchestration.agents.map q.orchestration.compileAgent).findSome?
        CompiledAgent.writeFault? := by
    rw [← same.orchestration.graph.agents]
    apply findSome?_eq_of_forall₂
    rw [List.forall₂_map_left_iff, List.forall₂_map_right_iff, List.forall₂_same]
    exact fun agent _ => same.orchestration.writeFault?_compileAgent agent
  rw [Project.writeFault?, Project.writeFault?, tools, agents]

theorem wire_sorted_eq (same : p.SameWire q) (sound : p.orchestration.Sound) :
    p.build.wire.sorted = q.build.wire.sorted := by
  have graph := same.orchestration.graph
  have edges : p.orchestration.edges.Perm q.orchestration.edges := .of_eq graph.edges
  have nodes : p.orchestration.topologyNodes.Perm q.orchestration.topologyNodes := by
    rw [Orchestration.topologyNodes, Orchestration.topologyNodes, graph.agentIds, graph.toolIds,
      graph.gateIds]
  have compiled : List.Forall₂ (Alike CompiledAgent.id (CompiledAgent.toValue .wire))
      (p.orchestration.agents.map p.orchestration.compileAgent)
      (q.orchestration.agents.map q.orchestration.compileAgent) := by
    rw [← graph.agents, List.forall₂_map_left_iff, List.forall₂_map_right_iff, List.forall₂_same]
    intro agent listed
    exact Orchestration.compileAgent_alike (.refl agent) edges fun id referred =>
      same.orchestration.toolsAlike (sound.tools agent listed id referred)
  have agents : (listValue (CompiledAgent.toValue .wire) p.build.agents).sorted =
      (listValue (CompiledAgent.toValue .wire) q.build.agents).sorted :=
    sorted_listValue_of_alike (forall₂_alike_sortByKey CompiledAgent.momentless (.refl _) compiled)
  have topology := Orchestration.topology_alike nodes edges
  rw [Service.wire, Service.wire, Service.toValue, Service.toValue]
  apply Form.sorted_record_congr
  simp only [List.map_cons, List.map_nil, Option.map_some, agents]
  simp only [build, topology, same.metadata, same.id, same.name, same.version, graph.start,
    graph.outputs]

theorem agrees (same : p.SameWire q) : p.compilation.Agrees q.compilation := by
  have graph := same.orchestration.graph
  by_cases sound : p.orchestration.Sound
  · have sound' : q.orchestration.Sound := by
      rwa [← Orchestration.lint_faults_eq_nil_iff, ← graph.lint,
        Orchestration.lint_faults_eq_nil_iff]
    cases written : p.writeFault? with
    | some fault =>
        rw [compilation_eq_unwritable_iff.mpr ⟨sound, written⟩,
          compilation_eq_unwritable_iff.mpr ⟨sound', same.writeFault? ▸ written⟩]
        exact .unwritable fault
    | none =>
        have fits := writeFault?_eq_none_iff.mp written
        have fits' := writeFault?_eq_none_iff.mp (same.writeFault? ▸ written)
        have sorted := same.wire_sorted_eq sound
        rw [compilation_of_sound sound fits, compilation_of_sound sound' fits']
        exact .done ((Service.canonical_eq_iff _ _).mpr sorted)
          (Service.canonical?_eq_of_sorted_eq sorted (isWritable_build fits)
            (isWritable_build fits'))
  · rw [← Orchestration.lint_faults_eq_nil_iff] at sound
    obtain ⟨fault, rest, faults⟩ := List.exists_cons_of_ne_nil sound
    have head : p.orchestration.lint.faults.head? = some fault := by rw [faults]; rfl
    rw [compilation_eq_refused_iff.mpr head, compilation_eq_refused_iff.mpr (graph.lint ▸ head)]
    exact .refused fault

end SameWire

end Project

end Workflow
