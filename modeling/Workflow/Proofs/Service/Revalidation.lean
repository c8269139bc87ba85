import Workflow.Proofs.Service.SameWire

/-!
Projects that are read again, from what they hold or from what is dumped of them. Main statement:
reading again changes nothing, neither the project nor its dumps nor how its compilation ends; and
there is a dump exactly where no free table is too deep to be written out.
-/

namespace Workflow

open Value (Reordered)

/-! ## Forms of dumps -/

namespace Form

/-- The forms in which models are dumped: fields that are not set are `null` or left out. -/
def dumps : List Form := [.full, .wire]

variable {form next : Form}

theorem mem_dumps_iff : form ∈ dumps ↔ form = .full ∨ form = .wire := by
  simp [dumps]

theorem full_standard : full.Standard :=
  { wire_standard with unset := .inr rfl }

theorem standard_of_mem_dumps (listed : form ∈ dumps) : form.Standard := by
  rcases mem_dumps_iff.mp listed with rfl | rfl
  · exact full_standard
  · exact wire_standard

/-- A dump that is read is dumped the same. -/
theorem andThen_of_mem_dumps (listed : form ∈ dumps) (listed' : next ∈ dumps) :
    form.andThen next = next := by
  rcases mem_dumps_iff.mp listed with rfl | rfl <;>
    rcases mem_dumps_iff.mp listed' with rfl | rfl <;>
    exact congrArg (Form.mk _) (funext Value.plain_plain)

theorem andThen_raw (listed : form ∈ dumps) : form.andThen .raw = .full := by
  rcases mem_dumps_iff.mp listed with rfl | rfl <;> rfl

/-- What equal records have in a field. -/
theorem field_eq {fields others : List (String × Option Value)}
    (same : form.record fields = next.record others) (nodup : (fields.map Prod.fst).Nodup)
    (nodup' : (others.map Prod.fst).Nodup) (key : String) {o o' : Option Value}
    (listed : (key, o) ∈ fields) (listed' : (key, o') ∈ others) :
    o.or form.unset = o'.or next.unset := by
  rw [record_eq, record_eq, Value.table.injEq] at same
  have first : (form.entries fields).lookup key = o.or form.unset := lookup_entries nodup listed
  have second : (next.entries others).lookup key = o'.or next.unset :=
    lookup_entries nodup' listed'
  rw [← first, same, second]

theorem value_eq {fields others : List (String × Option Value)}
    (same : form.record fields = next.record others) (nodup : (fields.map Prod.fst).Nodup)
    (nodup' : (others.map Prod.fst).Nodup) (key : String) {v w : Value}
    (listed : (key, some v) ∈ fields) (listed' : (key, some w) ∈ others) : v = w :=
  Option.some_inj.mp (field_eq same nodup nodup' key listed listed')

end Form

/-! ## Depth of dumped tables -/

/-- The levels of a free table. -/
def depth (table : Entries) : Nat := (Value.table table).levels

theorem writable_eq (tables : List Entries) :
    writable tables = (tables.map depth).all (· ≤ levelLimit) := by
  rw [writable, List.all_map]
  rfl

section

variable {α β : Type} {write write' : α → Value}

/-- What depends on the written forms of items alone is the same for lists that are written the
same. -/
theorem map_eq_of_listValue {items others : List α} {f : α → β}
    (same : listValue write items = listValue write' others)
    (each : ∀ a b, write a = write' b → f a = f b) : items.map f = others.map f := by
  have same : items.map write = others.map write' := Value.list.inj same
  rw [map_eq_map_iff_forall₂] at same ⊢
  exact same.imp each

/-- The same of a field that is `null` where it is not set. -/
theorem map_eq_of_or_null {o o' : Option α} {f : α → β} (set : ∀ a, write a ≠ .null)
    (set' : ∀ a, write' a ≠ .null)
    (same : (o.map write).or (some .null) = (o'.map write').or (some .null))
    (each : ∀ a b, write a = write' b → f a = f b) : o.map f = o'.map f := by
  cases o with
  | none =>
      cases o' with
      | none => rfl
      | some b => exact absurd (Option.some_inj.mp same).symm (set' b)
  | some a =>
      cases o' with
      | none => exact absurd (Option.some_inj.mp same) (set a)
      | some b => exact congrArg some (each a b (Option.some_inj.mp same))

end

theorem depth_eq (table table' : Entries)
    (same : Form.raw.freeTable table = Form.full.freeTable table') :
    depth table = depth table' := by
  have plain : Value.table table = (Value.table table').plain := same
  rw [depth, plain, Value.levels_plain, depth]

theorem Tool.depth_eq (t t' : Tool) (same : t.toValue .raw = t'.toValue .full) :
    depth t.config = depth t'.config :=
  Workflow.depth_eq _ _ (Form.value_eq same (by simp) (by simp) "config" (by simp) (by simp))

theorem Orchestration.depths_eq (o o' : Orchestration)
    (same : o.toValue .raw = o'.toValue .full) :
    o.freeTables.map depth = o'.freeTables.map depth := by
  have tools : listValue (Tool.toValue .raw) o.tools = listValue (Tool.toValue .full) o'.tools :=
    Form.value_eq same (by simp) (by simp) "tools" (by simp) (by simp)
  rw [freeTables, freeTables, List.map_map, List.map_map]
  exact map_eq_of_listValue tools Tool.depth_eq

theorem TestCase.depths_eq (c c' : TestCase) (same : c.toValue .raw = c'.toValue .full) :
    c.freeTables.map depth = c'.freeTables.map depth := by
  have set {form : Form} (standard : form.Standard) := Lawful.freeTable.set standard
  have input : depth c.input = depth c'.input :=
    depth_eq _ _ (Form.value_eq same (by simp) (by simp) "input" (by simp) (by simp))
  have output : c.expectedOutput.map depth = c'.expectedOutput.map depth :=
    map_eq_of_or_null (set Form.raw_standard) (set Form.full_standard)
      (Form.field_eq same (by simp) (by simp) "expectedOutput" (by simp) (by simp)) depth_eq
  have metadata : c.metadata.map depth = c'.metadata.map depth :=
    map_eq_of_or_null (set Form.raw_standard) (set Form.full_standard)
      (Form.field_eq same (by simp) (by simp) "metadata" (by simp) (by simp)) depth_eq
  simp only [freeTables, List.map_append, List.map_cons, ← Option.toList_map, input, output,
    metadata]

/-- The levels of the free tables of a suite. -/
def Suite.depths (s : Suite) : List Nat := (s.testCases.flatMap TestCase.freeTables).map depth

theorem Suite.depths_eq (s s' : Suite) (same : s.toValue .raw = s'.toValue .full) :
    s.depths = s'.depths := by
  have cases : listValue (TestCase.toValue .raw) s.testCases =
      listValue (TestCase.toValue .full) s'.testCases :=
    Form.value_eq same (by simp) (by simp) "testCases" (by simp) (by simp)
  rw [depths, depths, List.map_flatMap, List.map_flatMap, List.flatMap_def, List.flatMap_def,
    map_eq_of_listValue cases TestCase.depths_eq]

theorem Project.map_depth_freeTables (p : Project) : p.freeTables.map depth =
    p.orchestration.freeTables.map depth ++
      (p.evaluations.map fun suites => (suites.map Suite.depths).flatten).getD [] := by
  rw [freeTables, List.map_append, List.map_flatMap]
  cases p.evaluations with
  | none => rfl
  | some suites => rw [List.flatMap_def]; rfl

theorem Project.depths_eq (p q : Project) (same : p.toValue .raw = q.toValue .full) :
    p.freeTables.map depth = q.freeTables.map depth := by
  have set (form : Form) (suites : List Suite) : listValue (Suite.toValue form) suites ≠ .null := by
    simp [listValue]
  have graph : p.orchestration.freeTables.map depth = q.orchestration.freeTables.map depth :=
    Orchestration.depths_eq _ _
      (Form.value_eq same (by simp) (by simp) "orchestration" (by simp) (by simp))
  have evaluations : (p.evaluations.map fun suites => (suites.map Suite.depths).flatten) =
      q.evaluations.map fun suites => (suites.map Suite.depths).flatten :=
    map_eq_of_or_null (set .raw) (set .full)
      (Form.field_eq same (by simp) (by simp) "evaluations" (by simp) (by simp))
      fun _ _ same => congrArg List.flatten (map_eq_of_listValue same Suite.depths_eq)
  rw [map_depth_freeTables, map_depth_freeTables, graph, evaluations]

/-! ## Dumps -/

/-- What is written in a form, unless a free table is too deep to be written out. -/
def dumpOf (freeTables : α → List Entries) (write : Form → α → Value) (form : Form) (a : α) :
    Option Value :=
  if writable (freeTables a) then some (write form a) else none

def Project.dump? (form : Form) (p : Project) : Option Value := dumpOf freeTables toValue form p

def Orchestration.dump? (form : Form) (o : Orchestration) : Option Value :=
  dumpOf freeTables toValue form o

section

variable {freeTables : α → List Entries} {shape : Shape} {read : Value → Option α}
  {write : Form → α → Value} {form : Form} {a : α}

theorem dumpOf_eq_none_iff : dumpOf freeTables write form a = none ↔
    ∃ table ∈ freeTables a, levelLimit < (Value.table table).levels := by
  rw [dumpOf, ite_eq_right_iff]
  simp [writable]

/-- A dump is read as something with the same dumps. -/
theorem Modelled.exists_of_dumped (laws : Modelled shape read write)
    (depths : ∀ a b, write .raw a = write .full b →
      (freeTables a).map depth = (freeTables b).map depth)
    {v : Value} (found : read v = some a) (listed : form ∈ Form.dumps) {dump : Value}
    (dumped : dumpOf freeTables write form a = some dump) :
    ∃ b, read dump = some b ∧ write .wire b = write .wire a ∧
      ∀ next ∈ Form.dumps, dumpOf freeTables write next b = dumpOf freeTables write next a := by
  obtain ⟨-, written⟩ := Option.ite_none_right_eq_some.mp dumped
  obtain rfl := Option.some_inj.mp written
  obtain ⟨b, again, same⟩ := laws.lawful.again (Form.standard_of_mem_dumps listed) found
  have dumps (next : Form) (listed' : next ∈ Form.dumps) : write next b = write next a := by
    rw [same, Form.andThen_of_mem_dumps listed listed']
  have raw : write .raw b = write .full a := by
    rw [same, Form.andThen_raw listed]
  refine ⟨b, again, dumps .wire (by simp [Form.dumps]), fun next listed' => ?_⟩
  rw [dumpOf, dumpOf, dumps next listed', writable_eq, writable_eq, depths b a raw]

end

/-! ## Reading again -/

/-- What a project holds: every field under its own name, and `null` where it is not set. -/
def Project.held (p : Project) : Value := shape.rekey .own (p.toValue .raw)

/-- What an orchestration holds: every field under its own name, and `null` where it is not set. -/
def Orchestration.held (o : Orchestration) : Value := shape.rekey .own (o.toValue .raw)

/-- What the checks find in the orchestration of a document. -/
def Verdict.ofDocument (v : Value) : Except (List Violation) Verdict :=
  (Orchestration.read v).map Orchestration.lint

variable {v : Value} {form : Form}

theorem Project.read_held {p : Project} (read : Project.read v = .ok p) :
    Project.read p.held = .ok p := by
  have found := readAs_eq_ok_iff.mp read
  rw [Project.read, readAs_eq_ok_iff, held, modelled.renamed, modelled.restored found]

theorem Orchestration.read_held {o : Orchestration} (read : Orchestration.read v = .ok o) :
    Orchestration.read o.held = .ok o := by
  have found := readAs_eq_ok_iff.mp read
  rw [Orchestration.read, readAs_eq_ok_iff, held, modelled.renamed, modelled.restored found]

theorem Project.exists_of_dumped {p : Project} (distinct : v.KeysDistinct)
    (read : Project.read v = .ok p) (listed : form ∈ Form.dumps) {dump : Value}
    (dumped : p.dump? form = some dump) : ∃ q, Project.read dump = .ok q ∧
      (∀ next ∈ Form.dumps, q.dump? next = p.dump? next) ∧ p.SameWire q := by
  have found := readAs_eq_ok_iff.mp read
  obtain ⟨q, again, wire, dumps⟩ := modelled.exists_of_dumped depths_eq found listed dumped
  refine ⟨q, readAs_eq_ok_iff.mpr again, dumps, sameWire (wire ▸ .refl _) ?_⟩
  exact modelled.lawful.distinct Form.wire_standard distinct found

theorem Orchestration.exists_of_dumped {o : Orchestration} (distinct : v.KeysDistinct)
    (read : Orchestration.read v = .ok o) (listed : form ∈ Form.dumps) {dump : Value}
    (dumped : o.dump? form = some dump) : ∃ o', Orchestration.read dump = .ok o' ∧
      (∀ next ∈ Form.dumps, o'.dump? next = o.dump? next) ∧ o.SameWire o' := by
  have found := readAs_eq_ok_iff.mp read
  obtain ⟨o', again, wire, dumps⟩ := modelled.exists_of_dumped depths_eq found listed dumped
  refine ⟨o', readAs_eq_ok_iff.mpr again, dumps, sameWire (wire ▸ .refl _) ?_⟩
  exact modelled.lawful.distinct Form.wire_standard distinct found

/-- Reading what was read again changes nothing. What a project holds is read as the same project; a
dump exists exactly where no free table is too deep to be written out, and it is read as a project
with the same dumps; and the compilations of the document, of what is held and of the dumps all end
in the same way. The same holds of an orchestration and of what the checks find in it. -/
theorem read_again_unchanged :
    (∀ v p, v.KeysDistinct → Project.read v = .ok p →
      (Project.read p.held = .ok p ∧ (Compilation.ofDocument v).Agrees (.ofDocument p.held)) ∧
      ∀ form ∈ Form.dumps, (p.dump? form = none ↔
          ∃ table ∈ p.freeTables, levelLimit < (Value.table table).levels) ∧
        ∀ dump, p.dump? form = some dump → ∃ q, Project.read dump = .ok q ∧
          (∀ next ∈ Form.dumps, q.dump? next = p.dump? next) ∧
          (Compilation.ofDocument v).Agrees (.ofDocument dump)) ∧
    ∀ v o, v.KeysDistinct → Orchestration.read v = .ok o →
      (Orchestration.read o.held = .ok o ∧ Verdict.ofDocument v = Verdict.ofDocument o.held) ∧
      ∀ form ∈ Form.dumps, (o.dump? form = none ↔
          ∃ table ∈ o.freeTables, levelLimit < (Value.table table).levels) ∧
        ∀ dump, o.dump? form = some dump → ∃ o', Orchestration.read dump = .ok o' ∧
          (∀ next ∈ Form.dumps, o'.dump? next = o.dump? next) ∧
          Verdict.ofDocument v = Verdict.ofDocument dump := by
  constructor
  · intro v p distinct read
    have held := Project.read_held read
    refine ⟨⟨held, ?_⟩, fun form listed => ⟨dumpOf_eq_none_iff, fun dump dumped => ?_⟩⟩
    · rw [Compilation.ofDocument_of_read read, Compilation.ofDocument_of_read held]
      exact .refl _
    · obtain ⟨q, again, same, wire⟩ := Project.exists_of_dumped distinct read listed dumped
      refine ⟨q, again, same, ?_⟩
      rw [Compilation.ofDocument_of_read read, Compilation.ofDocument_of_read again]
      exact wire.agrees
  · intro v o distinct read
    have held := Orchestration.read_held read
    refine ⟨⟨held, ?_⟩,
      fun form listed => ⟨dumpOf_eq_none_iff, fun dump dumped => ?_⟩⟩
    · rw [Verdict.ofDocument, Verdict.ofDocument, read, held]
    · obtain ⟨o', again, same, wire⟩ := Orchestration.exists_of_dumped distinct read listed dumped
      refine ⟨o', again, same, ?_⟩
      rw [Verdict.ofDocument, Verdict.ofDocument, read, again]
      exact congrArg Except.ok wire.graph.lint

/-- An agent with a tool whose configuration holds a NaN, of which a dump makes a `null`. -/
def boundlessProject : Project :=
  { id := "p", name := "P", version := "1", description := none, evaluations := none,
    metadata := none
    orchestration :=
      { id := "o", name := "O", gates := [], edges := [], startNode := "a", outputs := ["a"]
        agents := [⟨"a", "A", "Go", ["t"], some ⟨.ephemeral, none⟩, none⟩]
        tools := [⟨"t", "T", .rest, [("limit", .real .nan)], none⟩] } }

theorem read_again_unchanged_boundless : (boundlessProject.toValue .raw).KeysDistinct ∧
    Project.read boundlessProject.held = .ok boundlessProject ∧
    (∃ dump q, boundlessProject.dump? .wire = some dump ∧ Project.read dump = .ok q ∧
      q.dump? .full = boundlessProject.dump? .full ∧
      (Compilation.ofDocument (boundlessProject.toValue .raw)).Agrees (.ofDocument dump)) ∧
    Verdict.ofDocument (boundlessProject.orchestration.toValue .raw) =
      Verdict.ofDocument boundlessProject.orchestration.held := by
  have distinct : (boundlessProject.toValue .raw).KeysDistinct := by
    simp [boundlessProject, Project.toValue, Orchestration.toValue, Agent.toValue, Memory.toValue,
      Tool.toValue, Labelled.toValue, Form.record, Form.raw, Form.freeTable, listValue,
      Value.texts]
  have graph : (boundlessProject.orchestration.toValue .raw).KeysDistinct :=
    Form.distinct_field distinct "orchestration" (by simp)
  obtain ⟨⟨held, -⟩, dumps⟩ := read_again_unchanged.1 _ boundlessProject distinct rfl
  obtain ⟨q, again, same, agrees⟩ := (dumps .wire (by simp [Form.dumps])).2 _ rfl
  have verdict := (read_again_unchanged.2 _ boundlessProject.orchestration graph rfl).1.2
  exact ⟨distinct, held, ⟨_, q, rfl, again, same .full (by simp [Form.dumps]), agrees⟩, verdict⟩

/-- A project may have a free table that is too deep, and then no dump of it can be read. -/
theorem nested_not_dumped : (nestedProject [255]).Validated ∧ ∀ form ∈ Form.dumps,
    ¬ ∃ dump q, (nestedProject [255]).dump? form = some dump ∧ Project.read dump = .ok q := by
  refine ⟨nestedProject_validated [255], ?_⟩
  rintro form - ⟨dump, q, dumped, -⟩
  have deep : (nestedProject [255]).dump? form = none := by
    rw [Project.dump?, dumpOf_eq_none_iff]
    refine ⟨(nestedTool 255).config, List.mem_cons_self, ?_⟩
    rw [levels_nestedTool]
    decide
  rw [deep] at dumped
  cases dumped

end Workflow
