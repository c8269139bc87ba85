import Workflow.Proofs.Json.Reading
import Workflow.Proofs.Service.Reread

/-!
What the canonical text of a service tells. Main statement: the text is read as the wire form up to
the order of keys, so canonical texts are equal exactly where the wire forms are reordered.
-/

namespace Workflow

open Value (Reordered)

theorem Value.sorted_sorted {v : Value} (distinct : v.KeysDistinct) : v.sorted.sorted = v.sorted :=
  ((Reordered.sorted v).sorted_eq distinct).1.symm

theorem Json.canonical_sorted {v : Value} (distinct : v.KeysDistinct) :
    canonical v.sorted = canonical v := by
  rw [canonical, canonical, Value.sorted_sorted distinct]

theorem Json.read_canonical {v : Value} (readable : v.Readable) (shallow : v.levels ≤ nestingLimit) :
    read (canonical v) = .ok v.sorted := by
  apply read_text compactStyle_spaced readable.sorted
  rwa [← (Reordered.sorted v).levels_eq]

namespace Service

variable {s t : Service}

/-- A free table of the service is too deep to be written out. -/
def TooDeep (s : Service) : Prop :=
  ∃ agent ∈ s.agents, ∃ tool ∈ agent.tools, levelLimit < (Value.table tool.config).levels

theorem isWritable_iff : s.isWritable = true ↔ ¬ s.TooDeep := by
  simp [isWritable, writable, freeTables, TooDeep]

theorem canonical?_eq_some_iff {text : String} : s.canonical? = some text ↔
    ¬ s.TooDeep ∧ s.wire.digitsFit = true ∧ s.canonical = text := by
  rw [← isWritable_iff, canonical?]
  split
  next both =>
    rw [Bool.and_eq_true] at both
    simp [both]
  next neither =>
    rw [Bool.and_eq_true] at neither
    simp only [reduceCtorEq, false_iff]
    exact fun all => neither ⟨all.1, all.2.1⟩

theorem canonical?_eq_none_iff :
    s.canonical? = none ↔ s.TooDeep ∨ s.wire.digitsFit = false := by
  rw [← not_iff_not, ← ne_eq, Option.ne_none_iff_exists']
  simp [canonical?_eq_some_iff]

theorem writeFault?_eq_none_iff :
    s.writeFault? = none ↔ ¬ s.TooDeep ∧ s.wire.digitsFit = true := by
  rw [writeFault?, Workflow.writeFault?_eq_none_iff, ← isWritable_iff]
  rfl

theorem canonical?_eq_none_iff_writeFault? : s.canonical? = none ↔ s.writeFault? ≠ none := by
  rw [canonical?_eq_none_iff, ne_eq, writeFault?_eq_none_iff, not_and_or, not_not,
    Bool.not_eq_true]

theorem canonical?_eq_some_canonical_iff :
    s.canonical? = some s.canonical ↔ s.writeFault? = none := by
  rw [canonical?_eq_some_iff, writeFault?_eq_none_iff, and_iff_left rfl]

theorem Validated.read_canonical (validated : s.Validated) (shallow : ¬ s.TooDeep)
    (digits : s.wire.digitsFit = true) : Json.read s.canonical = .ok s.wire.sorted := by
  apply Json.read_canonical (validated.wire_readable digits)
  have levels : s.wire.levels ≤ levelLimit + 5 := within (isWritable_iff.mpr shallow)
  exact levels.trans (by decide)

/-- Where there is a canonical text, it is read as the wire form up to the order of keys, and what
is read has the same canonical text. So two canonical texts are equal exactly where one wire form
is the other with its keys reordered. -/
theorem canonical_identifies (validated : s.Validated) :
    (s.canonical? = none ↔ s.TooDeep ∨ s.wire.digitsFit = false) ∧
      (∀ text, s.canonical? = some text →
        ∃ v, Json.read text = .ok v ∧ Reordered s.wire v ∧ Json.canonical v = text) ∧
      ∀ t : Service, t.Validated → ∀ text text', s.canonical? = some text →
        t.canonical? = some text' → (text = text' ↔ Reordered s.wire t.wire) := by
  have distinct : s.wire.KeysDistinct := validated.keysDistinct Form.wire_standard
  refine ⟨canonical?_eq_none_iff, ?_, ?_⟩
  · intro text written
    obtain ⟨shallow, digits, rfl⟩ := canonical?_eq_some_iff.mp written
    exact ⟨_, validated.read_canonical shallow digits, .sorted _, Json.canonical_sorted distinct⟩
  · intro t _ text text' written written'
    obtain ⟨-, -, rfl⟩ := canonical?_eq_some_iff.mp written
    obtain ⟨-, -, rfl⟩ := canonical?_eq_some_iff.mp written'
    rw [canonical_eq_iff, Value.reordered_iff_sorted_eq distinct]

/-- An agent with a tool that has lists nested in its configuration. -/
def nested (depth : Nat) : Service :=
  { id := "p", name := "P", version := "1", startAgent := "a", outputs := [], metadata := none
    agents := [⟨"a", "A", "Go", [nestedTool depth], [], none, none⟩]
    topology := ⟨[⟨"a", .agent⟩, ⟨"t", .tool⟩], []⟩ }

theorem nested_validated (depth : Nat) : (nested depth).Validated := by
  refine ⟨(nested depth).toValue .raw, ?_, rfl⟩
  simp [nested, toValue, CompiledAgent.toValue, nestedTool, Tool.toValue, Topology.toValue,
    TopologyNode.toValue, Labelled.toValue, Form.record, Form.raw, Form.freeTable, listValue,
    Value.texts, keysDistinct_nestedList]

theorem nested_tooDeep_iff (depth : Nat) : (nested depth).TooDeep ↔ 255 ≤ depth := by
  have levels := levels_nestedTool depth
  simp only [TooDeep, nested, List.mem_singleton, exists_eq_left, levels, levelLimit]
  omega

theorem canonical_identifies_nested : (nested 0).Validated ∧
    ∃ text v, (nested 0).canonical? = some text ∧ Json.read text = .ok v ∧
      Reordered (nested 0).wire v ∧ Json.canonical v = text := by
  have identifies := canonical_identifies (nested_validated 0)
  have written : (nested 0).canonical? = some (nested 0).canonical := by
    refine canonical?_eq_some_iff.mpr ⟨?_, ?_, rfl⟩
    · rw [nested_tooDeep_iff]
      omega
    · decide
  obtain ⟨v, found⟩ := identifies.2.1 _ written
  exact ⟨nested_validated 0, _, v, written, found⟩

/-- A document may be deeper than what can be written out, and then there is no text to read. -/
theorem nested_not_identified : (nested 255).Validated ∧
    ¬ ∃ text v, (nested 255).canonical? = some text ∧ Json.read text = .ok v ∧
      Reordered (nested 255).wire v := by
  refine ⟨nested_validated 255, ?_⟩
  rintro ⟨text, v, written, -⟩
  have deep : (nested 255).TooDeep := (nested_tooDeep_iff 255).mpr (Nat.le_refl 255)
  exact (canonical?_eq_some_iff.mp written).1 deep

end Service

end Workflow
