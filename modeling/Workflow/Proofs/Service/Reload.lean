import Workflow.Proofs.Disk.Store
import Workflow.Proofs.Service.Mirror
import Workflow.Proofs.Text.Utf8
import Workflow.Proofs.Toml.Document
import Workflow.Proofs.Toml.Obstacle
import Workflow.Proofs.Value.Same
import Workflow.Service.Store

/-!
Services that are stored and loaded. Main statement: a service that can be written out is loaded
from JSON with the same canonical text, and from TOML without the nulls of its free tables. One
that cannot be written out is not stored, and the disk stays as it is.
-/

namespace Workflow

open Value (Reordered)

/-! ## Files of documents -/

namespace Document

variable {d : Disk} {path : Path} {format : Format} {text : String}

theorem load_eq_parse (file : d.read path = .ok (Utf8.encode text))
    (suffix : path.format? = some format) : load d path = parse path format text := by
  simp [load, suffix, file, Utf8.decode_encode]

theorem load_json {entries : Entries} (file : d.read path = .ok (Utf8.encode text))
    (suffix : path.format? = some .json) (clean : '\r' ∉ text.toList)
    (found : Json.read text = .ok (.table entries)) : load d path = .ok entries := by
  rw [load_eq_parse file suffix, parse, unifyBreaks_eq_self clean, String.ofList_toList, found]

theorem load_toml {entries : Entries} (file : d.read path = .ok (Utf8.encode text))
    (suffix : path.format? = some .toml) (found : Toml.read text = .ok entries) :
    load d path = .ok entries := by
  rw [load_eq_parse file suffix, parse, found]
  rfl

end Document

namespace Service

variable {s : Service} {d d' : Disk} {path : Path} {indent : Int}

theorem load_eq_ok {entries : Entries} {t : Service} (document : Document.load d path = .ok entries)
    (found : read (.table entries) = .ok t) : load d path = .ok t := by
  rw [load, document]
  simp only [found, Except.mapError_ok]

/-! ## Storing -/

theorem tomlText_eq_ok_iff {text : String} : s.tomlText = .ok text ↔
    Toml.obstacles s.wire.dropNulls = [] ∧
      ∃ entries, s.wire.dropNulls = .table entries ∧ Toml.text entries = text := by
  obtain ⟨entries, isTable⟩ : ∃ entries, s.wire.dropNulls = .table entries := ⟨_, rfl⟩
  have same : s.tomlText = (Toml.write entries).mapError .ofObstacle := by rw [tomlText, isTable]
  rw [same, Except.mapError_eq_ok_iff, Toml.write_eq_ok_iff, isTable]
  simp

theorem exists_obstacle_of_tomlText {fault : ExportFault} (refused : s.tomlText = .error fault) :
    ∃ o ∈ Toml.obstacles s.wire.dropNulls, fault = .ofObstacle o := by
  obtain ⟨entries, isTable⟩ : ∃ entries, s.wire.dropNulls = .table entries := ⟨_, rfl⟩
  rw [tomlText, isTable] at refused
  cases written : Toml.write entries with
  | ok text => simp [written] at refused
  | error o =>
      rw [isTable]
      refine ⟨o, Toml.mem_of_write_eq_error written, ?_⟩
      simpa [written, eq_comm] using refused

theorem exportText_json (shallow : ¬ s.TooDeep) (suffix : path.format? = some .json) (indent : Int) :
    s.exportText path indent = s.ifDigitsFit (s.jsonText indent) := by
  simp [exportText, isWritable_iff.mpr shallow, suffix]

theorem exportText_toml (shallow : ¬ s.TooDeep) (suffix : path.format? = some .toml) (indent : Int) :
    s.exportText path indent = s.tomlText := by
  simp [exportText, isWritable_iff.mpr shallow, suffix]

theorem exportText_none (shallow : ¬ s.TooDeep) (suffix : path.format? = none) (indent : Int) :
    s.exportText path indent = .error (.format path) := by
  simp [exportText, isWritable_iff.mpr shallow, suffix]

theorem exportText_tooDeep (deep : s.TooDeep) (path : Path) (indent : Int) :
    s.exportText path indent = .error .tooDeep := by
  have unwritable : s.isWritable = false := by
    simpa using mt isWritable_iff.mp (not_not.mpr deep)
  simp [exportText, unwritable]

theorem of_exportText {text : String} (exported : s.exportText path indent = .ok text) :
    ¬ s.TooDeep ∧ s.wire.digitsFit = true ∧
      (path.format? = some .json → s.jsonText indent = text) ∧
      (path.format? = some .toml → s.tomlText = .ok text) := by
  have shallow : ¬ s.TooDeep := fun deep => by
    rw [exportText_tooDeep deep] at exported
    cases exported
  refine ⟨shallow, ?_⟩
  rcases suffix : path.format? with _ | _ | _
  · rw [exportText_none shallow suffix] at exported
    cases exported
  · rw [exportText_json shallow suffix, ifDigitsFit] at exported
    split at exported
    next digits => exact ⟨digits, fun _ => Except.ok.inj exported, nofun⟩
    next => cases exported
  · rw [exportText_toml shallow suffix] at exported
    have clear := (tomlText_eq_ok_iff.mp exported).1
    exact ⟨Toml.longInteger_notMem_obstacles_iff.mp (by simp [clear]), nofun, fun _ => exported⟩

theorem exportText_error (unwritable : s.TooDeep ∨ s.wire.digitsFit = false) (path : Path)
    (indent : Int) : ∃ fault, s.exportText path indent = .error fault := by
  cases exported : s.exportText path indent with
  | error fault => exact ⟨fault, rfl⟩
  | ok text =>
      obtain ⟨shallow, digits, -⟩ := of_exportText exported
      rcases unwritable with deep | long
      · exact absurd deep shallow
      · simp [digits] at long

/-- What cannot be written out leaves the disk as it is. -/
theorem exists_fault_of_unwritable (unwritable : s.TooDeep ∨ s.wire.digitsFit = false) (d : Disk)
    (path : Path) (indent : Int) : ∃ fault, s.store d path indent = (d, some fault) := by
  obtain ⟨fault, refused⟩ := exportText_error unwritable path indent
  exact ⟨fault, by rw [store, refused]⟩

theorem store_eq_none_iff : s.store d path indent = (d', none) ↔
    ∃ text, s.exportText path indent = .ok text ∧
      d.store path (Utf8.encode text) = (d', none) := by
  rw [store]
  cases s.exportText path indent with
  | error fault => simp
  | ok text =>
      rcases stored : d.store path (Utf8.encode text) with ⟨d₁, fault⟩
      cases fault <;> simp [stored]

/-- What there is a text of is stored wherever anything is. -/
theorem exists_store_of_exportText {text : String} (exported : s.exportText path indent = .ok text)
    (accepts : d.Accepts path) : ∃ d', s.store d path indent = (d', none) := by
  obtain ⟨d', stored⟩ := accepts.exists_store (Utf8.encode text)
  exact ⟨d', store_eq_none_iff.mpr ⟨text, exported, stored⟩⟩

/-! ## JSON -/

theorem jsonText_eq (s : Service) (indent : Int) : s.jsonText indent =
    String.ofList (Json.print (Json.indentedStyle indent false) 0 s.wire.sorted ++ ['\n']) := by
  rw [String.ofList_append]
  rfl

theorem notMem_jsonText (s : Service) (indent : Int) : '\r' ∉ (s.jsonText indent).toList := by
  have comma : '\r' ∉ (Json.indentedStyle indent false).comma := by simp [Json.indentedStyle]
  have colon : '\r' ∉ (Json.indentedStyle indent false).colon := by simp [Json.indentedStyle]
  have value := Json.notMem_print comma colon s.wire.sorted 0
  rw [jsonText_eq, String.toList_ofList, List.mem_append, not_or]
  exact ⟨value, by decide⟩

theorem Validated.read_jsonText (validated : s.Validated) (shallow : ¬ s.TooDeep)
    (digits : s.wire.digitsFit = true) (indent : Int) :
    Json.read (s.jsonText indent) = .ok s.wire.sorted := by
  have levels : s.wire.levels ≤ levelLimit + 5 := within (isWritable_iff.mpr shallow)
  rw [(Reordered.sorted s.wire).levels_eq] at levels
  rw [jsonText_eq]
  exact Json.read_print (Json.indentedStyle_spaced indent false)
    (validated.wire_readable digits).sorted (levels.trans (by decide))
    (List.forall_mem_singleton.mpr rfl)

/-- The reloaded service has the same text, since its wire form is the same up to the order of
keys. -/
theorem canonical?_of_wire {t : Service} {v : Value} (wires : Reordered v t.wire)
    (distinct : v.KeysDistinct) (digits : v.digitsFit = true) (shallow : ¬ t.TooDeep) :
    t.canonical? = some (Json.canonical v) := by
  refine canonical?_eq_some_iff.mpr ⟨shallow, wires.digitsFit_iff.mp digits, ?_⟩
  rw [canonical, Json.canonical, Json.canonical, (wires.sorted_eq distinct).1]

theorem load_stored_json (validated : s.Validated) (suffix : path.format? = some .json)
    (stored : s.store d path indent = (d', none)) :
    ∃ t, load d' path = .ok t ∧ t.Validated ∧ Mirrors .wire .wire s t ∧
      t.canonical? = some s.canonical ∧ Reordered (s.toValue .full) (t.toValue .raw) := by
  obtain ⟨text, exported, stored⟩ := store_eq_none_iff.mp stored
  obtain ⟨shallow, digits, written⟩ := of_exportText exported
  obtain rfl := written.1 suffix
  have distinct : s.wire.KeysDistinct := validated.keysDistinct Form.wire_standard
  obtain ⟨entries, isTable⟩ := (Reordered.sorted s.wire).eq_table distinct
  obtain ⟨t, found, validated', wires, raws⟩ := validated.exists_read_wire (.sorted s.wire)
  have read := validated.read_jsonText shallow digits indent
  rw [isTable] at found read
  have document := Document.load_json (Disk.read_of_store stored) suffix (notMem_jsonText s indent)
    read
  have mirrors := mirrors wires distinct
  have shallow' : ¬ t.TooDeep :=
    mirrors.not_tooDeep (fun v => (Value.levels_plain v).le) Value.levels_plain shallow
  exact ⟨t, load_eq_ok document found, validated', mirrors,
    canonical?_of_wire wires distinct digits shallow', raws⟩

/-! ## TOML -/

theorem load_stored_toml (validated : s.Validated) (suffix : path.format? = some .toml)
    (stored : s.store d path indent = (d', none)) :
    ∃ t, load d' path = .ok t ∧ t.Validated ∧ Mirrors .bare .wire s t ∧
      s.canonical? = some s.canonical ∧
      t.canonical? = some (Json.canonical (s.toValue .bare)) := by
  obtain ⟨text, exported, stored⟩ := store_eq_none_iff.mp stored
  obtain ⟨shallow, digits, written⟩ := of_exportText exported
  obtain ⟨clear, entries, isTable, rfl⟩ := tomlText_eq_ok_iff.mp (written.2 suffix)
  have readable : s.wire.dropNulls.Readable := (validated.wire_readable digits).dropNulls
  have levels : s.wire.dropNulls.levels ≤ levelLimit + 5 :=
    (Value.levels_dropNulls_le s.wire).trans (within (isWritable_iff.mpr shallow))
  have bare := toValue_bare s
  rw [isTable] at readable levels clear
  have fit : Toml.Fit (.table entries) :=
    { spellable := ⟨readable, Toml.noNull_of_obstacles clear⟩
      shallow := levels.trans (by decide) }
  obtain ⟨others, read, reordered⟩ := Toml.exists_read_text fit
  rw [← isTable] at reordered readable
  obtain ⟨t, found, validated', wires⟩ := validated.exists_read_dropNulls reordered
  rw [← bare] at wires readable
  have document := Document.load_toml (Disk.read_of_store stored) suffix read
  have mirrors : Mirrors .bare .wire s t := mirrors wires readable.distinct
  have shallow' : ¬ t.TooDeep := by
    refine mirrors.not_tooDeep (fun v => ?_) Value.levels_plain shallow
    exact (Value.levels_dropNulls_le v.plain).trans (Value.levels_plain v).le
  exact ⟨t, load_eq_ok document found, validated', mirrors,
    canonical?_eq_some_iff.mpr ⟨shallow, digits, rfl⟩,
    canonical?_of_wire wires readable.distinct readable.digits shallow'⟩

/-! ## Either format -/

/-- A stored service is loaded as one with the same verdict. -/
theorem exists_load_of_store (validated : s.Validated)
    (stored : s.store d path indent = (d', none)) :
    ∃ t, load d' path = .ok t ∧ t.fault? = s.fault? := by
  cases suffix : path.format? with
  | none =>
      obtain ⟨text, exported, -⟩ := store_eq_none_iff.mp stored
      obtain ⟨shallow, -⟩ := of_exportText exported
      simp [exportText, isWritable_iff.mpr shallow, suffix] at exported
  | some format =>
      cases format with
      | json =>
          obtain ⟨t, loaded, -, mirrors, -⟩ := load_stored_json validated suffix stored
          exact ⟨t, loaded, mirrors.fault?_eq⟩
      | toml =>
          obtain ⟨t, loaded, -, mirrors, -⟩ := load_stored_toml validated suffix stored
          exact ⟨t, loaded, mirrors.fault?_eq⟩

end Service

/-! ## Forms that differ in free tables alone -/

section Forms

variable {unset : Option Value} {free free' : Value → Value}

theorem Tool.toValue_congr {t : Tool} (same : free (.table t.config) = free' (.table t.config)) :
    t.toValue ⟨unset, free⟩ = t.toValue ⟨unset, free'⟩ := by
  have config :
      Form.freeTable ⟨unset, free⟩ t.config = Form.freeTable ⟨unset, free'⟩ t.config := same
  rw [toValue, toValue, config]
  rfl

theorem CompiledAgent.toValue_congr {a : CompiledAgent}
    (same : ∀ tool ∈ a.tools, free (.table tool.config) = free' (.table tool.config)) :
    a.toValue ⟨unset, free⟩ = a.toValue ⟨unset, free'⟩ := by
  have tools : a.tools.map (Tool.toValue ⟨unset, free⟩) =
      a.tools.map (Tool.toValue ⟨unset, free'⟩) :=
    List.map_congr_left fun tool listed => Tool.toValue_congr (same tool listed)
  rw [toValue, toValue, listValue, listValue, tools]
  rfl

theorem Service.toValue_congr {s : Service}
    (same : ∀ table ∈ s.freeTables, free (.table table) = free' (.table table)) :
    s.toValue ⟨unset, free⟩ = s.toValue ⟨unset, free'⟩ := by
  have agents : s.agents.map (CompiledAgent.toValue ⟨unset, free⟩) =
      s.agents.map (CompiledAgent.toValue ⟨unset, free'⟩) := by
    apply List.map_congr_left
    intro agent listed
    apply CompiledAgent.toValue_congr
    intro tool among
    exact same tool.config (List.mem_flatMap.mpr ⟨agent, listed, List.mem_map_of_mem among⟩)
  rw [toValue, toValue, listValue, listValue, agents]
  rfl

end Forms

/-! ## Nulls of wire forms -/

theorem Form.nullFree_field {form : Form} {fields : List (String × Option Value)}
    (clean : (form.record fields).NullFree) (key : String) {v : Value}
    (listed : (key, some v) ∈ fields) : v.NullFree := by
  rw [record_eq] at clean
  cases clean with
  | table _ inside => exact inside (key, v) (mem_entries.mpr ⟨some v, listed, rfl⟩)

theorem nullFree_item {α : Type} {write : α → Value} {items : List α}
    (clean : (listValue write items).NullFree) {item : α} (listed : item ∈ items) :
    (write item).NullFree := by
  cases clean with
  | list inside => exact inside _ (List.mem_map_of_mem listed)

namespace Service

variable {s : Service} {d d' : Disk} {path : Path} {indent : Int}

theorem nullFree_freeTables (clean : s.wire.NullFree) :
    ∀ table ∈ s.freeTables, (Value.table table).plain.NullFree := by
  intro table listed
  obtain ⟨agent, among, inside⟩ := List.mem_flatMap.mp listed
  obtain ⟨tool, tools, rfl⟩ := List.mem_map.mp inside
  have agents : (listValue (CompiledAgent.toValue .wire) s.agents).NullFree :=
    Form.nullFree_field clean "agents" (by simp)
  have bindings : (listValue (Tool.toValue .wire) agent.tools).NullFree :=
    Form.nullFree_field (nullFree_item agents among) "tools" (by simp)
  exact Form.nullFree_field (nullFree_item bindings tools) "config" (by simp)

/-- The nulls that TOML leaves out are those of the free tables. -/
theorem canonical_bare_eq_iff (validated : s.Validated) :
    Json.canonical (s.toValue .bare) = s.canonical ↔
      ∀ table ∈ s.freeTables, (Value.table table).plain.NullFree := by
  constructor
  · intro same
    apply nullFree_freeTables
    rw [toValue_bare, canonical, Json.canonical_eq_iff s.momentless.dropNulls s.momentless] at same
    exact (Value.sorted_dropNulls_eq_iff (validated.keysDistinct Form.wire_standard)).mp same
  · intro clean
    have same : s.toValue .bare = s.wire :=
      toValue_congr fun table listed => (clean table listed).dropNulls_eq
    rw [same, canonical]

/-! ## Storing and loading -/

/-- A disk without files, and a path that it accepts. -/
def emptyDisk : Disk := ⟨[], []⟩

def fileNamed (name : String) : Path := ⟨.here, [name]⟩

theorem nested_freeTables (depth : Nat) :
    (nested depth).freeTables = [[("a", nestedList depth)]] := rfl

end Service

end Workflow
