import Workflow.Proofs.Disk.Files
import Workflow.Proofs.Service.Reload

/-!
Services that are not exported. What a service holds and the suffix of the path tell whether there
is a text; the disk is not touched before there is one. Main statement: when a service is refused,
for which reason, and that no file changes then.
-/

namespace Workflow

theorem Path.format?_eq_json_iff {path : Path} :
    path.format? = some .json ↔ path.suffix.toLower = ".json" := by
  rw [format?, Format.ofSuffix?]
  split
  next json => simp [json]
  next other => split <;> simp [other]

theorem Path.format?_eq_toml_iff {path : Path} :
    path.format? = some .toml ↔ path.suffix.toLower = ".toml" := by
  rw [format?, Format.ofSuffix?]
  split
  next json => simp [json]
  next => split <;> simp [*]

theorem Path.format?_eq_none_iff {path : Path} : path.format? = none ↔
    path.suffix.toLower ≠ ".json" ∧ path.suffix.toLower ≠ ".toml" := by
  rw [ne_eq, ne_eq, ← format?_eq_json_iff, ← format?_eq_toml_iff]
  rcases path.format? with _ | _ | _ <;> simp

namespace Service

variable {s : Service} {d d' : Disk} {path : Path} {indent : Int} {fault : ExportFault}

/-! ## Texts that there are not -/

theorem wire_ne_null (s : Service) : s.wire ≠ .null := nofun

theorem nullItem_mem_obstacles_wire_iff :
    .nullItem ∈ Toml.obstacles s.wire.dropNulls ↔ s.wire.HoldsNullItem :=
  Toml.nullItem_mem_obstacles_iff.trans (or_iff_right s.wire_ne_null)

/-- A service has no TOML text exactly where a list has a null or an integer is too long. -/
theorem exists_tomlText_iff :
    (∃ text, s.tomlText = .ok text) ↔ s.wire.digitsFit = true ∧ ¬ s.wire.HoldsNullItem := by
  have clear : Toml.obstacles s.wire.dropNulls = [] ↔
      .longInteger ∉ Toml.obstacles s.wire.dropNulls ∧
        .nullItem ∉ Toml.obstacles s.wire.dropNulls := by
    rw [List.eq_nil_iff_forall_not_mem]
    refine ⟨fun none => ⟨none _, none _⟩, fun ⟨long, null⟩ => ?_⟩
    rintro (_ | _)
    · exact null
    · exact long
  rw [← Toml.longInteger_notMem_obstacles_iff, ← nullItem_mem_obstacles_wire_iff, ← clear]
  obtain ⟨entries, isTable⟩ : ∃ entries, s.wire.dropNulls = .table entries := ⟨_, rfl⟩
  exact ⟨fun ⟨text, written⟩ => (tomlText_eq_ok_iff.mp written).1,
    fun clear => ⟨_, tomlText_eq_ok_iff.mpr ⟨clear, entries, isTable, rfl⟩⟩⟩

/-- The reason is one that the service gives. -/
theorem reason_of_tomlText (refused : s.tomlText = .error fault) :
    (fault = .nullItem ∧ s.wire.HoldsNullItem) ∨
      (fault = .tooManyDigits ∧ s.wire.digitsFit = false) := by
  obtain ⟨o, met, rfl⟩ := exists_obstacle_of_tomlText refused
  cases o with
  | nullItem => exact .inl ⟨rfl, nullItem_mem_obstacles_wire_iff.mp met⟩
  | longInteger =>
      have long := mt Toml.longInteger_notMem_obstacles_iff.mpr (not_not_intro met)
      exact .inr ⟨rfl, by simpa using long⟩

theorem tomlText_of_holdsNullItem (holds : s.wire.HoldsNullItem) (digits : s.wire.digitsFit = true) :
    s.tomlText = .error .nullItem := by
  cases written : s.tomlText with
  | ok text => exact absurd holds (exists_tomlText_iff.mp ⟨text, written⟩).2
  | error fault =>
      rcases reason_of_tomlText written with ⟨rfl, -⟩ | ⟨-, long⟩
      · rfl
      · rw [digits] at long
        cases long

theorem tomlText_of_long (long : s.wire.digitsFit = false) : s.tomlText = .error .tooManyDigits ∨
    s.tomlText = .error .nullItem ∧ s.wire.HoldsNullItem := by
  cases written : s.tomlText with
  | ok text =>
      rw [(exists_tomlText_iff.mp ⟨text, written⟩).1] at long
      cases long
  | error fault =>
      rcases reason_of_tomlText written with ⟨rfl, holds⟩ | ⟨rfl, -⟩
      · exact .inr ⟨rfl, holds⟩
      · exact .inl rfl

theorem exists_exportText (shallow : ¬ s.TooDeep) (digits : s.wire.digitsFit = true)
    (suffix : path.suffix.toLower = ".json" ∨
      path.suffix.toLower = ".toml" ∧ ¬ s.wire.HoldsNullItem) (indent : Int) :
    ∃ text, s.exportText path indent = .ok text := by
  rcases suffix with json | ⟨toml, clear⟩
  · rw [exportText_json shallow (Path.format?_eq_json_iff.mpr json), ifDigitsFit, if_pos digits]
    exact ⟨_, rfl⟩
  · rw [exportText_toml shallow (Path.format?_eq_toml_iff.mpr toml)]
    exact exists_tomlText_iff.mpr ⟨digits, clear⟩

/-! ## Stores that fail -/

theorem store_of_exportText_error (refused : s.exportText path indent = .error fault) (d : Disk) :
    s.store d path indent = (d, some fault) := by
  rw [store, refused]

/-- Once there is a text, only the disk refuses it. -/
theorem store_eq_some_iff {text : String} (exported : s.exportText path indent = .ok text) :
    (s.store d path indent).2 = some fault ↔
      ∃ problem, fault = .disk problem ∧ d.Blocks path problem := by
  rw [store, exported]
  simp only [Option.map_eq_some_iff, Disk.store_eq_some_iff]
  exact exists_congr fun problem => and_comm.trans (and_congr_left' eq_comm)

theorem sameFiles_of_store (refused : s.store d path indent = (d', some fault)) :
    d.SameFiles d' := by
  rw [store] at refused
  split at refused
  next =>
    cases refused
    exact .refl d
  next text _ =>
    rcases stored : d.store path (Utf8.encode text) with ⟨d₁, problem⟩
    rw [stored] at refused
    cases problem with
    | none => cases refused
    | some problem =>
        cases refused
        exact Disk.sameFiles_of_store stored

end Service

end Workflow
