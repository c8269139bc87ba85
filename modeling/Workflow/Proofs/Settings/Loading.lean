import Workflow.Proofs.Command.Ending

/-!
Which project files give settings. A file is refused as wrongly configured if it is no TOML, if the
section is no table and not vacant either, or if a key of the section has a value of another kind.
Main statement: which contents are accepted, which contents are not expected and stop a command with
a crash, and that a command says of all others that the configuration is wrong, and exits with 1.
-/

namespace Workflow

open Markup (Bracketless Shows bracketed escape styled)

namespace Settings

variable {root path : Path} {table document : Entries} {key : String} {settings : Settings}
  {fault : SettingsFault} {d : Disk} {content : Bytes}

/-! ## Sections -/

theorem path?_eq_ok_iff {found : Option Path} : path? root table key = .ok found ↔
    table.lookup key = none ∧ found = none ∨
      ∃ s, table.lookup key = some (.text s) ∧ found = some (root.join (.ofText s)) := by
  rw [path?]
  rcases table.lookup key with _ | v
  · simp [eq_comm]
  · cases v <;> simp [eq_comm]

theorem isConfiguration_of_path? (refused : path? root table key = .error fault) :
    fault.isConfiguration = true := by
  rw [path?] at refused
  split at refused <;> cases refused
  rfl

theorem isConfiguration_of_flag (refused : flag table key = .error fault) :
    fault.isConfiguration = true := by
  rw [flag] at refused
  split at refused <;> cases refused
  rfl

theorem ofSection_eq_ok_iff : ofSection root table = .ok settings ↔
    path? root table "spec" = .ok settings.spec ∧ path? root table "output" = .ok settings.output ∧
      flag table "strict" = .ok settings.strict ∧
      flag table "check_ir" = .ok settings.checkService ∧ settings.projectRoot = some root := by
  rw [ofSection]
  simp only [Except.andThen_eq_ok_iff, Except.ok.injEq]
  constructor
  · rintro ⟨spec, hasSpec, output, hasOutput, strict, hasStrict, check, hasCheck, rfl⟩
    exact ⟨hasSpec, hasOutput, hasStrict, hasCheck, rfl⟩
  · rintro ⟨hasSpec, hasOutput, hasStrict, hasCheck, isRoot⟩
    refine ⟨_, hasSpec, _, hasOutput, _, hasStrict, _, hasCheck, ?_⟩
    rw [← isRoot]

theorem isConfiguration_of_ofSection (refused : ofSection root table = .error fault) :
    fault.isConfiguration = true := by
  rw [ofSection] at refused
  simp only [Except.andThen_eq_error_iff, reduceCtorEq, and_false, exists_false, or_false] at refused
  rcases refused with spec | ⟨_, -, output | ⟨_, -, strict | ⟨_, -, check⟩⟩⟩
  · exact isConfiguration_of_path? spec
  · exact isConfiguration_of_path? output
  · exact isConfiguration_of_flag strict
  · exact isConfiguration_of_flag check

/-- Each key of the section that is read has a value of its kind. -/
structure WellTyped (table : Entries) : Prop where
  paths : ∀ key ∈ ["spec", "output"], ∀ v, table.lookup key = some v → ∃ s, v = .text s
  flags : ∀ key ∈ ["strict", "check_ir"], ∀ v, table.lookup key = some v → ∃ b, v = .bool b

theorem exists_path?_iff (root : Path) : (∃ found, path? root table key = .ok found) ↔
    ∀ v, table.lookup key = some v → ∃ s, v = .text s := by
  rw [path?]
  rcases table.lookup key with _ | v
  · simp
  · cases v <;> simp

theorem exists_flag_iff : (∃ b, flag table key = .ok b) ↔
    ∀ v, table.lookup key = some v → ∃ b, v = .bool b := by
  rw [flag]
  rcases table.lookup key with _ | v
  · simp
  · cases v <;> simp

theorem exists_ofSection_iff :
    (∃ settings, ofSection root table = .ok settings) ↔ WellTyped table := by
  constructor
  · rintro ⟨settings, set⟩
    obtain ⟨spec, output, strict, check, -⟩ := ofSection_eq_ok_iff.mp set
    constructor
    · simp only [List.forall_mem_cons]
      exact ⟨(exists_path?_iff root).mp ⟨_, spec⟩, (exists_path?_iff root).mp ⟨_, output⟩, nofun⟩
    · simp only [List.forall_mem_cons]
      exact ⟨exists_flag_iff.mp ⟨_, strict⟩, exists_flag_iff.mp ⟨_, check⟩, nofun⟩
  · rintro ⟨paths, flags⟩
    simp only [List.forall_mem_cons] at paths flags
    obtain ⟨spec, hasSpec⟩ := (exists_path?_iff root).mpr paths.1
    obtain ⟨output, hasOutput⟩ := (exists_path?_iff root).mpr paths.2.1
    obtain ⟨strict, hasStrict⟩ := exists_flag_iff.mpr flags.1
    obtain ⟨check, hasCheck⟩ := exists_flag_iff.mpr flags.2.1
    exact ⟨⟨spec, output, strict, check, some root⟩,
      ofSection_eq_ok_iff.mpr ⟨hasSpec, hasOutput, hasStrict, hasCheck, rfl⟩⟩

/-! ## Documents -/

/-- The document has no section. -/
def Unset (document : Entries) : Prop :=
  document.lookup "tool" = none ∨
    ∃ tools, document.lookup "tool" = some (.table tools) ∧ tools.lookup "agentfactory" = none

/-- The value stands where the document has its section. -/
def Sets (document : Entries) (v : Value) : Prop :=
  ∃ tools, document.lookup "tool" = some (.table tools) ∧ tools.lookup "agentfactory" = some v

/-- Something else stands in the place of the table around the section. -/
def Misplaced (document : Entries) : Prop :=
  ∃ v, document.lookup "tool" = some v ∧ ∀ tools, v ≠ .table tools

/-- A document has no section, or it has one, or there is no place for one. -/
theorem unset_or_sets_or_misplaced (document : Entries) :
    Unset document ∨ (∃ v, Sets document v) ∨ Misplaced document := by
  cases tool : document.lookup "tool" with
  | none => exact .inl (.inl tool)
  | some v =>
      by_cases table : ∃ tools, v = .table tools
      · obtain ⟨tools, rfl⟩ := table
        cases inside : tools.lookup "agentfactory" with
        | none => exact .inl (.inr ⟨tools, tool, inside⟩)
        | some v => exact .inr (.inl ⟨v, tools, tool, inside⟩)
      · exact .inr (.inr ⟨v, tool, not_exists.mp table⟩)

theorem ofDocument_unset (unset : Unset document) :
    ofDocument root document = .ok (.empty (some root)) := by
  rcases unset with none | ⟨tools, tool, none⟩ <;> simp [ofDocument, *]

theorem ofDocument_misplaced (misplaced : Misplaced document) (root : Path) :
    ∃ v, ofDocument root document = .error (.toolNotTable v) := by
  obtain ⟨v, tool, other⟩ := misplaced
  refine ⟨v, ?_⟩
  rw [ofDocument, tool]
  cases v with
  | table tools => exact absurd rfl (other tools)
  | _ => rfl

theorem ofDocument_table (sets : Sets document (.table table)) : ofDocument root document =
    if table.isEmpty then .ok (.empty (some root)) else ofSection root table := by
  obtain ⟨tools, tool, inside⟩ := sets
  simp only [ofDocument, tool, inside]

theorem exists_ofDocument_table (sets : Sets document (.table table)) :
    (∃ settings, ofDocument root document = .ok settings) ↔ WellTyped table := by
  rw [ofDocument_table sets]
  split
  next empty =>
    rw [List.isEmpty_iff] at empty
    subst empty
    exact ⟨fun _ => ⟨nofun, nofun⟩, fun _ => ⟨_, rfl⟩⟩
  next => exact exists_ofSection_iff

/-- A value that is no table sets nothing if it is vacant. -/
theorem ofDocument_other {v : Value} (sets : Sets document v) (other : ∀ table, v ≠ .table table) :
    ofDocument root document =
      if v.isVacant then .ok (.empty (some root)) else .error .sectionNotTable := by
  obtain ⟨tools, tool, inside⟩ := sets
  simp only [ofDocument, tool, inside]

theorem exists_ofDocument_vacant {v : Value} (sets : Sets document v) (vacant : v.isVacant = true) :
    ∃ settings, ofDocument root document = .ok settings := by
  by_cases table : ∃ table, v = .table table
  · obtain ⟨table, rfl⟩ := table
    obtain rfl : table = [] := List.isEmpty_iff.mp vacant
    exact (exists_ofDocument_table sets).mpr ⟨nofun, nofun⟩
  · exact ⟨_, (ofDocument_other sets (not_exists.mp table)).trans (if_pos vacant)⟩

theorem isConfiguration_of_ofDocument (placed : ¬ Misplaced document)
    (refused : ofDocument root document = .error fault) : fault.isConfiguration = true := by
  rcases unset_or_sets_or_misplaced document with unset | ⟨v, sets⟩ | misplaced
  · rw [ofDocument_unset unset] at refused
    cases refused
  · by_cases table : ∃ table, v = .table table
    · obtain ⟨table, rfl⟩ := table
      rw [ofDocument_table sets] at refused
      split at refused
      next => cases refused
      next => exact isConfiguration_of_ofSection refused
    · rw [ofDocument_other sets (not_exists.mp table)] at refused
      split at refused <;> cases refused
      rfl
  · exact absurd misplaced placed

/-! ## Contents of project files -/

/-- The content is the text of a document. -/
def Holds (content : Bytes) (document : Entries) : Prop :=
  ∃ text, Utf8.decode content = .ok text ∧ Toml.read text = .ok document

/-- Contents that give settings. -/
inductive Accepted (content : Bytes) : Prop
  | unset {document : Entries} (holds : Holds content document) (unset : Unset document)
  | table {document table : Entries} (holds : Holds content document)
      (sets : Sets document (.table table)) (typed : WellTyped table)
  | vacant {document : Entries} {v : Value} (holds : Holds content document)
      (sets : Sets document v) (vacant : v.isVacant = true)

/-- Contents that are not told from a fault of the program itself. -/
inductive Unexpected (content : Bytes) : Prop
  | encoding {refusal : Utf8.Refusal} (undecodable : Utf8.decode content = .error refusal)
  | limit {text : String} {refusal : Toml.Refusal} (decoded : Utf8.decode content = .ok text)
      (refused : Toml.read text = .error refusal) (limit : SettingsFault.isLimit refusal = true)
  | misplaced {document : Entries} (holds : Holds content document)
      (misplaced : Misplaced document)

theorem Holds.unique {document' : Entries} (holds : Holds content document)
    (holds' : Holds content document') : document' = document := by
  obtain ⟨text, decoded, read⟩ := holds
  obtain ⟨text', decoded', read'⟩ := holds'
  rw [decoded, Except.ok.injEq] at decoded'
  rw [← decoded', read, Except.ok.injEq] at read'
  exact read'.symm

theorem load_of_holds (found : d.read path = .ok content) (holds : Holds content document) :
    load d path = ofDocument path.parent document := by
  obtain ⟨text, decoded, read⟩ := holds
  simp [load, found, decoded, read]

theorem accepted_iff (holds : Holds content document) (root : Path) :
    Accepted content ↔ ∃ settings, ofDocument root document = .ok settings := by
  constructor
  · rintro (⟨other, unset⟩ | ⟨other, sets, typed⟩ | ⟨other, sets, vacant⟩)
    · exact ⟨_, ofDocument_unset (holds.unique other ▸ unset)⟩
    · exact (exists_ofDocument_table (holds.unique other ▸ sets)).mpr typed
    · exact exists_ofDocument_vacant (holds.unique other ▸ sets) vacant
  · rintro ⟨settings, set⟩
    rcases unset_or_sets_or_misplaced document with unset | ⟨v, sets⟩ | misplaced
    · exact .unset holds unset
    · by_cases table : ∃ table, v = .table table
      · obtain ⟨table, rfl⟩ := table
        exact .table holds sets ((exists_ofDocument_table sets).mp ⟨_, set⟩)
      · rw [ofDocument_other sets (not_exists.mp table)] at set
        split at set
        next vacant => exact .vacant holds sets vacant
        next => cases set
    · obtain ⟨v, refused⟩ := ofDocument_misplaced misplaced root
      rw [refused] at set
      cases set

theorem unexpected_iff (holds : Holds content document) :
    Unexpected content ↔ Misplaced document := by
  refine ⟨?_, .misplaced holds⟩
  obtain ⟨text, decoded, read⟩ := holds
  rintro (undecodable | ⟨decoded', refused, -⟩ | ⟨other, misplaced⟩)
  · rw [decoded] at undecodable
    cases undecodable
  · rw [decoded, Except.ok.injEq] at decoded'
    rw [← decoded', read] at refused
    cases refused
  · exact Holds.unique ⟨text, decoded, read⟩ other ▸ misplaced

/-- What is read of a file, for all contents that it can have. -/
theorem load_cases (found : d.read path = .ok content) :
    (∃ settings, load d path = .ok settings ∧ Accepted content ∧ ¬ Unexpected content) ∨
      ∃ fault, load d path = .error fault ∧ ¬ Accepted content ∧
        (fault.isConfiguration = false ↔ Unexpected content) := by
  by_cases holds : ∃ document, Holds content document
  · obtain ⟨document, holds⟩ := holds
    rw [load_of_holds found holds, accepted_iff holds path.parent, unexpected_iff holds]
    cases read : ofDocument path.parent document with
    | ok settings =>
        refine .inl ⟨settings, rfl, ⟨settings, rfl⟩, fun misplaced => ?_⟩
        obtain ⟨v, refused⟩ := ofDocument_misplaced misplaced path.parent
        rw [read] at refused
        cases refused
    | error fault =>
        refine .inr ⟨fault, rfl, nofun, fun unexpected => ?_, fun misplaced => ?_⟩
        · by_contra placed
          rw [isConfiguration_of_ofDocument placed read] at unexpected
          cases unexpected
        · obtain ⟨v, refused⟩ := ofDocument_misplaced misplaced path.parent
          rw [read, Except.error.injEq] at refused
          rw [refused]
          rfl
  · have unaccepted : ¬ Accepted content := by
      rintro (⟨holds', -⟩ | ⟨holds', -, -⟩ | ⟨holds', -, -⟩) <;> exact holds ⟨_, holds'⟩
    right
    cases decoded : Utf8.decode content with
    | error refusal =>
        exact ⟨.encoding refusal, by simp [load, found, decoded], unaccepted,
          fun _ => .encoding decoded, fun _ => rfl⟩
    | ok text =>
        cases read : Toml.read text with
        | ok document => exact absurd ⟨document, text, decoded, read⟩ holds
        | error refusal =>
            refine ⟨.malformed path refusal, by simp [load, found, decoded, read], unaccepted, ?_⟩
            rw [SettingsFault.isConfiguration, Bool.not_eq_false']
            refine ⟨.limit decoded read, ?_⟩
            rintro (undecodable | ⟨decoded', read', limit⟩ | ⟨holds', -⟩)
            · rw [decoded] at undecodable
              cases undecodable
            · rw [decoded, Except.ok.injEq] at decoded'
              rw [← decoded', read, Except.error.injEq] at read'
              rwa [read']
            · exact absurd ⟨_, holds'⟩ holds

end Settings

/-! ## Commands -/

/-- The command looks at the settings. -/
def Request.readsSettings : Request → Bool
  | .compile .. | .check .. => true
  | .verify _ | .schema .. => false

theorem shows_configurationError (text : String) :
    Shows s!"[red]Configuration error:[/red] {escape text}" := by
  refine shows_reason "Configuration error:" text (by decide) (by decide : Bracketless []) ?_
  simp [styled, bracketed, toString]

/-- What a command does where there are no settings, whatever it is asked for. -/
theorem Request.exists_run_eq_of_fault {d : Disk} {fault : SettingsFault} {request : Request}
    (refused : Settings.ofDisk d = .error fault) (reads : request.readsSettings = true) :
    ∃ shown, Markup.plain s!"[red]Configuration error:[/red] {escape fault.message}" = .ok shown ∧
      request.run d = if fault.isConfiguration then ⟨.exit 1, "", [.line shown], d⟩
        else .crashed d (.settings fault) := by
  obtain ⟨shown, found⟩ := shows_configurationError fault.message
  have failed : Outcome.fail d s!"[red]Configuration error:[/red] {escape fault.message}" =
      ⟨.exit 1, "", [.line shown], d⟩ := by
    rw [Outcome.fail, Outcome.say, found]
    rfl
  refine ⟨shown, found, ?_⟩
  cases request with
  | compile => rw [run, runCompile, withSettings, refused, ← failed]
  | check => rw [run, runCheck, withSettings, refused, ← failed]
  | _ => cases reads

namespace Settings

variable {d : Disk} {path : Path} {content : Bytes}

/-- A disk with a project file in its current directory. -/
def configuredDisk (content : Bytes) : Disk := ⟨[([fileName], .file content)], []⟩

def configuredPath : Path := ⟨.root, [fileName]⟩

theorem read_configuredDisk (content : Bytes) :
    (configuredDisk content).read configuredPath = .ok content := rfl

theorem find?_configuredDisk (content : Bytes) :
    find? (configuredDisk content) .here = some configuredPath := rfl

theorem load_configuredDisk {text : String} {document : Entries}
    (read : Toml.read text = .ok document) :
    load (configuredDisk (Utf8.encode text)) configuredPath = ofDocument ⟨.root, []⟩ document :=
  load_of_holds (read_configuredDisk _) ⟨text, Utf8.decode_encode text, read⟩

end Settings

end Workflow
