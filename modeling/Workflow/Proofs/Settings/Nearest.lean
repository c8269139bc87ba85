import Workflow.Proofs.Settings.Loading

/-!
Which project file governs a directory. The search climbs from the directory to the root and stops
at the first file of the right name. Main statement: that is the file in the deepest directory on
the way, the settings depend on that file and not on where a command runs, and every path that is
set starts at the root or at the directory of the file.
-/

namespace Workflow.Settings

variable {d : Disk} {place dir : Place} {result : Option Path} {path : Path} {settings : Settings}

/-! ## Climbing -/

/-- A search from a place upwards ends with a result. A directory with the name of the file is no
file, so it is passed over. -/
inductive Climbs (d : Disk) : Place → Option Path → Prop
  | found {place : Place} (file : d.isFileAt (place ++ [fileName]) = true) :
      Climbs d place (some ⟨.root, place ++ [fileName]⟩)
  | top (missing : d.isFileAt [fileName] = false) : Climbs d [] none
  | up {place : Place} {name : String} {result : Option Path}
      (missing : d.isFileAt (place ++ [name] ++ [fileName]) = false)
      (above : Climbs d place result) : Climbs d (place ++ [name]) result

theorem climbs_find? (d : Disk) (start : Path) : Climbs d (startPlace d start) (find? d start) := by
  have climbs (names : List String) : Climbs d names.reverse
      ((((placesUp names).map (· ++ [fileName])).find? d.isFileAt).map (⟨.root, ·⟩)) := by
    induction names with
    | nil =>
        cases file : d.isFileAt [fileName] with
        | true => simpa [placesUp, file] using (.found file : Climbs d [] (some ⟨.root, [fileName]⟩))
        | false => simpa [placesUp, file] using Climbs.top file
    | cons name above ih =>
        rw [placesUp, List.map_cons]
        cases file : d.isFileAt ((name :: above).reverse ++ [fileName]) with
        | true =>
            rw [List.find?_cons_of_pos file]
            exact .found file
        | false =>
            rw [List.find?_cons_of_neg (by rw [file]; exact Bool.false_ne_true), List.reverse_cons]
            rw [List.reverse_cons] at file
            exact .up file ih
  have whole := climbs (startPlace d start).reverse
  rwa [List.reverse_reverse] at whole

/-- The deepest of a place and the places above it that holds the file. -/
structure Nearest (d : Disk) (place dir : Place) : Prop where
  above : dir <+: place
  file : d.isFileAt (dir ++ [fileName]) = true
  deepest : ∀ other, other <+: place → d.isFileAt (other ++ [fileName]) = true → other <+: dir

theorem Nearest.unique {dir' : Place} (nearest : Nearest d place dir)
    (nearest' : Nearest d place dir') : dir' = dir :=
  List.Sublist.antisymm (nearest.deepest _ nearest'.above nearest'.file).sublist
    (nearest'.deepest _ nearest.above nearest.file).sublist

/-- What a search ends with: the nearest file, or nothing where there is none. -/
theorem Climbs.ends (climbs : Climbs d place result) :
    (result = none ∧ ∀ dir, dir <+: place → d.isFileAt (dir ++ [fileName]) = false) ∨
      ∃ dir, Nearest d place dir ∧ result = some ⟨.root, dir ++ [fileName]⟩ := by
  induction climbs with
  | @found place file => exact .inr ⟨place, ⟨List.prefix_rfl, file, fun _ above _ => above⟩, rfl⟩
  | top missing =>
      refine .inl ⟨rfl, fun dir above => ?_⟩
      rwa [List.prefix_nil.mp above]
  | @up place name result missing above ih =>
      rcases ih with ⟨rfl, none⟩ | ⟨dir, nearest, rfl⟩
      · refine .inl ⟨rfl, fun dir above => ?_⟩
        rcases List.prefix_concat_iff.mp above with rfl | above
        · exact missing
        · exact none dir above
      · refine .inr ⟨dir, ⟨nearest.above.trans (List.prefix_append _ _), nearest.file, ?_⟩, rfl⟩
        intro other above file
        rcases List.prefix_concat_iff.mp above with rfl | above
        · rw [missing] at file
          cases file
        · exact nearest.deepest other above file

theorem find?_eq_some_iff {start : Path} : find? d start = some path ↔
    ∃ dir, Nearest d (startPlace d start) dir ∧ path = ⟨.root, dir ++ [fileName]⟩ := by
  rcases (climbs_find? d start).ends with ⟨missing, none⟩ | ⟨dir, nearest, found⟩
  · rw [missing]
    refine ⟨nofun, ?_⟩
    rintro ⟨dir, nearest, -⟩
    have file := nearest.file
    rw [none dir nearest.above] at file
    cases file
  · rw [found, Option.some_inj]
    constructor
    · rintro rfl
      exact ⟨dir, nearest, rfl⟩
    · rintro ⟨dir', nearest', rfl⟩
      rw [nearest.unique nearest']

theorem find?_eq_none_iff {start : Path} : find? d start = none ↔
    ∀ dir, dir <+: startPlace d start → d.isFileAt (dir ++ [fileName]) = false := by
  rcases (climbs_find? d start).ends with ⟨missing, none⟩ | ⟨dir, nearest, found⟩
  · exact ⟨fun _ => none, fun _ => missing⟩
  · rw [found]
    refine ⟨nofun, fun none => ?_⟩
    have file := nearest.file
    rw [none dir nearest.above] at file
    cases file

/-- A search ends in one way only. -/
theorem climbs_iff {start : Path} :
    Climbs d (startPlace d start) result ↔ result = find? d start := by
  constructor
  · intro climbs
    rcases climbs.ends with ⟨rfl, none⟩ | ⟨dir, nearest, rfl⟩
    · exact (find?_eq_none_iff.mpr none).symm
    · exact (find?_eq_some_iff.mpr ⟨dir, nearest, rfl⟩).symm
  · rintro rfl
    exact climbs_find? d start

/-! ## Directories that are there -/

/-- Where a path can be followed, names alone lead to the same place. -/
theorem settle_of_follow {names : List String} {from' : Place}
    (found : d.follow from' names = .ok place) : settle from' names = place := by
  induction names generalizing from' with
  | nil => exact Except.ok.inj found
  | cons name names ih =>
      rw [Disk.follow] at found
      rw [settle]
      split at found
      next => cases found
      next => cases found
      next =>
        split at found
        next up =>
          rw [if_pos up]
          exact ih found
        next down =>
          rw [if_neg down]
          split at found
          next => cases found
          next => exact ih found

theorem startPlace_of_place {start : Path} (found : d.place start = .ok place) :
    startPlace d start = place := settle_of_follow found

/-! ## Where a command runs -/

theorem node?_congr {d' : Disk} (same : d'.nodes = d.nodes) : d'.node? = d.node? := by
  funext place
  rw [Disk.node?, Disk.node?, same]

theorem follow_congr {d' : Disk} (same : d'.nodes = d.nodes) (from' : Place) (names : List String) :
    d'.follow from' names = d.follow from' names := by
  induction names generalizing from' with
  | nil => rfl
  | cons name names ih => simp only [Disk.follow, node?_congr same, ih]

/-- An absolute path leads to the same content, wherever a command runs. -/
theorem load_congr {d' : Disk} (same : d'.nodes = d.nodes) (absolute : path.isAbsolute = true) :
    load d' path = load d path := by
  have places : d'.place path = d.place path := by
    rw [Disk.place, Disk.place, if_pos absolute, if_pos absolute]
    exact follow_congr same [] path.names
  have contents : d'.read path = d.read path := by
    rw [Disk.read, Disk.read, Disk.usePlace, Disk.usePlace, places, node?_congr same]
  rw [load, load, contents]

theorem ofDisk_congr {d' : Disk} (same : d'.nodes = d.nodes)
    (found : find? d' .here = find? d .here) : ofDisk d' = ofDisk d := by
  rw [ofDisk, ofDisk, found]
  cases nearest : find? d .here with
  | none => rfl
  | some path =>
      obtain ⟨dir, -, rfl⟩ := find?_eq_some_iff.mp nearest
      exact load_congr same rfl

/-! ## Paths that are set -/

/-- What a text in the project file of a directory stands for: an absolute path stands for itself,
any other one starts at the directory. -/
def pathFrom (dir : Place) (text : String) : Path :=
  if (Path.ofText text).isAbsolute then .ofText text else ⟨.root, dir ++ (Path.ofText text).names⟩

theorem pathFrom_isAbsolute (dir : Place) (text : String) :
    (pathFrom dir text).isAbsolute = true := by
  rw [pathFrom]
  split
  next absolute => exact absolute
  next => rfl

theorem parent_join (dir : Place) (text : String) :
    (Path.parent ⟨.root, dir ++ [fileName]⟩).join (.ofText text) = pathFrom dir text := by
  simp [Path.parent, Path.join, pathFrom]

theorem Sets.unique {document : Entries} {v v' : Value} (sets : Sets document v)
    (sets' : Sets document v') : v' = v := by
  obtain ⟨tools, tool, inside⟩ := sets
  obtain ⟨tools', tool', inside'⟩ := sets'
  rw [tool, Option.some_inj, Value.table.injEq] at tool'
  rw [← tool', inside, Option.some_inj] at inside'
  exact inside'.symm

/-- The document sets a path for a key, to a text. -/
def SetsPath (document : Entries) (key text : String) : Prop :=
  ∃ table, Sets document (.table table) ∧ table.lookup key = some (.text text)

theorem not_setsPath_of_unset {document : Entries} {key text : String} (unset : Unset document) :
    ¬ SetsPath document key text := by
  rintro ⟨table, ⟨tools, tool, inside⟩, -⟩
  rcases unset with none | ⟨tools', tool', none⟩
  · rw [none] at tool
    cases tool
  · rw [tool', Option.some_inj, Value.table.injEq] at tool
    rw [← tool, none] at inside
    cases inside

/-- The settings have the path that the document sets for the key. -/
def HasPath (root : Path) (document : Entries) (key : String) (set : Option Path) : Prop :=
  ∀ p, set = some p ↔ ∃ text, SetsPath document key text ∧ p = root.join (.ofText text)

theorem hasPath_of_path? {root : Path} {document table : Entries} {key : String}
    {set : Option Path} (sets : Sets document (.table table))
    (found : path? root table key = .ok set) : HasPath root document key set := by
  intro p
  have unique {text : String} (other : SetsPath document key text) :
      table.lookup key = some (.text text) := by
    obtain ⟨table', sets', found'⟩ := other
    rwa [← Value.table.inj (sets.unique sets')]
  rcases path?_eq_ok_iff.mp found with ⟨absent, rfl⟩ | ⟨text, listed, rfl⟩
  · refine ⟨nofun, ?_⟩
    rintro ⟨text, other, -⟩
    rw [unique other] at absent
    cases absent
  · rw [Option.some_inj]
    constructor
    · rintro rfl
      exact ⟨text, ⟨table, sets, listed⟩, rfl⟩
    · rintro ⟨text', other, rfl⟩
      rw [unique other, Option.some_inj, Value.text.injEq] at listed
      rw [listed]

theorem hasPath_none {root : Path} {document : Entries} {key : String}
    (none : ∀ text, ¬ SetsPath document key text) : HasPath root document key .none :=
  fun _ => ⟨nofun, fun ⟨text, sets, _⟩ => absurd sets (none text)⟩

/-- The paths of a document are those that its section sets. -/
theorem hasPath_of_ofDocument {root : Path} {document : Entries}
    (set : ofDocument root document = .ok settings) :
    HasPath root document "spec" settings.spec ∧ HasPath root document "output" settings.output := by
  rcases unset_or_sets_or_misplaced document with unset | ⟨v, sets⟩ | misplaced
  · rw [ofDocument_unset unset, Except.ok.injEq] at set
    rw [← set]
    exact ⟨hasPath_none fun _ => not_setsPath_of_unset unset,
      hasPath_none fun _ => not_setsPath_of_unset unset⟩
  · by_cases isTable : ∃ table, v = .table table
    · obtain ⟨table, rfl⟩ := isTable
      rw [ofDocument_table sets] at set
      split at set
      next empty =>
        rw [List.isEmpty_iff] at empty
        rw [Except.ok.injEq] at set
        rw [← set]
        subst empty
        exact ⟨hasPath_of_path? sets rfl, hasPath_of_path? sets rfl⟩
      next =>
        obtain ⟨spec, output, -⟩ := ofSection_eq_ok_iff.mp set
        exact ⟨hasPath_of_path? sets spec, hasPath_of_path? sets output⟩
    · have other (key text : String) : ¬ SetsPath document key text := by
        rintro ⟨table, sets', -⟩
        exact isTable ⟨table, (sets.unique sets').symm⟩
      rw [ofDocument_other sets (not_exists.mp isTable)] at set
      split at set
      next =>
        rw [Except.ok.injEq] at set
        rw [← set]
        exact ⟨hasPath_none (other _), hasPath_none (other _)⟩
      next => cases set
  · obtain ⟨v, refused⟩ := ofDocument_misplaced misplaced root
    rw [refused] at set
    cases set

/-- The project file of a directory sets a path for a key, to a text. -/
def Configures (d : Disk) (dir : Place) (key text : String) : Prop :=
  ∃ content document, d.read ⟨.root, dir ++ [fileName]⟩ = .ok content ∧
    Holds content document ∧ SetsPath document key text

theorem exists_document_of_load (set : load d path = .ok settings) :
    ∃ content document, d.read path = .ok content ∧ Holds content document ∧
      ofDocument path.parent document = .ok settings := by
  simp only [load, Except.andThen_eq_ok_iff, Except.mapError_eq_ok_iff] at set
  obtain ⟨content, read, text, decoded, document, found, set⟩ := set
  exact ⟨content, document, read, ⟨text, decoded, found⟩, set⟩

/-- The path is the one that the nearest project file sets for the key. -/
def Governed (d : Disk) (key : String) (set : Option Path) : Prop :=
  ∀ p, set = some p ↔
    ∃ dir text, Nearest d d.here dir ∧ Configures d dir key text ∧ p = pathFrom dir text

theorem startPlace_here (d : Disk) : startPlace d .here = d.here := rfl

theorem governed_none {key : String} (missing : find? d .here = none) : Governed d key none := by
  refine fun p => ⟨nofun, ?_⟩
  rintro ⟨dir, text, nearest, -⟩
  rw [← startPlace_here] at nearest
  rw [find?_eq_some_iff.mpr ⟨dir, nearest, rfl⟩] at missing
  cases missing

theorem governed_of_hasPath {content : Bytes} {document : Entries} {key : String}
    {set : Option Path} (nearest : Nearest d d.here dir)
    (read : d.read ⟨.root, dir ++ [fileName]⟩ = .ok content) (holds : Holds content document)
    (has : HasPath (Path.parent ⟨.root, dir ++ [fileName]⟩) document key set) :
    Governed d key set := by
  intro p
  rw [has p]
  constructor
  · rintro ⟨text, sets, rfl⟩
    exact ⟨dir, text, nearest, ⟨content, document, read, holds, sets⟩, parent_join dir text⟩
  · rintro ⟨dir', text, nearest', ⟨content', document', read', holds', sets⟩, rfl⟩
    obtain rfl := nearest.unique nearest'
    rw [read, Except.ok.injEq] at read'
    obtain rfl := holds.unique (read' ▸ holds')
    exact ⟨text, sets, (parent_join _ text).symm⟩

theorem governed_of_ofDisk (set : ofDisk d = .ok settings) :
    Governed d "spec" settings.spec ∧ Governed d "output" settings.output := by
  rw [ofDisk] at set
  split at set
  next missing =>
    rw [Except.ok.injEq] at set
    rw [← set]
    exact ⟨governed_none missing, governed_none missing⟩
  next path found =>
    obtain ⟨dir, nearest, rfl⟩ := find?_eq_some_iff.mp found
    obtain ⟨content, document, read, holds, set⟩ := exists_document_of_load set
    exact (hasPath_of_ofDocument set).imp (governed_of_hasPath nearest read holds)
      (governed_of_hasPath nearest read holds)

theorem Governed.isAbsolute {key : String} {set : Option Path} (governed : Governed d key set)
    {p : Path} (found : set = some p) : p.isAbsolute = true := by
  obtain ⟨dir, text, -, -, rfl⟩ := (governed p).mp found
  exact pathFrom_isAbsolute dir text

/-- The search for a project file ends at the file of the deepest directory that holds one, from
the place of a command up to the root, and without a result where there is none. The settings
depend on that file alone and not on where below it a command runs. Each path in them is one that
the file sets: it stands for itself if it is absolute, and else it starts at the file's directory. -/
theorem nearest_governs (d : Disk) :
    (∀ start place, d.place start = .ok place → startPlace d start = place) ∧
    (∀ start result, Climbs d (startPlace d start) result ↔ result = find? d start) ∧
    (∀ start path, find? d start = some path ↔
      ∃ dir, Nearest d (startPlace d start) dir ∧ path = ⟨.root, dir ++ [fileName]⟩) ∧
    (∀ start, find? d start = none ↔
      ∀ dir, dir <+: startPlace d start → d.isFileAt (dir ++ [fileName]) = false) ∧
    (∀ d' : Disk, d'.nodes = d.nodes → find? d' .here = find? d .here → ofDisk d' = ofDisk d) ∧
    ∀ settings, ofDisk d = .ok settings →
      Governed d "spec" settings.spec ∧ Governed d "output" settings.output ∧
      ∀ p, settings.spec = some p ∨ settings.output = some p → p.isAbsolute = true := by
  refine ⟨fun _ _ => startPlace_of_place, fun _ _ => climbs_iff, fun _ _ => find?_eq_some_iff,
    fun _ => find?_eq_none_iff, fun _ => ofDisk_congr, fun settings set => ?_⟩
  obtain ⟨spec, output⟩ := governed_of_ofDisk set
  exact ⟨spec, output, fun p => Or.rec spec.isAbsolute output.isAbsolute⟩

/-- Nodes with a project file in one directory and a directory of that name in the next. -/
def nestedNodes (content : Bytes) : List (Place × Node) :=
  [(["a"], .directory), (["a", fileName], .file content), (["a", "b"], .directory),
    (["a", "b", fileName], .directory)]

/-- A path that is not absolute starts at the project file, two directories up from the command. -/
theorem nearest_governs_nested :
    let content := Utf8.encode "[tool.agentfactory]\nspec = 's.json'"
    let below : Disk := ⟨nestedNodes content, ["a", "b"]⟩
    let beside : Disk := ⟨nestedNodes content, ["a"]⟩
    ofDisk below = ofDisk beside ∧ ∃ settings, ofDisk below = .ok settings ∧
      settings.spec = some ⟨.root, ["a", "s.json"]⟩ := by
  intro content below beside
  have same := (nearest_governs beside).2.2.2.2.1 below rfl rfl
  have read : Toml.read "[tool.agentfactory]\nspec = 's.json'" =
    .ok [("tool", .table [("agentfactory", .table [("spec", .text "s.json")])])] := by rfl
  have file : below.read ⟨.root, ["a", fileName]⟩ = .ok content := rfl
  have found : find? below .here = some ⟨.root, ["a", fileName]⟩ := rfl
  have set : ofDisk below = .ok ⟨some ⟨.root, ["a", "s.json"]⟩, none, false, false,
      some ⟨.root, ["a"]⟩⟩ := by
    rw [ofDisk, found]
    exact (load_of_holds file ⟨_, Utf8.decode_encode _, read⟩).trans (by rfl)
  exact ⟨same, _, set, rfl⟩

end Workflow.Settings
