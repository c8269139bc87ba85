import Workflow.Proofs.Text.Breaks
import Workflow.Proofs.Toml.Draft
import Workflow.Proofs.Toml.Statement
import Workflow.Proofs.Value.Matching

/-!
TOML documents that are read back. A table takes its lines first and then the tables and arrays of
tables below it. Main statement: the text of a table is read as the table, up to the order of keys.
-/

namespace Workflow.Toml

open Value (Reordered SameEntry)

variable {d : Draft} {key : Key} {cur : Entries} {put : Entries → Entries}
  {names : List String}

/-! ## Lines -/

/-- The entries that do not stand under headers. -/
def lines (entries : Entries) : Entries := entries.filter (!isSection ·.2)

def sections (entries : Entries) : Entries := entries.filter (isSection ·.2)

theorem printLines_eq (entries : Entries) : printLines entries =
    (lines entries).flatMap fun entry => entryText (printValue 0) entry ++ ['\n'] := rfl

/-- The value can be spelled, and is not too deep to be read. -/
structure Fit (v : Value) : Prop where
  spellable : v.Spellable
  shallow : v.levels ≤ nestingLimit

theorem exists_lines {added : Entries} (fit : ∀ entry ∈ added, Fit entry.2)
    (hosts : d.Hosts key cur put (added.map Prod.fst ++ names)) (header : d.header = key)
    (there : d.root = put cur ∨ added ≠ []) :
    ∃ d', Leads (added.flatMap fun entry => entryText (printValue 0) entry ++ ['\n']) d d' ∧
      d.Gains d' key cur put added := by
  induction added generalizing d cur with
  | nil =>
      refine ⟨d, .refl d, ?_, hosts.settled, .refl _ _ _⟩
      rw [List.append_nil]
      exact there.resolve_right fun some => some rfl
  | cons entry added ih =>
      obtain ⟨name, v⟩ := entry
      rw [List.forall_mem_cons] at fit
      obtain ⟨d', taken, gains, header'⟩ := Draft.exists_add hosts header v
      have spells := spells_printValue fit.1.spellable 0 fit.1.shallow
      have first := leads_entry spells taken
      have hosts' : d'.Hosts key (cur ++ [(name, v)]) put (added.map Prod.fst ++ names) :=
        Draft.Hosts.gains hosts gains
      obtain ⟨d'', later, gains'⟩ := ih fit.2 hosts' header' (.inl gains.root)
      refine ⟨d'', ?_, gains.append gains'⟩
      rw [List.flatMap_cons]
      exact first.append later

/-! ## Tables under headers -/

/-- An empty table takes the entries, whatever its key: their lines, under the table's own header,
and then the blocks of the tables below. Where there is nothing to take the table is there. -/
def Takes (entries : Entries) : Prop :=
  ∀ (d : Draft) (key : Key) (put : Entries → Entries), d.Hosts key [] put (entries.map Prod.fst) →
    (d.header = key ∨ lines entries = []) → (d.root = put [] ∨ entries ≠ []) →
    ∃ d' d'' added, Leads (printLines entries) d d' ∧ (lines entries = [] → d' = d) ∧
      Chain (printSections (dotted key) entries) d' d'' ∧ d.Gains d'' key [] put added ∧
      Reordered (.table entries) (.table added)

theorem any_not_isSection_iff {entries : Entries} :
    entries.any (!isSection ·.2) = true ↔ lines entries ≠ [] := by
  simp only [lines, ne_eq, List.filter_eq_nil_iff, List.any_eq_true, not_forall, not_not,
    exists_prop]

theorem exists_table {entries : Entries} (takes : Takes entries)
    (distinct : (entries.map Prod.fst).Nodup) {name : String}
    (hosts : d.Hosts key cur put (name :: names)) :
    ∃ d' added, Leads (printTable (dotted (key ++ [name])) false (.table entries)) d d' ∧
      d.Gains d' key cur put [(name, .table added)] ∧
      Reordered (.table entries) (.table added) := by
  have named : key ++ [name] ≠ [] := by simp
  by_cases header : entries = [] ∨ lines entries ≠ []
  · obtain ⟨d₁, opened, at', root, marks, inner⟩ := Draft.exists_openTable hosts distinct
    obtain ⟨d₂, d₃, added, leads, -, chain, gains, reordered⟩ :=
      takes d₁ _ _ inner (.inl at') (.inl root)
    have head : printHeader (dotted (key ++ [name])) false entries =
        '[' :: dotted (key ++ [name]) ++ [']', '\n'] := by
      rw [printHeader, if_neg (by simp), if_pos]
      refine ⟨mt dotted_eq_nil_iff.mp named, header.imp_right any_not_isSection_iff.mpr⟩
    refine ⟨d₃, added, ?_, Draft.Gains.ofInner marks gains rfl, reordered⟩
    rw [printTable, head]
    exact leads_joinBlocks ((leads_header named opened).append leads) (by simp) chain
  · rw [not_or, not_not] at header
    obtain ⟨d₁, d₂, added, leads, same, chain, gains, reordered⟩ :=
      takes d _ _ (hosts.inner distinct) (.inr header.2) (.inr header.1)
    have head : printHeader (dotted (key ++ [name])) false entries = [] := by
      rw [printHeader, if_neg (by simp), if_neg]
      rintro ⟨-, rfl | some⟩
      · exact header.1 rfl
      · exact any_not_isSection_iff.mp some header.2
    refine ⟨d₂, added, ?_, Draft.Gains.ofInner (.refl _ _ _) gains rfl, reordered⟩
    rw [printTable, head, List.nil_append]
    exact leads_joinBlocks leads (fun _ => same header.2) chain

theorem exists_array {name : String} {items : List Value}
    (each : ∀ item ∈ items, ∃ entries : Entries, item = .table entries ∧ Takes entries ∧
      (entries.map Prod.fst).Nodup)
    {before : List Value} (hosts : d.HostsArray key cur put name before)
    (there : d.root = put (cur ++ [(name, .list before)]) ∨ items ≠ []) :
    ∃ d' items', Chain (printArray (dotted (key ++ [name])) items) d d' ∧
      d.Gains d' key cur put [(name, .list (before ++ items'))] ∧
      List.Forall₂ Reordered items items' := by
  induction items generalizing d before with
  | nil =>
      refine ⟨d, [], .nil d, ⟨?_, hosts.settled, .refl _ _ _⟩, .nil⟩
      rw [List.append_nil]
      exact there.resolve_right fun some => some rfl
  | cons item items ih =>
      rw [List.forall_mem_cons] at each
      obtain ⟨⟨entries, rfl, takes, distinct⟩, later⟩ := each
      have named : key ++ [name] ≠ [] := by simp
      obtain ⟨d₁, opened, at', root, marks, inner, again⟩ :=
        Draft.exists_openArrayTable hosts distinct
      obtain ⟨d₂, d₃, added, leads, same, chain, gains, reordered⟩ :=
        takes d₁ _ _ inner (.inl at') (.inl root)
      obtain ⟨d₄, items', chain', gains', reordered'⟩ :=
        ih later (again d₃ added gains) (.inl gains.root)
      refine ⟨d₄, .table added :: items', ?_, ⟨?_, gains'.settled, ?_⟩, .cons reordered reordered'⟩
      · rw [printArray, printTable, printHeader, if_pos rfl]
        refine .cons ?_ chain'
        exact leads_joinBlocks ((leads_arrayHeader named opened).append leads) (by simp) chain
      · rw [gains'.root, List.append_assoc, List.singleton_append]
      · exact (marks.inner gains.marks).trans gains'.marks

/-! ## Sections -/

/-- The blocks of an entry that stands under headers of its own. -/
def sectionBlocks (key : Key) (entry : String × Value) : List (List Char) :=
  match entry.2 with
  | .table entries => [printTable (dotted (key ++ [entry.1])) false (.table entries)]
  | .list items => printArray (dotted (key ++ [entry.1])) items
  | _ => []

theorem printSections_cons (key : Key) (entry : String × Value) (entries : Entries) :
    printSections (dotted key) (entry :: entries) =
      (if isSection entry.2 then sectionBlocks key entry else []) ++
        printSections (dotted key) entries := by
  obtain ⟨name, v⟩ := entry
  cases v with
  | list items => rw [printSections, subName_dotted, sectionBlocks]
  | table inner => simp [printSections, subName_dotted, sectionBlocks, isSection]
  | _ => simp [printSections, isSection]

theorem printSections_eq (key : Key) (entries : Entries) :
    printSections (dotted key) entries = (sections entries).flatMap (sectionBlocks key) := by
  induction entries with
  | nil => rfl
  | cons entry entries ih =>
      rw [printSections_cons, ih, sections, sections, List.filter_cons]
      split <;> rfl

/-- A table takes the value under any new name. -/
def Nests (v : Value) : Prop :=
  ∀ (d : Draft) (key : Key) (cur : Entries) (put : Entries → Entries) (name : String)
    (names : List String), d.Hosts key cur put (name :: names) →
    ∃ d' w, Chain (sectionBlocks key (name, v)) d d' ∧ d.Gains d' key cur put [(name, w)] ∧
      Reordered v w

theorem exists_sections {nested : Entries} (each : ∀ entry ∈ nested, Nests entry.2)
    (hosts : d.Hosts key cur put (nested.map Prod.fst))
    (there : d.root = put cur ∨ nested ≠ []) :
    ∃ d' added, Chain (nested.flatMap (sectionBlocks key)) d d' ∧
      d.Gains d' key cur put added ∧ List.Forall₂ SameEntry nested added := by
  induction nested generalizing d cur with
  | nil =>
      refine ⟨d, [], .nil d, ⟨?_, hosts.settled, .refl _ _ _⟩, .nil⟩
      rw [List.append_nil]
      exact there.resolve_right fun some => some rfl
  | cons entry nested ih =>
      obtain ⟨name, v⟩ := entry
      rw [List.forall_mem_cons] at each
      obtain ⟨d', w, chain, gains, reordered⟩ := each.1 d key cur put name _ hosts
      have hosts' : d'.Hosts key (cur ++ [(name, w)]) put (nested.map Prod.fst) :=
        Draft.Hosts.gains hosts gains
      obtain ⟨d'', added, chain', gains', reordered'⟩ := ih each.2 hosts' (.inl gains.root)
      refine ⟨d'', (name, w) :: added, ?_, gains.append gains', .cons ⟨rfl, reordered⟩ reordered'⟩
      rw [List.flatMap_cons]
      exact chain.append chain'

theorem perm_lines_append_sections (entries : Entries) :
    entries.Perm (lines entries ++ sections entries) := by
  have perm := List.filter_append_perm (!isSection ·.2) entries
  simp only [Bool.not_not] at perm
  exact perm.symm

theorem takes_of_nests {entries : Entries} (fit : ∀ entry ∈ entries, Fit entry.2)
    (nests : ∀ entry ∈ sections entries, Nests entry.2) : Takes entries := by
  intro d key put hosts header there
  have perm := perm_lines_append_sections entries
  have fitLines : ∀ entry ∈ lines entries, Fit entry.2 := fun entry member =>
    fit entry (List.mem_of_mem_filter member)
  have hosts' : d.Hosts key [] put
      ((lines entries).map Prod.fst ++ (sections entries).map Prod.fst) := by
    rw [← List.map_append]
    exact hosts.perm (perm.map Prod.fst)
  have whole {added : Entries} (reordered : List.Forall₂ SameEntry (sections entries) added) :
      Reordered (.table entries) (.table (lines entries ++ added)) := by
    refine (Reordered.keys perm).trans (Reordered.table_of_forall₂ ?_)
    exact List.rel_append (List.forall₂_same.mpr fun entry _ => ⟨rfl, .refl _⟩) reordered
  rw [printLines_eq, printSections_eq]
  by_cases none : lines entries = []
  · rw [none] at hosts' whole ⊢
    have some : d.root = put [] ∨ sections entries ≠ [] := by
      refine there.imp_right fun some none' => some ?_
      rw [none, none'] at perm
      exact perm.eq_nil
    obtain ⟨d', added, chain, gains, reordered⟩ := exists_sections nests hosts' some
    exact ⟨d, d', added, .refl d, fun _ => rfl, chain, gains, whole reordered⟩
  · obtain ⟨d', leads, gains⟩ :=
      exists_lines fitLines hosts' (header.resolve_right none) (.inr none)
    obtain ⟨d'', added, chain, gains', reordered⟩ :=
      exists_sections nests (hosts'.gains gains) (.inl gains.root)
    exact ⟨d', d'', _, leads, fun same => absurd same none, chain, gains.append gains',
      whole reordered⟩

/-! ## Whole documents -/

theorem Fit.item {items : List Value} (fit : Fit (.list items)) {item : Value}
    (listed : item ∈ items) : Fit item :=
  ⟨fit.spellable.item listed, (Value.levels_item listed).le.trans fit.shallow⟩

theorem Fit.entry {entries : Entries} (fit : Fit (.table entries)) {entry : String × Value}
    (listed : entry ∈ entries) : Fit entry.2 :=
  ⟨fit.spellable.entry listed, (Value.levels_entry listed).le.trans fit.shallow⟩

/-- A table takes whatever fits it, tables and arrays of tables at any depth. -/
theorem nests_and_takes {v : Value} (fit : Fit v) :
    (isSection v = true → Nests v) ∧ ∀ entries, v = .table entries → Takes entries := by
  induction v using Value.induct with
  | null | bool | int | real | text | moment => exact ⟨nofun, nofun⟩
  | list items ih =>
      refine ⟨fun section' => ?_, nofun⟩
      simp only [isSection, Bool.and_eq_true, List.all_eq_true] at section'
      obtain ⟨⟨some, tables⟩, -⟩ := section'
      have each : ∀ item ∈ items, ∃ entries : Entries, item = .table entries ∧ Takes entries ∧
          (entries.map Prod.fst).Nodup := by
        intro item listed
        have isTable := tables item listed
        have fits := fit.item listed
        cases item with
        | table entries =>
            exact ⟨entries, rfl, (ih _ listed fits).2 entries rfl, fits.spellable.readable.nodup⟩
        | _ => cases isTable
      intro d key cur put name names hosts
      have nonempty : items ≠ [] := fun none => by simp [none] at some
      obtain ⟨d', items', chain, gains, reordered⟩ :=
        exists_array each hosts.array (.inr nonempty)
      exact ⟨d', .list items', chain, gains, .list_of_forall₂ reordered⟩
  | table entries ih =>
      have takes : Takes entries := by
        refine takes_of_nests (fun entry listed => fit.entry listed) fun entry listed => ?_
        obtain ⟨member, isSection⟩ := List.mem_filter.mp listed
        exact (ih entry member (fit.entry member)).1 isSection
      refine ⟨fun _ => ?_, ?_⟩
      · intro d key cur put name names hosts
        obtain ⟨d', added, leads, gains, reordered⟩ :=
          exists_table takes fit.spellable.readable.nodup hosts
        exact ⟨d', .table added, .cons leads (.nil d'), gains, reordered⟩
      · intro entries' same
        obtain rfl := Value.table.inj same
        exact takes

/-! ## Line breaks -/

theorem notMem_dotted (key : Key) : '\r' ∉ dotted key := by
  cases key with
  | nil => exact List.not_mem_nil
  | cons part parts => simp [dotted, notMem_printKey]

theorem printArray_eq_map (name : List Char) (items : List Value) :
    printArray name items = items.map (printTable name true) := by
  induction items with
  | nil => rfl
  | cons item items ih => rw [printArray, ih, List.map_cons]

theorem notMem_printHeader (key : Key) (array : Bool) (entries : Entries) :
    '\r' ∉ printHeader (dotted key) array entries := by
  rw [printHeader]
  split
  · simp [notMem_dotted]
  · split <;> simp [notMem_dotted]

theorem notMem_joinBlocks {head : List Char} {blocks : List (List Char)} (first : '\r' ∉ head)
    (later : ∀ block ∈ blocks, '\r' ∉ block) : '\r' ∉ joinBlocks head blocks := by
  have separator : '\r' ∉ ['\n'] := by decide
  rw [joinBlocks]
  apply notMem_flatten_intersperse separator
  split
  · exact later
  · exact List.forall_mem_cons.mpr ⟨first, later⟩

/-- The text of a table has no carriage return, and neither have those of the tables of a list. -/
theorem notMem_printTable {v : Value} (momentless : v.Momentless) :
    (∀ key array, '\r' ∉ printTable (dotted key) array v) ∧
      ∀ items, v = .list items → ∀ item ∈ items, ∀ key array,
        '\r' ∉ printTable (dotted key) array item := by
  induction momentless with
  | null | bool | int | real | text =>
      exact ⟨fun _ _ => by simp [printTable], nofun⟩
  | @list items inside ih =>
      refine ⟨fun _ _ => by simp [printTable], ?_⟩
      rintro items' same item listed
      obtain rfl := Value.list.inj same
      exact (ih item listed).1
  | @table entries inside ih =>
      refine ⟨fun key array => ?_, nofun⟩
      have blocks : ∀ entry ∈ entries, ∀ block ∈ sectionBlocks key entry, '\r' ∉ block := by
        rintro ⟨name, v⟩ listed block member
        cases v with
        | table inner =>
            obtain rfl := List.mem_singleton.mp member
            exact (ih _ listed).1 _ false
        | list items =>
            simp only [sectionBlocks, printArray_eq_map] at member
            obtain ⟨item, among, rfl⟩ := List.mem_map.mp member
            exact (ih _ listed).2 items rfl item among _ true
        | _ => cases member
      rw [printTable, printSections_eq]
      refine notMem_joinBlocks ?_ ?_
      · rw [List.mem_append, printLines_eq, List.mem_flatMap]
        rintro (header | ⟨entry, listed, member⟩)
        · exact notMem_printHeader key array entries header
        · have value := notMem_printValue (inside entry (List.mem_of_mem_filter listed)) 0
          simp [notMem_entryText value] at member
      · intro block member
        obtain ⟨entry, listed, among⟩ := List.mem_flatMap.mp member
        exact blocks entry (List.mem_of_mem_filter listed) block among

/-! ## The whole document -/

theorem printLines_eq_nil {entries : Entries} (none : printLines entries = []) :
    lines entries = [] := by
  rw [printLines_eq, List.flatMap_eq_nil_iff] at none
  refine List.eq_nil_iff_forall_not_mem.mpr fun entry listed => ?_
  simpa using none entry listed

theorem hosts_empty {names : List String} (distinct : names.Nodup) :
    Draft.empty.Hosts [] [] id names where
  focus := .here []
  settled := rfl
  unfrozen := nofun
  fresh _ _ := ⟨List.not_mem_nil, List.not_mem_nil⟩
  distinct := distinct

theorem readStatements_of_leads {cs : List Char} {d d' : Draft} (leads : Leads cs d d') :
    readStatements (cs.length + 1) d cs = .ok d'.root := by
  obtain ⟨rounds, few, reads⟩ := leads
  have enough : cs.length + 1 = rounds + (cs.length - rounds + 1) := by omega
  have read := reads (cs.length - rounds + 1) []
  rw [List.append_nil] at read
  rw [enough, read]
  rfl

/-- The text of a table is read as the table; keys may come in another order. -/
theorem exists_read_text {entries : Entries} (fit : Fit (.table entries)) :
    ∃ others, read (text entries) = .ok others ∧ Reordered (.table entries) (.table others) := by
  have takes := (nests_and_takes fit).2 entries rfl
  obtain ⟨d, d', added, leads, same, chain, gains, reordered⟩ :=
    takes .empty [] id (hosts_empty fit.spellable.readable.nodup) (.inl rfl) (.inl rfl)
  have head : printHeader [] false entries = [] := by
    rw [printHeader, if_neg (by simp), if_neg (by simp)]
  have whole : Leads (printTable [] false (.table entries)) .empty d' := by
    rw [printTable, head, List.nil_append]
    exact leads_joinBlocks leads (fun none => same (printLines_eq_nil none)) chain
  have joined := joinBreaks_eq_self
    ((notMem_printTable fit.spellable.readable.momentless).1 [] false)
  rw [dotted] at joined
  refine ⟨added, ?_, reordered⟩
  rw [read, text, String.toList_ofList, joined, readStatements_of_leads whole, gains.root]
  rfl

end Workflow.Toml
