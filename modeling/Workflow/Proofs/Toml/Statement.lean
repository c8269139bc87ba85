import Workflow.Proofs.Toml.Value

/-!
Statements that are read back: headers and entries, each on a line of its own, and blocks of them
with empty lines between. What they do to a document is what the draft does with them.
-/

namespace Workflow.Toml

variable {text rest : List Char} {d d' d'' : Draft} {key : Key}

/-! ## Statements -/

/-- Reading the text, whatever follows it, leads from one draft to the other. -/
def Leads (text : List Char) (d d' : Draft) : Prop :=
  ∃ rounds ≤ text.length, ∀ fuel rest,
    readStatements (rounds + fuel) d (text ++ rest) = readStatements fuel d' rest

theorem Leads.refl (d : Draft) : Leads [] d d :=
  ⟨0, Nat.le_refl 0, fun fuel rest => by rw [Nat.zero_add, List.nil_append]⟩

theorem Leads.append {more : List Char} (first : Leads text d d') (later : Leads more d' d'') :
    Leads (text ++ more) d d'' := by
  obtain ⟨rounds, few, reads⟩ := first
  obtain ⟨rounds', few', reads'⟩ := later
  refine ⟨rounds + rounds', by rw [List.length_append]; omega, fun fuel rest => ?_⟩
  rw [Nat.add_assoc, List.append_assoc, reads, reads']

theorem leads_break (d : Draft) : Leads ['\n'] d d :=
  ⟨1, Nat.le_refl 1, fun fuel rest => by rw [Nat.add_comm]; rfl⟩

/-- A statement with a line to itself. -/
theorem leads_line {c : Char} {line : List Char} (visible : isBlankOrBreak c = false)
    (read : ∀ rest, readStatement d (c :: line ++ '\n' :: rest) = .ok (d', '\n' :: rest)) :
    Leads (c :: line ++ ['\n']) d d' := by
  refine ⟨1, by simp, fun fuel rest => ?_⟩
  simp only [isBlankOrBreak, Bool.or_eq_false_iff, beq_eq_false_iff_ne, ne_eq] at visible
  have split : c :: line ++ ['\n'] ++ rest = c :: line ++ '\n' :: rest := by simp
  have passed : skipBlanks (c :: line ++ '\n' :: rest) = c :: line ++ '\n' :: rest :=
    skipBlanks_cons _ visible.1
  have ended : skipBlanks ('\n' :: rest) = '\n' :: rest := rfl
  have noComment : skipComment ('\n' :: rest) = .ok ('\n' :: rest) := rfl
  rw [split, Nat.add_comm, readStatements, passed]
  split
  next same => cases same
  next same => exact absurd (List.cons.inj same).1 visible.2
  next =>
    rw [read]
    simp only [Except.ok_andThen, ended, noComment]

theorem exists_dotted_eq_cons (nonempty : key ≠ []) :
    ∃ c more, dotted key = c :: more ∧ startsKey c = true := by
  obtain ⟨part, parts, rfl⟩ := List.exists_cons_of_ne_nil nonempty
  obtain ⟨c, more, isCons, starts⟩ := exists_printKey_eq_cons part
  exact ⟨c, _, by rw [dotted, isCons, List.cons_append], starts⟩

theorem leads_header (nonempty : key ≠ []) (opened : d.openTable key = .ok d') :
    Leads ('[' :: dotted key ++ [']', '\n']) d d' := by
  have split : '[' :: dotted key ++ [']', '\n'] = '[' :: (dotted key ++ [']']) ++ ['\n'] := by simp
  rw [split]
  apply leads_line rfl
  intro rest
  have ends : EndsKeys (']' :: '\n' :: rest) := endsKeys_cons _ rfl (by decide) rfl
  have header : readHeader false d (dotted key ++ ']' :: '\n' :: rest) =
      .ok (d', '\n' :: rest) := by
    rw [readHeader, skipBlanks_dotted nonempty, readKey_dotted nonempty ends]
    simp only [Except.ok_andThen, Bool.false_eq_true, if_false, opened, placed, Except.mapError_ok]
  obtain ⟨c, more, isCons, starts⟩ := exists_dotted_eq_cons nonempty
  simp only [List.cons_append, List.append_assoc, List.nil_append]
  rw [readStatement, header]
  intro tail same
  rw [isCons] at same
  rw [(List.cons.inj same).1] at starts
  cases starts

theorem leads_arrayHeader (nonempty : key ≠ []) (opened : d.openArrayTable key = .ok d') :
    Leads ('[' :: '[' :: dotted key ++ [']', ']', '\n']) d d' := by
  have split : '[' :: '[' :: dotted key ++ [']', ']', '\n'] =
      '[' :: ('[' :: dotted key ++ [']', ']']) ++ ['\n'] := by simp
  rw [split]
  apply leads_line rfl
  intro rest
  have ends : EndsKeys (']' :: ']' :: '\n' :: rest) := endsKeys_cons _ rfl (by decide) rfl
  have header : readHeader true d (dotted key ++ ']' :: ']' :: '\n' :: rest) =
      .ok (d', '\n' :: rest) := by
    rw [readHeader, skipBlanks_dotted nonempty, readKey_dotted nonempty ends]
    simp only [Except.ok_andThen, if_true, opened, placed, Except.mapError_ok]
  simp only [List.cons_append, List.append_assoc, List.nil_append]
  rw [readStatement, header]

theorem leads_entry {name : String} {value : List Char} {v : Value}
    (spells : Spells (readValue nestingLimit) value v) (added : d.add [name] v = .ok d') :
    Leads (equation name value ++ ['\n']) d d' := by
  obtain ⟨c, more, isCons, starts⟩ := exists_printKey_eq_cons name
  have visible : isBlankOrBreak c = false := by
    have blank := isBlank_of_startsKey starts
    have other : c ≠ '\n' := by
      rintro rfl
      cases starts
    simp [isBlankOrBreak, blank, other]
  have others : c ≠ '[' ∧ c ≠ '#' := by
    constructor <;> rintro rfl <;> cases starts
  have read (rest : List Char) : readStatement d (equation name value ++ '\n' :: rest) =
      .ok (d', '\n' :: rest) := by
    have ends : EndsValue ('\n' :: rest) := ⟨'\n', rest, rfl, .inr (.inr rfl)⟩
    have entry := readEntry_equation name spells ends
    rw [equation, isCons] at entry ⊢
    simp only [List.cons_append] at entry ⊢
    rw [readStatement, if_pos starts, entry]
    · simp only [Except.ok_andThen, added, placed, Except.mapError_ok]
    · exact fun tail same => absurd same others.1
    · exact others.1
    · exact others.2
  rw [equation, isCons] at read ⊢
  exact leads_line visible read

/-! ## Blocks -/

/-- The blocks lead from one draft to the next. -/
inductive Chain : List (List Char) → Draft → Draft → Prop
  | nil (d : Draft) : Chain [] d d
  | cons {block : List Char} {blocks : List (List Char)} {d d' d'' : Draft}
      (first : Leads block d d') (later : Chain blocks d' d'') : Chain (block :: blocks) d d''

theorem Chain.append {blocks more : List (List Char)} (first : Chain blocks d d')
    (later : Chain more d' d'') : Chain (blocks ++ more) d d'' := by
  induction first with
  | nil d => exact later
  | cons block _ ih => exact .cons block (ih later)

/-- Empty lines between blocks lead nowhere. -/
theorem Chain.leads {blocks : List (List Char)} (chain : Chain blocks d d') :
    Leads (blocks.intersperse ['\n']).flatten d d' := by
  induction chain with
  | nil d => exact .refl d
  | @cons block blocks d d' d'' first later ih =>
      cases blocks with
      | nil =>
          cases later
          simpa using first
      | cons next blocks =>
          rw [List.intersperse_cons_cons, List.flatten_cons, List.flatten_cons]
          exact first.append ((leads_break d').append ih)

theorem leads_joinBlocks {head : List Char} {blocks : List (List Char)} (first : Leads head d d')
    (same : head = [] → d' = d) (chain : Chain blocks d' d'') :
    Leads (joinBlocks head blocks) d d'' := by
  rw [joinBlocks]
  split
  next none =>
    obtain rfl := same none
    exact chain.leads
  next => exact (Chain.cons first chain).leads

end Workflow.Toml
