import Workflow.Proofs.Json.Text
import Workflow.Proofs.Value.KeyOrder

/-!
Different values have different texts. A text on one line tells the value that it starts with and
where that value ends. Main statement: canonical texts are equal exactly where the sorted forms of
the values are.
-/

namespace Workflow.Json

/-- What may follow a value inside a collection or at the end of a text. -/
def EndsValue (rest : List Char) : Prop :=
  ∀ c, rest.head? = some c → c = ',' ∨ c = ']' ∨ c = '}'

theorem EndsValue.endsNumber {rest : List Char} (ends : EndsValue rest) : EndsNumber rest := by
  intro c head
  rcases ends c head with rfl | rfl | rfl <;> decide

theorem endsValue_nil : EndsValue [] := by
  intro first head
  cases head

theorem endsValue_cons {c : Char} (rest : List Char) (closing : c = ',' ∨ c = ']' ∨ c = '}') :
    EndsValue (c :: rest) := by
  intro first head
  rwa [← Option.some_inj.mp head]

/-- The text of an item tells the item, whatever follows. -/
def Recovers {α : Type} (write : α → List Char) (fits : α → Prop) (item : α) : Prop :=
  ∀ other rest rest', fits other → EndsValue rest → EndsValue rest' →
    write item ++ rest = write other ++ rest' → item = other ∧ rest = rest'

/-! ## Collections -/

/-- Nothing but a comma, and what comes with it, stands between items. -/
def Style.OneLine (style : Style) : Prop :=
  style.indent = none ∧ ∃ blanks, style.comma = ',' :: blanks

/-- Each item after a comma, up to the closing bracket. -/
def joined (comma : List Char) (closing : Char) : List (List Char) → List Char
  | [] => [closing]
  | item :: items => comma ++ (item ++ joined comma closing items)

theorem intersperse_joined (comma : List Char) (closing : Char) (item : List Char)
    (items : List (List Char)) : ((item :: items).intersperse comma).flatten ++ [closing] =
      item ++ joined comma closing items := by
  induction items generalizing item with
  | nil => simp [joined]
  | cons next items ih =>
      rw [List.intersperse_cons_cons, List.flatten_cons, List.flatten_cons, List.append_assoc,
        List.append_assoc, ih, joined]

theorem enclose_cons {style : Style} (oneLine : style.OneLine) (level : Nat)
    (opening closing : Char) (item : List Char) (items : List (List Char)) :
    style.enclose level opening closing (item :: items) =
      opening :: (item ++ joined style.comma closing items) := by
  have noBreak (level : Nat) : style.lineBreak level = [] := by
    rw [Style.lineBreak, oneLine.1]
  rw [← intersperse_joined]
  simp [Style.enclose, noBreak]

section

variable {α : Type} {write : α → List Char} {fits : α → Prop} {style : Style} {closing : Char}

theorem endsValue_joined (oneLine : style.OneLine) (bracket : closing = ']' ∨ closing = '}')
    (items : List (List Char)) (rest : List Char) :
    EndsValue (joined style.comma closing items ++ rest) := by
  obtain ⟨-, blanks, isComma⟩ := oneLine
  cases items with
  | nil => exact endsValue_cons rest (.inr bracket)
  | cons item items =>
      rw [joined, isComma]
      exact endsValue_cons _ (.inl rfl)

theorem joined_recovers (oneLine : style.OneLine) (bracket : closing = ']' ∨ closing = '}')
    {items others : List α} (each : ∀ item ∈ items, Recovers write fits item)
    (fit : ∀ other ∈ others, fits other) {rest rest' : List Char}
    (same : joined style.comma closing (items.map write) ++ rest =
      joined style.comma closing (others.map write) ++ rest') :
    items = others ∧ rest = rest' := by
  obtain ⟨blanks, isComma⟩ := oneLine.2
  have differ : closing ≠ ',' := by rcases bracket with rfl | rfl <;> decide
  induction items generalizing others with
  | nil =>
      cases others with
      | nil => exact ⟨rfl, (List.cons.inj same).2⟩
      | cons other others =>
          rw [List.map_cons, List.map_nil, joined, joined, isComma] at same
          exact absurd (List.cons.inj same).1 differ
  | cons item items ih =>
      cases others with
      | nil =>
          rw [List.map_cons, List.map_nil, joined, joined, isComma] at same
          exact absurd (List.cons.inj same).1.symm differ
      | cons other others =>
          rw [List.map_cons, List.map_cons, joined, joined, List.append_assoc, List.append_assoc,
            List.append_assoc, List.append_assoc] at same
          obtain ⟨rfl, after⟩ := each item List.mem_cons_self other _ _
            (fit other List.mem_cons_self) (endsValue_joined oneLine bracket _ _)
            (endsValue_joined oneLine bracket _ _) (List.append_cancel_left same)
          obtain ⟨rfl, beyond⟩ := ih (fun i member => each i (List.mem_cons_of_mem item member))
            (fun i member => fit i (List.mem_cons_of_mem item member)) after
          exact ⟨rfl, beyond⟩

theorem enclose_recovers (oneLine : style.OneLine) (bracket : closing = ']' ∨ closing = '}')
    {items others : List α} (each : ∀ item ∈ items, Recovers write fits item)
    (fitItems : ∀ item ∈ items, fits item) (fit : ∀ other ∈ others, fits other)
    (opens : ∀ item rest, fits item → (write item ++ rest).head? ≠ some closing)
    {level : Nat} {opening : Char} {rest rest' : List Char}
    (same : style.enclose level opening closing (items.map write) ++ rest =
      style.enclose level opening closing (others.map write) ++ rest') :
    items = others ∧ rest = rest' := by
  cases items with
  | nil =>
      cases others with
      | nil => exact ⟨rfl, (List.cons.inj (List.cons.inj same).2).2⟩
      | cons other others =>
          rw [List.map_cons, enclose_cons oneLine, List.cons_append, List.append_assoc] at same
          have head := congrArg List.head? (List.cons.inj same).2
          exact absurd head.symm (opens other _ (fit other List.mem_cons_self))
  | cons item items =>
      cases others with
      | nil =>
          rw [List.map_cons, enclose_cons oneLine, List.cons_append, List.append_assoc] at same
          have head := congrArg List.head? (List.cons.inj same).2
          exact absurd head (opens item _ (fitItems item List.mem_cons_self))
      | cons other others =>
          apply joined_recovers oneLine bracket each fit
          rw [List.map_cons, List.map_cons, enclose_cons oneLine, enclose_cons oneLine,
            List.cons_append, List.cons_append] at same
          rw [List.map_cons, List.map_cons, joined, joined, List.append_assoc,
            List.append_assoc style.comma, (List.cons.inj same).2]

end

/-! ## The first token of a value -/

/-- The token begins the text of the value, and is all of it unless it is an opening bracket. -/
def Begins (v : Value) : Token → Prop
  | .scalar (.ok w) => v = w
  | .scalar (.error _) => ∃ n, v = .int n
  | .text (.ok s) => v = .text s
  | .text (.error _) => False
  | .mark c => c = '[' ∧ (∃ items, v = .list items) ∨ c = '{' ∧ ∃ entries, v = .table entries

theorem exists_enclose_eq_cons (style : Style) (level : Nat) (opening closing : Char)
    (items : List (List Char)) :
    ∃ more, style.enclose level opening closing items = opening :: more := by
  cases items with
  | nil => exact ⟨_, rfl⟩
  | cons item items => exact ⟨_, by simp [Style.enclose]; rfl⟩

theorem exists_token {v : Value} (momentless : v.Momentless) (style : Style) (level : Nat)
    {rest : List Char} (ends : EndsNumber rest) :
    ∃ token after, token? (print style level v ++ rest) = some (token, after) ∧ Begins v token ∧
      ((∀ c, token ≠ .mark c) → after = rest) := by
  cases momentless with
  | null => exact ⟨_, _, rfl, rfl, fun _ => rfl⟩
  | bool b => cases b <;> exact ⟨_, _, rfl, rfl, fun _ => rfl⟩
  | int n =>
      refine ⟨_, _, token?_int n ends, ?_, fun _ => rfl⟩
      split
      · exact ⟨n, rfl⟩
      · exact rfl
  | real x => exact ⟨_, _, token?_real x ends, rfl, fun _ => rfl⟩
  | text s => exact ⟨_, _, token?_text style.ascii s rest, rfl, fun _ => rfl⟩
  | list _ =>
      obtain ⟨more, isMore⟩ := exists_enclose_eq_cons style level '[' ']' _
      rw [print, isMore]
      exact ⟨.mark '[', more ++ rest, rfl, .inl ⟨rfl, _, rfl⟩, fun other => absurd rfl (other '[')⟩
  | table _ =>
      obtain ⟨more, isMore⟩ := exists_enclose_eq_cons style level '{' '}' _
      rw [print, isMore]
      exact ⟨.mark '{', more ++ rest, rfl, .inr ⟨rfl, _, rfl⟩, fun other => absurd rfl (other '{')⟩

theorem intText_injective {n m : Int} (same : intText n = intText m) : n = m := by
  have minus (k : Nat) : '-' ∉ decimalDigits k := by
    intro member
    exact absurd (isDigit_of_mem_decimalDigits member) (by decide)
  rw [intText, intText] at same
  split_ifs at same with negative negative' negative'
  · have magnitudes := decimalDigits_injective (List.cons.inj same).2
    omega
  · exact absurd (same ▸ List.mem_cons_self) (minus _)
  · exact absurd (same ▸ List.mem_cons_self) (minus _)
  · have magnitudes := decimalDigits_injective same
    omega

/-- Texts that go on alike are of the same value, or of two lists or two tables. -/
theorem eq_or_collections {v w : Value} (momentless : v.Momentless) (momentless' : w.Momentless)
    {style : Style} {level : Nat} {rest rest' : List Char} (ends : EndsValue rest)
    (ends' : EndsValue rest')
    (same : print style level v ++ rest = print style level w ++ rest') :
    v = w ∧ rest = rest' ∨ (∃ items others, v = .list items ∧ w = .list others) ∨
      ∃ entries others, v = .table entries ∧ w = .table others := by
  obtain ⟨token, after, first, begins, scalar⟩ := exists_token momentless style level ends.endsNumber
  obtain ⟨token', after', first', begins', scalar'⟩ := exists_token momentless' style level
    ends'.endsNumber
  rw [same, first'] at first
  obtain ⟨rfl, rfl⟩ := Prod.mk.inj (Option.some_inj.mp first)
  cases token' with
  | mark c =>
      right
      rcases begins with ⟨list, items, rfl⟩ | ⟨table, entries, rfl⟩
      · rcases begins' with ⟨-, others, rfl⟩ | ⟨table, -⟩
        · exact .inl ⟨items, others, rfl, rfl⟩
        · exact absurd (list.symm.trans table) (by decide)
      · rcases begins' with ⟨list, -⟩ | ⟨-, others, rfl⟩
        · exact absurd (list.symm.trans table) (by decide)
        · exact .inr ⟨entries, others, rfl, rfl⟩
  | text content =>
      cases content with
      | error fault => cases begins
      | ok s =>
          refine .inl ⟨begins.trans begins'.symm, ?_⟩
          exact (scalar (by simp)).symm.trans (scalar' (by simp))
  | scalar content =>
      have rests : rest = rest' := (scalar (by simp)).symm.trans (scalar' (by simp))
      refine .inl ⟨?_, rests⟩
      cases content with
      | error fault =>
          obtain ⟨n, rfl⟩ := begins
          obtain ⟨m, rfl⟩ := begins'
          rw [rests] at same
          rw [intText_injective (List.append_cancel_right same)]
      | ok u => exact begins.trans begins'.symm

/-! ## Values -/

theorem printItems_eq_map (style : Style) (level : Nat) (items : List Value) :
    printItems style level items = items.map (print style level) := by
  induction items with
  | nil => rfl
  | cons item items ih => rw [printItems, ih, List.map_cons]

/-- The text of an entry of a table. -/
def printEntry (style : Style) (level : Nat) (entry : String × Value) : List Char :=
  printText style.ascii entry.1 ++ style.colon ++ print style level entry.2

theorem printEntries_eq_map (style : Style) (level : Nat) (entries : Entries) :
    printEntries style level entries = entries.map (printEntry style level) := by
  induction entries with
  | nil => rfl
  | cons entry entries ih => rw [printEntries, ih, List.map_cons, printEntry]

/-- No value's text starts with a closing bracket. -/
theorem head?_print_ne {v : Value} (momentless : v.Momentless) (style : Style) (level : Nat)
    (rest : List Char) : (print style level v ++ rest).head? ≠ some ']' := by
  obtain ⟨token, after, first, begins, -⟩ := exists_token momentless style level
    endsValue_nil.endsNumber
  rw [List.append_nil] at first
  cases isText : print style level v with
  | nil =>
      rw [isText] at first
      cases first
  | cons c more =>
      intro head
      obtain rfl := Option.some_inj.mp head
      have bracket : token? (']' :: more) = some (.mark ']', more) := rfl
      rw [isText, bracket] at first
      obtain ⟨rfl, -⟩ := Prod.mk.inj (Option.some_inj.mp first)
      rcases begins with ⟨other, -⟩ | ⟨other, -⟩
      · exact absurd other (by decide)
      · exact absurd other (by decide)

theorem printEntry_recovers {style : Style} {level : Nat} {entry : String × Value}
    (value : Recovers (print style level) Value.Momentless entry.2) :
    Recovers (printEntry style level) (fun other => other.2.Momentless) entry := by
  intro other rest rest' fit ends ends' same
  simp only [printEntry, List.append_assoc] at same
  have tokens := congrArg token? same
  rw [token?_text, token?_text, Option.some_inj] at tokens
  obtain ⟨keys, after⟩ := Prod.mk.inj tokens
  obtain ⟨values, rests⟩ := value other.2 rest rest' fit ends ends' (List.append_cancel_left after)
  have key : entry.1 = other.1 := by
    injection keys with contents
    injection contents
  exact ⟨Prod.ext key values, rests⟩

/-- The text of a value on one line tells the value and where it ends. -/
theorem print_recovers {style : Style} (oneLine : style.OneLine) {v : Value}
    (momentless : v.Momentless) (level : Nat) :
    Recovers (print style level) Value.Momentless v := by
  induction momentless generalizing level with
  | null | bool b | int n | real x | text s =>
      intro w rest rest' fit ends ends' same
      rcases eq_or_collections (by constructor) fit ends ends' same with
        exactly | ⟨_, _, other, _⟩ | ⟨_, _, other, _⟩
      · exact exactly
      · cases other
      · cases other
  | @list items inside ih =>
      intro w rest rest' fit ends ends' same
      rcases eq_or_collections (.list inside) fit ends ends' same with
        exactly | ⟨_, others, _, rfl⟩ | ⟨_, _, other, _⟩
      · exact exactly
      · cases fit with
        | list insideOthers =>
            rw [print, print, printItems_eq_map, printItems_eq_map] at same
            obtain ⟨rfl, rests⟩ := enclose_recovers oneLine (.inl rfl)
              (fun item member => ih item member (level + 1)) inside insideOthers
              (fun item rest fits => head?_print_ne fits style (level + 1) rest) same
            exact ⟨rfl, rests⟩
      · cases other
  | @table entries inside ih =>
      intro w rest rest' fit ends ends' same
      rcases eq_or_collections (.table inside) fit ends ends' same with
        exactly | ⟨_, _, other, _⟩ | ⟨_, others, _, rfl⟩
      · exact exactly
      · cases other
      · cases fit with
        | table insideOthers =>
            rw [print, print, printEntries_eq_map, printEntries_eq_map] at same
            obtain ⟨rfl, rests⟩ := enclose_recovers oneLine (.inr rfl)
              (fun entry member => printEntry_recovers (ih entry member (level + 1))) inside
              insideOthers (fun entry rest _ => by simp [printEntry, printText]) same
            exact ⟨rfl, rests⟩

theorem text_eq_iff {style : Style} (oneLine : style.OneLine) {v w : Value}
    (momentless : v.Momentless) (momentless' : w.Momentless) :
    text style v = text style w ↔ v = w := by
  constructor
  · intro same
    have chars : print style 0 v ++ [] = print style 0 w ++ [] := by
      rw [List.append_nil, List.append_nil]
      exact String.ofList_injective same
    exact (print_recovers oneLine momentless 0 w [] [] momentless' endsValue_nil endsValue_nil
      chars).1
  · intro same
    rw [same]

/-- Canonical texts are equal exactly where the sorted forms of the values are. -/
theorem canonical_eq_iff {v w : Value} (momentless : v.Momentless) (momentless' : w.Momentless) :
    canonical v = canonical w ↔ v.sorted = w.sorted :=
  text_eq_iff ⟨rfl, [], rfl⟩ momentless.sorted momentless'.sorted

end Workflow.Json
