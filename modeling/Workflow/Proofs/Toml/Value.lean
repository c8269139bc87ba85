import Workflow.Proofs.Json.Reading
import Workflow.Proofs.Toml.Number
import Workflow.Proofs.Toml.Text
import Workflow.Proofs.Value.Plain

/-!
Values on the right of an equals sign that are read back, arrays and inline tables among them. Main
statement: a value that holds no null is read back from its text, whatever its indentation, if it
is not too deep.
-/

namespace Workflow

namespace Value

/-- The value is no null and holds none. -/
inductive NoNull : Value → Prop
  | bool (b : Bool) : NoNull (.bool b)
  | int (n : Int) : NoNull (.int n)
  | real (x : Binary64) : NoNull (.real x)
  | text (s : String) : NoNull (.text s)
  | moment (m : Moment) : NoNull (.moment m)
  | list {items : List Value} (inside : ∀ item ∈ items, NoNull item) : NoNull (.list items)
  | table {entries : Entries} (inside : ∀ entry ∈ entries, NoNull entry.2) :
      NoNull (.table entries)

theorem NoNull.item {items : List Value} (some : (Value.list items).NoNull) {item : Value}
    (listed : item ∈ items) : item.NoNull := by
  cases some with
  | list inside => exact inside item listed

theorem NoNull.entry {entries : Entries} (some : (Value.table entries).NoNull)
    {entry : String × Value} (listed : entry ∈ entries) : entry.2.NoNull := by
  cases some with
  | table inside => exact inside entry listed

/-- A document can hold the value, and there is no null in it. -/
structure Spellable (v : Value) : Prop where
  readable : v.Readable
  noNull : v.NoNull

theorem Spellable.item {items : List Value} (spellable : (Value.list items).Spellable)
    {item : Value} (listed : item ∈ items) : item.Spellable :=
  ⟨spellable.readable.item listed, spellable.noNull.item listed⟩

theorem Spellable.entry {entries : Entries} (spellable : (Value.table entries).Spellable)
    {entry : String × Value} (listed : entry ∈ entries) : entry.2.Spellable :=
  ⟨spellable.readable.entry listed, spellable.noNull.entry listed⟩

end Value

namespace Toml

variable {rest : List Char} {c : Char}

/-! ## What stands between values -/

/-- The characters are blanks and line breaks. -/
def Filler (cs : List Char) : Prop := ∀ c ∈ cs, isBlankOrBreak c = true

theorem filler_indentation (level : Nat) : Filler (indentation level) := by
  intro c member
  rw [List.eq_of_mem_replicate member]
  rfl

/-- Filler is passed over as far as it goes. -/
theorem skipAllFiller_append {filler : List Char} (all : Filler filler)
    (visible : isBlankOrBreak c = false) (noComment : c ≠ '#') :
    skipAllFiller (filler ++ c :: rest) = .ok (c :: rest) := by
  have comment : skipComment (c :: rest) = .ok (c :: rest) := by
    rw [skipComment]
    intro tail same
    exact noComment (List.cons.inj same).1
  have dropped : (filler ++ c :: rest).dropWhile isBlankOrBreak = c :: rest := by
    rw [List.dropWhile_append_of_pos all, List.dropWhile_cons_of_neg (by simp [visible])]
  -- One more round finds nothing to pass over.
  have stays (fuel : Nat) : skipFiller fuel (c :: rest) = .ok (c :: rest) := by
    cases fuel with
    | zero => rfl
    | succ fuel =>
        rw [skipFiller, List.dropWhile_cons_of_neg (by simp [visible]), comment,
          Except.ok_andThen, if_neg (Nat.lt_irrefl _)]
  obtain ⟨fuel, length⟩ : ∃ fuel, (filler ++ c :: rest).length = fuel + 1 :=
    ⟨filler.length + rest.length, by simp; omega⟩
  rw [skipAllFiller, length, skipFiller, dropped, comment, Except.ok_andThen]
  split
  · exact stays fuel
  · rfl

/-- A value may start with the character. -/
def StartsValue (c : Char) : Prop := isBlankOrBreak c = false ∧ c ≠ '#' ∧ c ≠ ']' ∧ c ≠ '\x7d'

instance : DecidablePred StartsValue := fun c =>
  inferInstanceAs (Decidable (isBlankOrBreak c = false ∧ c ≠ '#' ∧ c ≠ ']' ∧ c ≠ '\x7d'))

theorem startsValue_of_isDigit (digit : c.isDigit = true) : StartsValue c := by
  refine ⟨?_, ?_, ?_, ?_⟩
  · by_contra blank
    simp only [isBlankOrBreak, isBlank, Bool.not_eq_false, Bool.or_eq_true, beq_iff_eq] at blank
    rcases blank with (rfl | rfl) | rfl <;> cases digit
  all_goals
    rintro rfl
    cases digit

theorem exists_intText_eq_cons (n : Int) :
    ∃ c more, intText n = c :: more ∧ (c.isDigit = true ∨ c = '-') := by
  rw [intText]
  split
  · exact ⟨'-', _, rfl, .inr rfl⟩
  · obtain ⟨c, more, isCons⟩ := List.exists_cons_of_ne_nil (decimalDigits_ne_nil n.natAbs)
    have digit : c.isDigit = true :=
      isDigit_of_mem_decimalDigits (n := n.natAbs) (isCons ▸ List.mem_cons_self)
    exact ⟨c, more, isCons, .inl digit⟩

theorem exists_realText_eq_cons (x : Binary64) : ∃ c more, plainNumberStyle.text x = c :: more ∧
    (c.isDigit = true ∨ c ∈ ['-', 'n', 'i']) := by
  cases x with
  | nan => exact ⟨'n', _, rfl, .inr (by decide)⟩
  | infinity negative =>
      cases negative
      · exact ⟨'i', _, rfl, .inr (by decide)⟩
      · exact ⟨'-', _, rfl, .inr (by decide)⟩
  | finite negative significand exponent canonical =>
      cases negative with
      | true => exact ⟨'-', _, rfl, .inr (by decide)⟩
      | false =>
          have alone : Json.EndsNumber [] := by simp [Json.EndsNumber]
          have scanned := Json.scanUnsigned_magnitude canonical alone plainNumberStyle false 0
          obtain ⟨c, more, isCons, digit⟩ := Json.exists_digit_of_scanUnsigned scanned
          rw [List.append_nil] at isCons
          exact ⟨c, more, isCons, .inl digit⟩

theorem exists_printValue_eq_cons {v : Value} (spellable : v.Spellable) (level : Nat) :
    ∃ c more, printValue level v = c :: more ∧ StartsValue c := by
  cases v with
  | null => cases spellable.noNull
  | bool b =>
      cases b
      · exact ⟨'f', _, rfl, by decide⟩
      · exact ⟨'t', _, rfl, by decide⟩
  | int n =>
      obtain ⟨c, more, isCons, digit | rfl⟩ := exists_intText_eq_cons n
      · exact ⟨c, more, isCons, startsValue_of_isDigit digit⟩
      · exact ⟨'-', more, isCons, by decide⟩
  | real x =>
      obtain ⟨c, more, isCons, digit | letter⟩ := exists_realText_eq_cons x
      · exact ⟨c, more, isCons, startsValue_of_isDigit digit⟩
      · refine ⟨c, more, isCons, ?_⟩
        simp only [List.mem_cons, List.not_mem_nil, or_false] at letter
        rcases letter with rfl | rfl | rfl <;> decide
  | text s => exact ⟨'"', _, rfl, by decide⟩
  | moment m => cases spellable.readable.momentless
  | list items =>
      rw [printValue, encloseItems]
      split <;> exact ⟨'[', _, rfl, by decide⟩
  | table entries =>
      rw [printValue, encloseEntries]
      split <;> exact ⟨'\x7b', _, rfl, by decide⟩

/-! ## Arrays -/

/-- The items of an array after the first one's comma, and the bracket that closes the array. -/
def moreItems (level : Nat) (items : List (List Char)) (rest : List Char) : List Char :=
  items.flatMap (fun item => indentation (level + 1) ++ item ++ [',', '\n']) ++
    (indentation level ++ ']' :: rest)

theorem encloseItems_cons (level : Nat) (item : List Char) (items : List (List Char))
    (rest : List Char) : encloseItems level (item :: items) ++ rest =
      '[' :: '\n' :: moreItems level (item :: items) rest := by
  simp [encloseItems, moreItems]

/-- A text that is read as the value wherever one is wanted. -/
structure Spells (read : ValueReader) (text : List Char) (v : Value) : Prop where
  starts : ∃ c more, text = c :: more ∧ StartsValue c
  reads : ∀ rest, EndsValue rest → read (text ++ rest) = .ok (v, rest)

section

variable {read : ValueReader} {text more : List Char} {item : Value}

theorem skipAllFiller_comma (more : List Char) :
    skipAllFiller (',' :: more) = .ok (',' :: more) := by
  have empty : Filler [] := List.forall_mem_nil _
  exact skipAllFiller_append empty rfl (by decide)

theorem readItems_last (spells : Spells read text item)
    (closing : skipAllFiller more = .ok (']' :: rest)) (before : List Value) (fuel : Nat) :
    readItems read before (fuel + 1) (text ++ ',' :: more) =
      .ok (.list (before.reverse ++ [item]), rest) := by
  rw [readItems, spells.reads _ ⟨',', more, rfl, .inl rfl⟩]
  simp only [Except.ok_andThen, skipAllFiller_comma, closing, List.reverse_cons]

theorem readItems_next (spells : Spells read text item)
    (next : skipAllFiller more = .ok (c :: rest)) (another : c ≠ ']') (before : List Value)
    (fuel : Nat) : readItems read before (fuel + 1) (text ++ ',' :: more) =
      readItems read (item :: before) fuel (c :: rest) := by
  rw [readItems, spells.reads _ ⟨',', more, rfl, .inl rfl⟩]
  simp only [Except.ok_andThen, skipAllFiller_comma, next]
  split
  next same => exact absurd (List.cons.inj same).1 another
  next => rfl

end

theorem filler_break (level : Nat) : Filler ('\n' :: indentation level) :=
  List.forall_mem_cons.mpr ⟨rfl, filler_indentation level⟩

theorem skipAllFiller_moreItems (level : Nat) {item : List Char} (items : List (List Char))
    (starts : ∃ c tail, item = c :: tail ∧ StartsValue c) :
    skipAllFiller ('\n' :: moreItems level (item :: items) rest) =
      .ok (item ++ ',' :: '\n' :: moreItems level items rest) := by
  obtain ⟨c, tail, rfl, visible, noComment, -⟩ := starts
  have split : '\n' :: moreItems level ((c :: tail) :: items) rest =
      ('\n' :: indentation (level + 1)) ++
        c :: (tail ++ ',' :: '\n' :: moreItems level items rest) := by
    simp [moreItems]
  rw [split]
  exact skipAllFiller_append (filler_break (level + 1)) visible noComment

theorem length_le_moreItems (level : Nat) (items : List (List Char)) (rest : List Char) :
    items.length ≤ (moreItems level items rest).length := by
  have each : items.length ≤ (items.flatMap fun item =>
      indentation (level + 1) ++ item ++ [',', '\n']).length :=
    length_le_flatMap fun item _ => by simp
  rw [moreItems, List.length_append]
  omega

theorem readItems_moreItems {read : ValueReader} {text : Value → List Char} (level : Nat)
    {items : List Value} {item : Value} (each : ∀ v ∈ item :: items, Spells read (text v) v)
    (before : List Value) {fuel : Nat} (enough : items.length < fuel) (rest : List Char) :
    readItems read before fuel
        (text item ++ ',' :: '\n' :: moreItems level (items.map text) rest) =
      .ok (.list (before.reverse ++ item :: items), rest) := by
  induction items generalizing item before fuel with
  | nil =>
      obtain ⟨fuel, rfl⟩ := Nat.exists_eq_succ_of_ne_zero (Nat.ne_zero_of_lt enough)
      apply readItems_last (each item List.mem_cons_self)
      exact skipAllFiller_append (filler_break level) rfl (by decide)
  | cons next items ih =>
      obtain ⟨fuel, rfl⟩ := Nat.exists_eq_succ_of_ne_zero (Nat.ne_zero_of_lt enough)
      rw [List.forall_mem_cons] at each
      have starts := (each.2 next List.mem_cons_self).starts
      have passed : skipAllFiller ('\n' :: moreItems level ((next :: items).map text) rest) = _ :=
        skipAllFiller_moreItems level (items.map text) starts
      have later := ih each.2 (item :: before) (Nat.lt_of_succ_lt_succ enough)
      obtain ⟨c, tail, isCons, -, -, another, -⟩ := starts
      rw [isCons, List.cons_append] at passed later
      rw [readItems_next each.1 passed another, later]
      simp

theorem readArray_encloseItems {read : ValueReader} {text : Value → List Char} (level : Nat)
    {items : List Value} (each : ∀ v ∈ items, Spells read (text v) v) (rest : List Char) :
    ∃ more, encloseItems level (items.map text) ++ rest = '[' :: more ∧
      readArray read more = .ok (.list items, rest) := by
  cases items with
  | nil =>
      refine ⟨']' :: rest, rfl, ?_⟩
      have empty : Filler [] := List.forall_mem_nil _
      have closing : skipAllFiller (']' :: rest) = .ok (']' :: rest) :=
        skipAllFiller_append empty rfl (by decide)
      rw [readArray, closing]
      rfl
  | cons item items =>
      refine ⟨_, encloseItems_cons level (text item) (items.map text) rest, ?_⟩
      have starts := (each item List.mem_cons_self).starts
      have passed : skipAllFiller ('\n' :: moreItems level ((item :: items).map text) rest) = _ :=
        skipAllFiller_moreItems level (items.map text) starts
      have enough : items.length <
          ('\n' :: moreItems level ((item :: items).map text) rest).length + 1 := by
        have longer := length_le_moreItems level ((item :: items).map text) rest
        rw [List.length_map, List.length_cons] at longer
        rw [List.length_cons]
        omega
      have read := readItems_moreItems level each [] enough rest
      obtain ⟨c, tail, isCons, -, -, another, -⟩ := starts
      rw [isCons, List.cons_append] at passed read
      rw [readArray, ← List.map_cons, passed]
      simp only [Except.ok_andThen]
      split
      next same => exact absurd (List.cons.inj same).1 another
      next => exact read

/-! ## Inline tables -/

theorem endsValue_blank (rest : List Char) : EndsValue (' ' :: rest) :=
  ⟨' ', rest, rfl, .inr (.inl rfl)⟩

theorem endsValue_comma (rest : List Char) : EndsValue (',' :: rest) := ⟨',', rest, rfl, .inl rfl⟩

theorem readEntry_equation {read : ValueReader} {text : List Char} {v : Value} (key : String)
    (spells : Spells read text v) (ends : EndsValue rest) :
    readEntry read (equation key text ++ rest) = .ok (([key], v), rest) := by
  obtain ⟨c, tail, rfl, visible, -⟩ := spells.starts
  have blank : isBlank c = false := by
    simp only [isBlankOrBreak, Bool.or_eq_false_iff] at visible
    exact visible.1
  have split : equation key (c :: tail) ++ rest =
      printKey key ++ ' ' :: '=' :: ' ' :: (c :: tail ++ rest) := by simp [equation]
  have passed : skipBlanks (' ' :: (c :: tail ++ rest)) = c :: tail ++ rest := by
    rw [skipBlanks, List.dropWhile_cons_of_pos rfl]
    exact skipBlanks_cons _ blank
  rw [split, readEntry, readKey_printKey]
  simp only [Except.ok_andThen, passed, spells.reads rest ends]

/-- The entries of an inline table after the first one, and its closing brace. -/
def moreEntries (entries : List (List Char)) (rest : List Char) : List Char :=
  entries.flatMap ([',', ' '] ++ ·) ++ ' ' :: '\x7d' :: rest

theorem encloseEntries_cons (entry : List Char) (entries : List (List Char)) (rest : List Char) :
    encloseEntries (entry :: entries) ++ rest =
      '\x7b' :: ' ' :: (entry ++ moreEntries entries rest) := by
  simp [encloseEntries, moreEntries, Json.flatten_intersperse]

theorem length_le_moreEntries (entries : List (List Char)) (rest : List Char) :
    entries.length ≤ (moreEntries entries rest).length := by
  have each : entries.length ≤ (entries.flatMap ([',', ' '] ++ ·)).length :=
    length_le_flatMap fun entry _ => by simp
  rw [moreEntries, List.length_append]
  omega

theorem endsValue_moreEntries (entries : List (List Char)) (rest : List Char) :
    EndsValue (moreEntries entries rest) := by
  cases entries with
  | nil => exact endsValue_blank _
  | cons entry entries => exact endsValue_comma _

/-- An entry with a new key comes last. What is closed so far lies under other keys. -/
theorem addInline_fresh {marks : Marks} {entries : Entries} {key : String}
    (fresh : key ∉ entries.map Prod.fst)
    (closed : ∀ f ∈ marks.frozen, ∃ other ∈ entries.map Prod.fst, f = [other]) (v : Value) :
    addInline marks [key] v entries = .ok (entries ++ [(key, v)]) := by
  have open' : marks.isFrozen [key] = false := by
    rw [Marks.isFrozen, List.any_eq_false]
    intro f member
    obtain ⟨other, listed, rfl⟩ := closed f member
    rw [List.isPrefixOf_iff_prefix]
    intro below
    rw [List.cons_prefix_cons] at below
    exact fresh (below.1 ▸ listed)
  have absent := Entries.hasKey_eq_false_iff.mpr fresh
  rw [addInline, open', if_neg Bool.false_ne_true]
  change addEntry key v _ entries = _
  rw [addEntry, absent, if_neg Bool.false_ne_true, Entries.put_of_notMem v fresh]

theorem skipBlanks_equation (key : String) (text rest : List Char) :
    skipBlanks (' ' :: (equation key text ++ rest)) = equation key text ++ rest := by
  rw [equation, List.append_assoc, skipBlanks, List.dropWhile_cons_of_pos rfl]
  exact skipBlanks_printKey key _

/-- The text of an entry, given that of its value. -/
def entryText (text : Value → List Char) (entry : String × Value) : List Char :=
  equation entry.1 (text entry.2)

section

variable {read : ValueReader} {text : Value → List Char} {entry : String × Value} {before : Entries}
  {marks : Marks}

theorem readInlineEntries_last (spells : Spells read (text entry.2) entry.2)
    (fresh : entry.1 ∉ before.map Prod.fst)
    (closed : ∀ f ∈ marks.frozen, ∃ other ∈ before.map Prod.fst, f = [other]) (fuel : Nat)
    (rest : List Char) :
    readInlineEntries read marks before (fuel + 1) (entryText text entry ++ moreEntries [] rest) =
      .ok (.table (before ++ [entry]), rest) := by
  rw [readInlineEntries, entryText,
    readEntry_equation entry.1 spells (endsValue_moreEntries [] rest)]
  simp only [Except.ok_andThen, addInline_fresh fresh closed]
  rfl

/-- After an entry its key is closed if there are other values below it. -/
theorem readInlineEntries_next (spells : Spells read (text entry.2) entry.2)
    (fresh : entry.1 ∉ before.map Prod.fst)
    (closed : ∀ f ∈ marks.frozen, ∃ other ∈ before.map Prod.fst, f = [other]) (fuel : Nat)
    (next : String × Value) (entries : Entries) (rest : List Char) :
    ∃ marks' : Marks, (∀ f ∈ marks'.frozen, ∃ other ∈ (before ++ [entry]).map Prod.fst,
        f = [other]) ∧
      readInlineEntries read marks before (fuel + 1)
          (entryText text entry ++ moreEntries ((next :: entries).map (entryText text)) rest) =
        readInlineEntries read marks' (before ++ [entry]) fuel
          (entryText text next ++ moreEntries (entries.map (entryText text)) rest) := by
  have split : moreEntries ((next :: entries).map (entryText text)) rest =
      ',' :: ' ' :: (entryText text next ++ moreEntries (entries.map (entryText text)) rest) := by
    simp [moreEntries]
  have comma (more : List Char) : skipBlanks (',' :: more) = ',' :: more := skipBlanks_cons _ rfl
  have passed := skipBlanks_equation next.1 (text next.2)
    (moreEntries (entries.map (entryText text)) rest)
  refine ⟨if holdsMore entry.2 then marks.freeze [entry.1] else marks, ?_, ?_⟩
  · have later : ∀ f ∈ marks.frozen, ∃ other ∈ (before ++ [entry]).map Prod.fst, f = [other] := by
      intro f member
      obtain ⟨other, listed, same⟩ := closed f member
      exact ⟨other, by simp [listed], same⟩
    split
    · refine List.forall_mem_cons.mpr ⟨⟨entry.1, by simp, rfl⟩, later⟩
    · exact later
  · rw [readInlineEntries, entryText, readEntry_equation entry.1 spells
      (endsValue_moreEntries ((next :: entries).map (entryText text)) rest)]
    simp only [Except.ok_andThen, addInline_fresh fresh closed, split, comma]
    rw [entryText, passed]

end

theorem readInlineEntries_moreEntries {read : ValueReader} {text : Value → List Char}
    {entries : Entries} {entry : String × Value}
    (each : ∀ e ∈ entry :: entries, Spells read (text e.2) e.2) (before : Entries)
    {marks : Marks} (closed : ∀ f ∈ marks.frozen, ∃ other ∈ before.map Prod.fst, f = [other])
    (distinct : ((before ++ entry :: entries).map Prod.fst).Nodup) {fuel : Nat}
    (enough : entries.length < fuel) (rest : List Char) :
    readInlineEntries read marks before fuel
        (entryText text entry ++ moreEntries (entries.map (entryText text)) rest) =
      .ok (.table (before ++ entry :: entries), rest) := by
  induction entries generalizing entry before marks fuel with
  | nil =>
      obtain ⟨fuel, rfl⟩ := Nat.exists_eq_succ_of_ne_zero (Nat.ne_zero_of_lt enough)
      have fresh : entry.1 ∉ before.map Prod.fst := Entries.notMem_of_nodup distinct
      exact readInlineEntries_last (each entry List.mem_cons_self) fresh closed fuel rest
  | cons next entries ih =>
      obtain ⟨fuel, rfl⟩ := Nat.exists_eq_succ_of_ne_zero (Nat.ne_zero_of_lt enough)
      rw [List.forall_mem_cons] at each
      have fresh : entry.1 ∉ before.map Prod.fst := Entries.notMem_of_nodup distinct
      obtain ⟨marks', closed', step⟩ :=
        readInlineEntries_next each.1 fresh closed fuel next entries rest
      have split : before ++ entry :: next :: entries = before ++ [entry] ++ next :: entries := by
        simp
      rw [split] at distinct ⊢
      rw [step, ih each.2 (before ++ [entry]) closed' distinct (Nat.lt_of_succ_lt_succ enough)]

theorem readInlineTable_encloseEntries {read : ValueReader} {text : Value → List Char}
    {entries : Entries} (each : ∀ e ∈ entries, Spells read (text e.2) e.2)
    (distinct : (entries.map Prod.fst).Nodup) (rest : List Char) :
    ∃ more, encloseEntries (entries.map (entryText text)) ++ rest = '\x7b' :: more ∧
      readInlineTable read more = .ok (.table entries, rest) := by
  cases entries with
  | nil => exact ⟨'\x7d' :: rest, rfl, rfl⟩
  | cons entry entries =>
      refine ⟨_, encloseEntries_cons (entryText text entry) (entries.map (entryText text)) rest, ?_⟩
      have enough : entries.length < (' ' :: (entryText text entry ++
          moreEntries (entries.map (entryText text)) rest)).length + 1 := by
        have longer := length_le_moreEntries (entries.map (entryText text)) rest
        rw [List.length_map] at longer
        simp only [List.length_cons, List.length_append]
        omega
      have closed : ∀ f ∈ Marks.none.frozen, ∃ other ∈ ([] : Entries).map Prod.fst, f = [other] :=
        List.forall_mem_nil _
      have read := readInlineEntries_moreEntries each [] closed distinct enough rest
      obtain ⟨c, more, isCons, starts⟩ := exists_printKey_eq_cons entry.1
      rw [readInlineTable, entryText, skipBlanks_equation]
      split
      next same =>
        rw [equation, isCons] at same
        rw [(List.cons.inj same).1] at starts
        cases starts
      next => exact read

/-! ## Whole values -/

theorem printItems_eq_map (level : Nat) (items : List Value) :
    printItems level items = items.map (printValue level) := by
  induction items with
  | nil => rfl
  | cons item items ih => rw [printItems, ih, List.map_cons]

theorem printEntries_eq_map (entries : Entries) :
    printEntries entries = entries.map (entryText (printValue 0)) := by
  induction entries with
  | nil => rfl
  | cons entry entries ih =>
      obtain ⟨key, value⟩ := entry
      rw [printEntries, ih, List.map_cons, entryText]

theorem readValue_scalar (depth : Nat) {cs : List Char} (list : cs.head? ≠ some '[')
    (table : cs.head? ≠ some '\x7b') : readValue depth cs = readScalar cs := by
  unfold readValue
  split
  · exact absurd rfl list
  · exact absurd rfl table
  · rfl

theorem readScalar_bool (b : Bool) (rest : List Char) :
    readScalar ((if b then "true" else "false").toList ++ rest) = .ok (.bool b, rest) := by
  cases b <;> rfl

theorem readScalar_printText (s : String) (ends : EndsValue rest) :
    readScalar (printText s.toList ++ rest) = .ok (.text s, rest) := by
  have content := readText_printText s (ends.head?_ne (c := '"') (by decide))
  have split : printText s.toList ++ rest =
      '"' :: (s.toList.flatMap escapeChar ++ '"' :: rest) := by simp [printText]
  rw [split, readScalar, content]
  rfl

theorem readValue_list {depth : Nat} {read : Value → List Char} {items : List Value} (level : Nat)
    (each : ∀ v ∈ items, Spells (readValue depth) (read v) v) (rest : List Char) :
    readValue (depth + 1) (encloseItems level (items.map read) ++ rest) =
      .ok (.list items, rest) := by
  obtain ⟨more, split, inside⟩ := readArray_encloseItems level each rest
  rw [split]
  exact inside

theorem readValue_table {depth : Nat} {read : Value → List Char} {entries : Entries}
    (each : ∀ e ∈ entries, Spells (readValue depth) (read e.2) e.2)
    (distinct : (entries.map Prod.fst).Nodup) (rest : List Char) :
    readValue (depth + 1) (encloseEntries (entries.map (entryText read)) ++ rest) =
      .ok (.table entries, rest) := by
  obtain ⟨more, split, inside⟩ := readInlineTable_encloseEntries each distinct rest
  rw [split]
  exact inside

/-- Every value that can be spelled is read back, wherever it stands. -/
theorem readValue_printValue {v : Value} (spellable : v.Spellable) (level : Nat) {depth : Nat}
    (shallow : v.levels ≤ depth) (ends : EndsValue rest) :
    readValue depth (printValue level v ++ rest) = .ok (v, rest) := by
  induction v using Value.induct generalizing level depth rest with
  | null => cases spellable.noNull
  | bool b =>
      rw [printValue, readValue_scalar depth, readScalar_bool]
      · cases b <;> simp
      · cases b <;> simp
  | int n =>
      obtain ⟨c, more, isCons, first⟩ := exists_intText_eq_cons n
      have few : (decimalDigits n.natAbs).length ≤ Json.digitLimit := by
        simpa [Value.digitsFit] using spellable.readable.digits
      have others : c ≠ '[' ∧ c ≠ '\x7b' := by
        constructor <;> rintro rfl <;> simp at first
      rw [printValue, readValue_scalar depth, readScalar_intText few ends]
      · simp [isCons, others]
      · simp [isCons, others]
  | real x =>
      obtain ⟨c, more, isCons, first⟩ := exists_realText_eq_cons x
      have others : c ≠ '[' ∧ c ≠ '\x7b' := by
        constructor <;> rintro rfl <;> simp at first
      rw [printValue, readValue_scalar depth, readScalar_realText x ends]
      · simp [isCons, others]
      · simp [isCons, others]
  | text s =>
      rw [printValue, readValue_scalar depth, readScalar_printText s ends]
      · simp [printText]
      · simp [printText]
  | moment m => cases spellable.readable.momentless
  | list items ih =>
      rw [Value.levels] at shallow
      obtain ⟨depth, rfl⟩ := Nat.exists_eq_succ_of_ne_zero (Nat.ne_zero_of_lt shallow)
      have inside := Value.levels_list_le_iff.mp shallow
      rw [printValue, printItems_eq_map]
      apply readValue_list
      intro item member
      have some := spellable.item member
      exact ⟨exists_printValue_eq_cons some (level + 1), fun rest =>
        ih item member some (level + 1) (inside item member)⟩
  | table entries ih =>
      rw [Value.levels] at shallow
      obtain ⟨depth, rfl⟩ := Nat.exists_eq_succ_of_ne_zero (Nat.ne_zero_of_lt shallow)
      have inside := Value.levels_table_le_iff.mp shallow
      rw [printValue, printEntries_eq_map]
      refine readValue_table (fun entry member => ?_) spellable.readable.nodup rest
      have some := spellable.entry member
      exact ⟨exists_printValue_eq_cons some 0, fun rest =>
        ih entry member some 0 (inside entry member)⟩

theorem spells_printValue {v : Value} (spellable : v.Spellable) (level : Nat) {depth : Nat}
    (shallow : v.levels ≤ depth) : Spells (readValue depth) (printValue level v) v :=
  ⟨exists_printValue_eq_cons spellable level, fun _ ends =>
    readValue_printValue spellable level shallow ends⟩

end Toml

end Workflow
