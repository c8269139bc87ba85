import Workflow.Json.Reader
import Workflow.Proofs.Json.Consumption
import Workflow.Proofs.Json.Injective
import Workflow.Proofs.Value.Readable

/-!
JSON texts that are read back, whatever their style: the reader goes through the tokens of a printed
value and comes to the state of having read that value. Main statement: the text of a value is read
as the value, unless the value is too deep to be read at all.
-/

namespace Workflow.Json

/-! ## Separators -/

/-- Nothing but blanks may follow a comma or a colon. -/
structure Style.Spaced (style : Style) : Prop where
  comma : ∃ blanks, style.comma = ',' :: blanks ∧ ∀ c ∈ blanks, isBlank c = true
  colon : ∃ blanks, style.colon = ':' :: blanks ∧ ∀ c ∈ blanks, isBlank c = true

theorem compactStyle_spaced : compactStyle.Spaced := ⟨⟨[], rfl, by simp⟩, ⟨[], rfl, by simp⟩⟩

theorem indentedStyle_spaced (indent : Int) (ascii : Bool) : (indentedStyle indent ascii).Spaced :=
  ⟨⟨[], rfl, by simp⟩, ⟨[' '], rfl, List.forall_mem_singleton.mpr rfl⟩⟩

theorem isBlank_of_mem_lineBreak (style : Style) (level : Nat) :
    ∀ c ∈ style.lineBreak level, isBlank c = true := by
  rw [Style.lineBreak]
  split
  · simp
  · simp +contextual [isBlank]

theorem endsNumber_blanks {blanks rest : List Char} (all : ∀ c ∈ blanks, isBlank c = true)
    (ends : EndsNumber rest) : EndsNumber (blanks ++ rest) := by
  cases blanks with
  | nil => exact ends
  | cons c blanks =>
      intro first head
      obtain rfl := Option.some_inj.mp head
      have blank := all c List.mem_cons_self
      simp only [isBlank, Bool.or_eq_true, beq_iff_eq] at blank
      rcases blank with ((rfl | rfl) | rfl) | rfl <;> decide

theorem flatten_intersperse {α : Type} (separator item : List α) (items : List (List α)) :
    ((item :: items).intersperse separator).flatten = item ++ items.flatMap (separator ++ ·) := by
  induction items generalizing item with
  | nil => simp
  | cons next items ih => simp [ih]

variable {style : Style} {opened : List Frame} {rest : List Char}

/-! ## Tokens -/

theorem firstToken_blank {c : Char} (blank : isBlank c = true) (rest : List Char) :
    firstToken c rest = (.mark c, rest) := by
  simp only [isBlank, Bool.or_eq_true, beq_iff_eq] at blank
  rcases blank with ((rfl | rfl) | rfl) | rfl <;> rfl

theorem tokens_mark {c : Char} (first : firstToken c rest = (.mark c, rest))
    (visible : isBlank c = false) :
    tokens (c :: rest) = ⟨.mark c, rest.length + 1⟩ :: tokens rest := by
  have found : token? (c :: rest) = some (.mark c, rest) := congrArg some first
  apply tokens_eq_cons found
  intro d head
  rwa [← Option.some_inj.mp head]

theorem visible_of_token? {cs after : List Char} {token : Token}
    (found : token? cs = some (token, after)) (other : ∀ c, isBlank c = true → token ≠ .mark c) :
    ∀ c, cs.head? = some c → isBlank c = false := by
  intro c head
  obtain ⟨more, rfl⟩ := List.head?_eq_some_iff.mp head
  by_contra blank
  rw [Bool.not_eq_false] at blank
  rw [token?, firstToken_blank blank] at found
  exact other c blank (Prod.mk.inj (Option.some_inj.mp found)).1.symm

/-- The first token of a value is there to be seen. -/
theorem exists_tokens_print {v : Value} (momentless : v.Momentless) (style : Style) (level : Nat)
    (ends : EndsNumber rest) : ∃ token left after, Begins v token ∧
      ((∀ c, token ≠ .mark c) → after = rest) ∧
      tokens (print style level v ++ rest) = ⟨token, left⟩ :: tokens after := by
  obtain ⟨token, after, found, begins, whole⟩ := exists_token momentless style level ends
  refine ⟨token, _, after, begins, whole, tokens_eq_cons found (visible_of_token? found ?_)⟩
  rintro c blank rfl
  rcases begins with ⟨rfl, -⟩ | ⟨rfl, -⟩ <;> cases blank

/-! ## The items of a list -/

/-- Reading a value's text leads to having read the value. -/
def ReadsBack (style : Style) (v : Value) : Prop :=
  ∀ (level : Nat) (opened : List Frame) (rest : List Char),
    opened.length + v.levels ≤ nestingLimit → EndsNumber rest →
      run ⟨opened, .value⟩ (tokens (print style level v ++ rest)) =
        run (State.give v opened) (tokens rest)

/-- The first item of a list may as well be any value in an open list. -/
theorem run_firstItem {v : Value} (momentless : v.Momentless) (level : Nat)
    (ends : EndsNumber rest) : run ⟨opened, .firstItem⟩ (tokens (print style level v ++ rest)) =
      run ⟨.list [] :: opened, .value⟩ (tokens (print style level v ++ rest)) := by
  obtain ⟨token, left, after, begins, -, found⟩ :=
    exists_tokens_print momentless style level ends
  rw [found, run, run]
  congr 1
  cases token with
  | mark c =>
      -- No value starts with the bracket that closes an empty list.
      rcases begins with ⟨rfl, -⟩ | ⟨rfl, -⟩ <;> rfl
  | text content => rfl
  | scalar content => rfl

/-- What follows an item: more items after commas, then the closing bracket. -/
def following (style : Style) (level : Nat) (closing : Char) (items : List (List Char))
    (rest : List Char) : List Char :=
  items.flatMap (style.comma ++ style.lineBreak (level + 1) ++ ·) ++
    (style.lineBreak level ++ closing :: rest)

theorem enclose_append (style : Style) (level : Nat) (opening closing : Char) (item : List Char)
    (items : List (List Char)) (rest : List Char) :
    style.enclose level opening closing (item :: items) ++ rest =
      opening :: (style.lineBreak (level + 1) ++
        (item ++ following style level closing items rest)) := by
  simp [Style.enclose, flatten_intersperse, following]

theorem endsNumber_following (spaced : style.Spaced) (level : Nat) {closing : Char}
    (bracket : closing = ']' ∨ closing = '\x7d') (items : List (List Char)) (rest : List Char) :
    EndsNumber (following style level closing items rest) := by
  obtain ⟨blanks, isComma, -⟩ := spaced.comma
  cases items with
  | nil =>
      apply endsNumber_blanks (isBlank_of_mem_lineBreak style level)
      exact (endsValue_cons rest (.inr bracket)).endsNumber
  | cons item items =>
      rw [following, List.flatMap_cons, isComma]
      exact (endsValue_cons _ (.inl rfl)).endsNumber

theorem tokens_following_nil (level : Nat) {closing : Char}
    (first : firstToken closing rest = (.mark closing, rest)) (visible : isBlank closing = false) :
    tokens (following style level closing [] rest) =
      ⟨.mark closing, rest.length + 1⟩ :: tokens rest := by
  rw [following, List.flatMap_nil, List.nil_append,
    tokens_blanks (isBlank_of_mem_lineBreak style level), tokens_mark first visible]

theorem tokens_following_cons (spaced : style.Spaced) (level : Nat) (closing : Char)
    (item : List Char) (items : List (List Char)) (rest : List Char) :
    ∃ left, tokens (following style level closing (item :: items) rest) =
      ⟨.mark ',', left⟩ :: tokens (item ++ following style level closing items rest) := by
  obtain ⟨blanks, isComma, all⟩ := spaced.comma
  have split : following style level closing (item :: items) rest = ',' :: (blanks ++
      (style.lineBreak (level + 1) ++ (item ++ following style level closing items rest))) := by
    simp [following, isComma]
  rw [split, tokens_mark rfl rfl, tokens_blanks all,
    tokens_blanks (isBlank_of_mem_lineBreak style (level + 1))]
  exact ⟨_, rfl⟩

theorem run_moreItems (spaced : style.Spaced) (level : Nat) (before : List Value)
    {items : List Value} (each : ∀ item ∈ items, ReadsBack style item)
    (shallow : ∀ item ∈ items, opened.length + 1 + item.levels ≤ nestingLimit) :
    run ⟨opened, .afterItem before⟩ (tokens
        (following style level ']' (items.map (print style (level + 1))) rest)) =
      run (State.give (.list (before.reverse ++ items)) opened) (tokens rest) := by
  induction items generalizing before with
  | nil =>
      rw [List.map_nil, tokens_following_nil level rfl rfl, List.append_nil]
      rfl
  | cons item items ih =>
      rw [List.forall_mem_cons] at each shallow
      obtain ⟨left, comma⟩ := tokens_following_cons spaced level ']' (print style (level + 1) item)
        (items.map (print style (level + 1))) rest
      have read := each.1 (level + 1) (.list before :: opened) _ shallow.1
        (endsNumber_following spaced level (.inl rfl) (items.map (print style (level + 1))) rest)
      calc
        _ = run ⟨.list before :: opened, .value⟩ (tokens (print style (level + 1) item ++
              following style level ']' (items.map (print style (level + 1))) rest)) := by
          rw [List.map_cons, comma]
          rfl
        _ = run ⟨opened, .afterItem (item :: before)⟩ (tokens
              (following style level ']' (items.map (print style (level + 1))) rest)) := read
        _ = _ := by
          rw [ih (item :: before) each.2 shallow.2, List.reverse_cons, List.append_assoc,
            List.singleton_append]

/-! ## The entries of a table -/

/-- What is wanted where a key may stand. -/
inductive WantsKey : Wanted → Entries → Prop
  | first : WantsKey .firstKey []
  | later (before : Entries) : WantsKey (.key before) before

/-- A key and its colon are read, and the value of the key is wanted. -/
theorem run_key (spaced : style.Spaced) {wanted : Wanted} {before : Entries}
    (wants : WantsKey wanted before) (key : String) :
    run ⟨opened, wanted⟩ (tokens (printText style.ascii key ++ style.colon ++ rest)) =
      run ⟨.table before key :: opened, .value⟩ (tokens rest) := by
  obtain ⟨blanks, isColon, all⟩ := spaced.colon
  have text := tokens_eq_cons (token?_text style.ascii key (style.colon ++ rest)) (by
    intro c head
    obtain rfl := Option.some_inj.mp head
    rfl)
  rw [List.append_assoc, text, isColon, List.cons_append, tokens_mark rfl rfl, tokens_blanks all]
  cases wants <;> rfl

theorem run_moreEntries (spaced : style.Spaced) (level : Nat) (before : Entries)
    {entries : Entries} (each : ∀ entry ∈ entries, ReadsBack style entry.2)
    (shallow : ∀ entry ∈ entries, opened.length + 1 + entry.2.levels ≤ nestingLimit)
    (distinct : ((before ++ entries).map Prod.fst).Nodup) :
    run ⟨opened, .afterEntry before⟩ (tokens
        (following style level '\x7d' (entries.map (printEntry style (level + 1))) rest)) =
      run (State.give (.table (before ++ entries)) opened) (tokens rest) := by
  induction entries generalizing before with
  | nil =>
      rw [List.map_nil, tokens_following_nil level rfl rfl, List.append_nil]
      rfl
  | cons entry entries ih =>
      obtain ⟨key, value⟩ := entry
      rw [List.forall_mem_cons] at each shallow
      obtain ⟨left, comma⟩ := tokens_following_cons spaced level '\x7d'
        (printEntry style (level + 1) (key, value)) (entries.map (printEntry style (level + 1)))
        rest
      have read := each.1 (level + 1) (.table before key :: opened) _ shallow.1
        (endsNumber_following spaced level (.inr rfl) (entries.map (printEntry style (level + 1)))
          rest)
      have fresh : key ∉ before.map Prod.fst := Entries.notMem_of_nodup distinct
      have split : before ++ (key, value) :: entries = before.put key value ++ entries := by
        rw [Entries.put_of_notMem value fresh, List.append_assoc, List.singleton_append]
      calc
        _ = run ⟨opened, .key before⟩ (tokens (printEntry style (level + 1) (key, value) ++
              following style level '\x7d' (entries.map (printEntry style (level + 1))) rest)) := by
          rw [List.map_cons, comma]
          rfl
        _ = run ⟨.table before key :: opened, .value⟩ (tokens (print style (level + 1) value ++
              following style level '\x7d' (entries.map (printEntry style (level + 1))) rest)) := by
          rw [printEntry, List.append_assoc, run_key spaced (.later before)]
        _ = run ⟨opened, .afterEntry (before.put key value)⟩ (tokens
              (following style level '\x7d' (entries.map (printEntry style (level + 1))) rest)) :=
          read
        _ = _ := by
          rw [split] at distinct ⊢
          exact ih (before.put key value) each.2 shallow.2 distinct

/-! ## Whole values -/

theorem run_openList (room : opened.length < nestingLimit) (rest : List Char) :
    run ⟨opened, .value⟩ (tokens ('[' :: rest)) = run ⟨opened, .firstItem⟩ (tokens rest) := by
  have opens (left : Nat) :
      step ⟨opened, .value⟩ ⟨.mark '[', left⟩ = enter left opened .firstItem := rfl
  rw [tokens_mark rfl rfl, run, opens, enter, if_pos room]
  rfl

theorem run_openTable (room : opened.length < nestingLimit) (rest : List Char) :
    run ⟨opened, .value⟩ (tokens ('\x7b' :: rest)) = run ⟨opened, .firstKey⟩ (tokens rest) := by
  have opens (left : Nat) :
      step ⟨opened, .value⟩ ⟨.mark '\x7b', left⟩ = enter left opened .firstKey := rfl
  rw [tokens_mark rfl rfl, run, opens, enter, if_pos room]
  rfl

theorem readsBack_int {n : Int} (digits : (Value.int n).digitsFit = true) :
    ReadsBack style (.int n) := by
  intro level opened rest shallow ends
  have few : ¬ digitLimit < (decimalDigits n.natAbs).length := by
    simpa [Value.digitsFit] using digits
  have found := token?_int n ends
  rw [if_neg few] at found
  rw [print, tokens_eq_cons found (visible_of_token? found (by simp))]
  rfl

theorem readsBack_list (spaced : style.Spaced) {items : List Value}
    (readable : (Value.list items).Readable) (each : ∀ item ∈ items, ReadsBack style item) :
    ReadsBack style (.list items) := by
  intro level opened rest shallow ends
  have room : opened.length < nestingLimit := by
    rw [Value.levels] at shallow
    omega
  cases items with
  | nil =>
      rw [print, printItems, Style.enclose]
      simp only [List.cons_append, List.nil_append]
      rw [run_openList room, tokens_mark rfl rfl]
      rfl
  | cons item items =>
      have inside : ∀ v ∈ item :: items, opened.length + 1 + v.levels ≤ nestingLimit := by
        intro v member
        have shallower := Value.levels_item member
        omega
      have follows := endsNumber_following spaced level (.inl rfl)
        (items.map (print style (level + 1))) rest
      have blank := isBlank_of_mem_lineBreak style (level + 1)
      have first := (readable.item List.mem_cons_self).momentless
      rw [List.forall_mem_cons] at inside each
      rw [print, printItems_eq_map, List.map_cons, enclose_append, run_openList room,
        tokens_blanks blank, run_firstItem first (level + 1) follows,
        each.1 (level + 1) (.list [] :: opened) _ inside.1 follows]
      exact run_moreItems spaced level [item] each.2 inside.2

theorem readsBack_table (spaced : style.Spaced) {entries : Entries}
    (distinct : (entries.map Prod.fst).Nodup)
    (each : ∀ entry ∈ entries, ReadsBack style entry.2) : ReadsBack style (.table entries) := by
  intro level opened rest shallow ends
  have room : opened.length < nestingLimit := by
    rw [Value.levels] at shallow
    omega
  cases entries with
  | nil =>
      rw [print, printEntries, Style.enclose]
      simp only [List.cons_append, List.nil_append]
      rw [run_openTable room, tokens_mark rfl rfl]
      rfl
  | cons entry entries =>
      obtain ⟨key, value⟩ := entry
      have inside : ∀ e ∈ (key, value) :: entries,
          opened.length + 1 + e.2.levels ≤ nestingLimit := by
        intro e member
        have shallower := Value.levels_entry member
        omega
      have follows := endsNumber_following spaced level (.inr rfl)
        (entries.map (printEntry style (level + 1))) rest
      have blank := isBlank_of_mem_lineBreak style (level + 1)
      rw [List.forall_mem_cons] at inside each
      rw [print, printEntries_eq_map, List.map_cons, enclose_append, run_openTable room,
        tokens_blanks blank, printEntry, List.append_assoc, run_key spaced .first,
        each.1 (level + 1) (.table [] key :: opened) _ inside.1 follows]
      exact run_moreEntries spaced level [(key, value)] each.2 inside.2 distinct

theorem readsBack (spaced : style.Spaced) {v : Value} (readable : v.Readable) :
    ReadsBack style v := by
  induction v using Value.induct with
  | null | bool b | real x | text s =>
      intro level opened rest shallow ends
      obtain ⟨token, left, after, begins, whole, found⟩ :=
        exists_tokens_print readable.momentless style level ends
      rw [found]
      rcases token with c | (fault | s) | (fault | w)
      · rcases begins with ⟨-, _, other⟩ | ⟨-, _, other⟩ <;> cases other
      · cases begins
      · rw [whole (by simp), show _ = Value.text s from begins]
        rfl
      · obtain ⟨n, other⟩ := begins
        cases other
      · rw [whole (by simp), show _ = w from begins]
        rfl
  | int n => exact readsBack_int readable.digits
  | moment m => cases readable.momentless
  | list items ih =>
      exact readsBack_list spaced readable fun item member =>
        ih item member (readable.item member)
  | table entries ih =>
      exact readsBack_table spaced readable.nodup fun entry member =>
        ih entry member (readable.entry member)

theorem head?_print_ne_byteOrderMark {v : Value} (momentless : v.Momentless) (style : Style)
    (level : Nat) (ends : EndsNumber rest) :
    (print style level v ++ rest).head? ≠ some '\ufeff' := by
  obtain ⟨token, after, found, begins, -⟩ := exists_token momentless style level ends
  intro head
  obtain ⟨more, isMore⟩ := List.head?_eq_some_iff.mp head
  have mark : token? ('\ufeff' :: more) = some (.mark '\ufeff', more) := rfl
  rw [isMore, mark] at found
  obtain ⟨rfl, -⟩ := Prod.mk.inj (Option.some_inj.mp found)
  rcases begins with ⟨other, -⟩ | ⟨other, -⟩ <;> exact absurd other (by decide)

/-- The text of a value is read as the value, whatever its style and whatever blanks follow. -/
theorem read_print (spaced : style.Spaced) {v : Value} (readable : v.Readable)
    (shallow : v.levels ≤ nestingLimit) {blanks : List Char}
    (blank : ∀ c ∈ blanks, isBlank c = true) :
    read (String.ofList (print style 0 v ++ blanks)) = .ok v := by
  have ends : EndsNumber blanks := by
    have nothing := endsNumber_blanks blank endsValue_nil.endsNumber
    rwa [List.append_nil] at nothing
  have unmarked := head?_print_ne_byteOrderMark readable.momentless style 0 ends
  have read := readsBack spaced readable 0 [] blanks (by simpa using shallow) ends
  have rest := tokens_blanks blank []
  rw [List.append_nil, tokens_nil] at rest
  rw [rest] at read
  rw [Json.read, String.toList_ofList, readChars, read]
  · rfl
  · intro more same
    exact unmarked (by rw [same]; rfl)

theorem read_text (spaced : style.Spaced) {v : Value} (readable : v.Readable)
    (shallow : v.levels ≤ nestingLimit) : read (text style v) = .ok v := by
  have read := read_print spaced readable shallow (List.forall_mem_nil _)
  rwa [List.append_nil] at read

end Workflow.Json
