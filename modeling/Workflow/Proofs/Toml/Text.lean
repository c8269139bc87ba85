import Workflow.Proofs.Json.Text
import Workflow.Proofs.Success
import Workflow.Toml.Printer
import Workflow.Toml.Reader

/-!
TOML texts and keys that are read back. Each character's escape is read as that character, a key
without quotes ends where a character stands that needs quotes, and a dotted key is read part by
part.
-/

namespace Workflow.Toml

variable {rest : List Char} {c : Char}

/-! ## Escapes -/

theorem readBasic_simpleEscape {short plain : Char} (simple : simpleEscape? short = some plain)
    (before : List Char) :
    readBasic false before ('\\' :: short :: rest) = readBasic false (plain :: before) rest := by
  have others : short ≠ 'u' ∧ short ≠ 'U' := by
    constructor <;> rintro rfl <;> cases simple
  rw [readBasic]
  simp [readEscape, others, simple]

theorem readBasic_unicodeEscape (small : c.toNat < 0x10000) (before : List Char) :
    readBasic false before ('\\' :: 'u' :: (hexDigits 4 c.toNat ++ rest)) =
      readBasic false (c :: before) rest := by
  obtain ⟨a, b, d, e, isDigits, digits⟩ := Json.exists_hexDigits small
  have number : hexNumber? [a, b, d, e] = some c.toNat := by
    simp only [Json.hexUnit?, Option.bind_eq_bind, Option.bind_eq_some_iff] at digits
    obtain ⟨x, first, y, second, z, third, w, fourth, sum⟩ := digits
    simp only [hexNumber?, List.foldlM_cons, List.foldlM_nil, first, second, third, fourth,
      Option.map_some, Option.bind_eq_bind, Option.bind_some, Option.pure_def, ← sum]
    congr 1
    omega
  have valid : c.toNat.isValidChar := c.valid
  have enough : ¬ rest.length + 4 < 4 := by omega
  rw [isDigits, readBasic]
  simp [readEscape, readHex, number, valid, Char.ofNat_toNat, enough]

/-- A character is written with a short escape, by its code point, or as it is. -/
theorem escapeChar_cases (c : Char) :
    (∃ short, simpleEscape? short = some c ∧ escapeChar c = ['\\', short]) ∨
      (c.toNat < 0x10000 ∧ escapeChar c = '\\' :: 'u' :: hexDigits 4 c.toNat) ∨
      (c ≠ '"' ∧ c ≠ '\\' ∧ isControl c = false ∧ escapeChar c = [c]) := by
  by_cases short : c ∈ ['"', '\\', '\n', '\r', '\x0c', '\x08']
  · left
    simp only [List.mem_cons, List.not_mem_nil, or_false] at short
    rcases short with rfl | rfl | rfl | rfl | rfl | rfl <;>
      · refine ⟨_, ?_, rfl⟩
        rfl
  · right
    simp only [List.mem_cons, List.not_mem_nil, or_false, not_or] at short
    obtain ⟨quote, slash, lineFeed, carriageReturn, formFeed, backspace⟩ := short
    rw [escapeChar, if_neg quote, if_neg slash, if_neg lineFeed, if_neg carriageReturn,
      if_neg formFeed, if_neg backspace]
    split
    next control => exact .inl ⟨by omega, rfl⟩
    next printable =>
      refine .inr ⟨quote, slash, ?_, rfl⟩
      simpa [isControl, not_or] using printable

theorem readBasic_escapeChar (c : Char) (before : List Char) :
    readBasic false before (escapeChar c ++ rest) = readBasic false (c :: before) rest := by
  rcases escapeChar_cases c with ⟨short, simple, escaped⟩ | ⟨small, escaped⟩ |
    ⟨quote, slash, printable, escaped⟩
  · rw [escaped]
    exact readBasic_simpleEscape simple before
  · rw [escaped]
    exact readBasic_unicodeEscape small before
  · rw [escaped, List.singleton_append, readBasic]
    simp [quote, slash, isControlOnLine, printable]

/-! ## Texts -/

theorem readBasic_flatMap (before cs rest : List Char) :
    readBasic false before (cs.flatMap escapeChar ++ '"' :: rest) =
      .ok (before.reverse ++ cs, rest) := by
  induction cs generalizing before with
  | nil =>
      rw [List.flatMap_nil, List.nil_append, readBasic]
      simp
  | cons c cs ih =>
      rw [List.flatMap_cons, List.append_assoc, readBasic_escapeChar, ih, List.reverse_cons,
        List.append_assoc, List.singleton_append]

/-- A text on one line is not taken for one on several, unless a quote follows it. -/
theorem not_tripleQuote (cs : List Char) (ends : rest.head? ≠ some '"') :
    ¬ ['"', '"'] <+: cs.flatMap escapeChar ++ '"' :: rest := by
  cases cs with
  | nil =>
      rintro ⟨more, same⟩
      rw [← (List.cons.inj same).2] at ends
      exact ends rfl
  | cons c cs =>
      rcases escapeChar_cases c with ⟨short, simple, escaped⟩ | ⟨small, escaped⟩ |
        ⟨quote, slash, printable, escaped⟩
      · simp [escaped]
      · simp [escaped]
      · simp [escaped, quote.symm]

theorem readText_printText (s : String) (ends : rest.head? ≠ some '"') :
    readText '"' (s.toList.flatMap escapeChar ++ '"' :: rest) = .ok (s, rest) := by
  have content : readLine '"' (s.toList.flatMap escapeChar ++ '"' :: rest) =
      .ok (s.toList, rest) := readBasic_flatMap [] s.toList rest
  rw [readText, if_neg (mt List.isPrefixOf_iff_prefix.mp (not_tripleQuote _ ends)), content]
  exact congrArg (fun text => Except.ok (text, rest)) String.ofList_toList

/-! ## Keys -/

theorem length_le_flatMap {α : Type} {f : α → List Char} {items : List α}
    (nonempty : ∀ item ∈ items, f item ≠ []) : items.length ≤ (items.flatMap f).length := by
  induction items with
  | nil => exact Nat.le_refl _
  | cons item items ih =>
      rw [List.forall_mem_cons] at nonempty
      have first := List.length_pos_iff.mpr nonempty.1
      have later := ih nonempty.2
      rw [List.flatMap_cons, List.length_append, List.length_cons]
      omega

/-- What follows does not go on with a key. -/
def EndsKey (rest : List Char) : Prop := ∀ c, rest.head? = some c → isBareKeyChar c = false

theorem endsKey_cons (rest : List Char) (other : isBareKeyChar c = false) :
    EndsKey (c :: rest) := by
  intro first head
  rwa [← Option.some_inj.mp head]

theorem exists_printKey_eq_cons (key : String) :
    ∃ first more, printKey key = first :: more ∧ startsKey first = true := by
  simp only [printKey]
  split
  next bare =>
    obtain ⟨nonempty, all⟩ := bare
    obtain ⟨first, more, isCons⟩ := List.exists_cons_of_ne_nil nonempty
    have starts : isBareKeyChar first = true :=
      List.all_eq_true.mp all first (isCons ▸ List.mem_cons_self)
    exact ⟨first, more, isCons, by simp [startsKey, starts]⟩
  next => exact ⟨'"', _, rfl, rfl⟩

theorem printKey_ne_nil (key : String) : printKey key ≠ [] := by
  obtain ⟨first, more, isCons, -⟩ := exists_printKey_eq_cons key
  simp [isCons]

theorem readKeyPart_printKey (key : String) (ends : EndsKey rest) :
    readKeyPart (printKey key ++ rest) = .ok (key, rest) := by
  simp only [printKey]
  split
  next bare =>
    obtain ⟨nonempty, all⟩ := bare
    have same : key.toList.all isBareKeyChar = true := all
    rw [List.all_eq_true] at same
    obtain ⟨first, more, isCons⟩ := List.exists_cons_of_ne_nil nonempty
    have taken : (key.toList ++ rest).takeWhile isBareKeyChar = key.toList := by
      rw [List.takeWhile_append_of_pos same]
      cases rest with
      | nil => simp
      | cons c rest => rw [List.takeWhile_cons_of_neg (by simp [ends c rfl]), List.append_nil]
    have dropped : (key.toList ++ rest).dropWhile isBareKeyChar = rest := by
      have whole := List.takeWhile_append_dropWhile (p := isBareKeyChar) (l := key.toList ++ rest)
      rw [taken] at whole
      exact List.append_cancel_left whole
    have starts : isBareKeyChar first = true := same first (isCons ▸ List.mem_cons_self)
    rw [isCons, List.cons_append] at taken dropped ⊢
    rw [readKeyPart, if_pos starts, taken, dropped, ← isCons, String.ofList_toList]
  next =>
    have content : readLine '"' (key.toList.flatMap escapeChar ++ '"' :: rest) =
        .ok (key.toList, rest) := readBasic_flatMap [] key.toList rest
    simp [printText, readKeyPart, content, isBareKeyChar, Except.map]

/-- A dotted key. -/
def dotted : Key → List Char
  | [] => []
  | part :: parts => printKey part ++ parts.flatMap fun part => '.' :: printKey part

theorem dotted_eq_nil_iff {key : Key} : dotted key = [] ↔ key = [] := by
  cases key <;> simp [dotted, printKey_ne_nil]

theorem subName_dotted (key : Key) (name : String) :
    subName (dotted key) name = dotted (key ++ [name]) := by
  cases key with
  | nil => simp [subName, dotted]
  | cons part parts =>
      have nonempty : dotted (part :: parts) ≠ [] := mt dotted_eq_nil_iff.mp (by simp)
      rw [subName, if_neg nonempty]
      simp [dotted]

/-- What follows is neither a part of a dotted key nor a blank. -/
structure EndsKeys (rest : List Char) : Prop where
  key : EndsKey rest
  point : rest.head? ≠ some '.'
  visible : skipBlanks rest = rest

theorem skipBlanks_cons (rest : List Char) (visible : isBlank c = false) :
    skipBlanks (c :: rest) = c :: rest := List.dropWhile_cons_of_neg (by simp [visible])

theorem endsKeys_cons (rest : List Char) (other : isBareKeyChar c = false) (point : c ≠ '.')
    (visible : isBlank c = false) : EndsKeys (c :: rest) :=
  ⟨endsKey_cons rest other, by simpa using point, skipBlanks_cons rest visible⟩

theorem isBlank_of_startsKey (starts : startsKey c = true) : isBlank c = false := by
  by_contra blank
  rw [Bool.not_eq_false, isBlank, Bool.or_eq_true, beq_iff_eq, beq_iff_eq] at blank
  rcases blank with rfl | rfl <;> cases starts

theorem skipBlanks_printKey (key : String) (rest : List Char) :
    skipBlanks (printKey key ++ rest) = printKey key ++ rest := by
  obtain ⟨first, more, isCons, starts⟩ := exists_printKey_eq_cons key
  rw [isCons]
  exact skipBlanks_cons _ (isBlank_of_startsKey starts)

theorem endsKey_parts (parts : Key) (ends : EndsKeys rest) :
    EndsKey ((parts.flatMap fun part => '.' :: printKey part) ++ rest) ∧
      skipBlanks ((parts.flatMap fun part => '.' :: printKey part) ++ rest) =
        (parts.flatMap fun part => '.' :: printKey part) ++ rest := by
  cases parts with
  | nil => exact ⟨ends.key, ends.visible⟩
  | cons part parts => exact ⟨endsKey_cons _ rfl, skipBlanks_cons _ rfl⟩

theorem readKeyParts_flatMap {parts : Key} (ends : EndsKeys rest) {fuel : Nat}
    (enough : parts.length ≤ fuel) :
    readKeyParts fuel ((parts.flatMap fun part => '.' :: printKey part) ++ rest) =
      .ok (parts, rest) := by
  induction parts generalizing fuel with
  | nil =>
      cases fuel with
      | zero => rfl
      | succ fuel =>
          rw [List.flatMap_nil, List.nil_append, readKeyParts]
          intro after same
          exact ends.point (by rw [same]; rfl)
  | cons part parts ih =>
      cases fuel with
      | zero => cases enough
      | succ fuel =>
          obtain ⟨key, visible⟩ := endsKey_parts parts ends
          have later := ih (Nat.le_of_succ_le_succ enough)
          simp only [List.flatMap_cons, List.cons_append, List.append_assoc, readKeyParts,
            skipBlanks_printKey, readKeyPart_printKey part key, Except.ok_andThen, visible, later]

theorem readKey_dotted {key : Key} (nonempty : key ≠ []) (ends : EndsKeys rest) :
    readKey (dotted key ++ rest) = .ok (key, rest) := by
  obtain ⟨part, parts, rfl⟩ := List.exists_cons_of_ne_nil nonempty
  obtain ⟨first, visible⟩ := endsKey_parts parts ends
  have enough : parts.length ≤
      ((parts.flatMap fun part => '.' :: printKey part) ++ rest).length := by
    have each : parts.length ≤ (parts.flatMap fun part => '.' :: printKey part).length :=
      length_le_flatMap fun part _ => List.cons_ne_nil '.' (printKey part)
    rw [List.length_append]
    omega
  simp only [readKey, dotted, List.append_assoc, readKeyPart_printKey part first,
    Except.ok_andThen, visible, readKeyParts_flatMap ends enough]

/-- A single key may have blanks after it. -/
theorem readKey_printKey (key : String) (rest : List Char) :
    readKey (printKey key ++ ' ' :: '=' :: rest) = .ok ([key], '=' :: rest) := by
  have part := readKeyPart_printKey key (endsKey_cons ('=' :: rest) (c := ' ') rfl)
  rw [readKey, part]
  rfl

theorem skipBlanks_dotted {key : Key} (nonempty : key ≠ []) (rest : List Char) :
    skipBlanks (dotted key ++ rest) = dotted key ++ rest := by
  obtain ⟨part, parts, rfl⟩ := List.exists_cons_of_ne_nil nonempty
  rw [dotted, List.append_assoc, skipBlanks_printKey]

end Workflow.Toml
