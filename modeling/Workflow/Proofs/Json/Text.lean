import Workflow.Proofs.Json.Token

/-!
Texts that are scanned back. Each character's escape is read as that character, those beyond the
first plane as two surrogates. Main statement: a printed text is one token, which holds the text.
-/

namespace Workflow.Json

variable {start : Nat} {before rest : List Char} {next : Char}

/-! ## Hexadecimal digits -/

theorem hexValue?_hexDigit {d : Nat} (small : d < 16) : hexValue? (hexDigit d) = some d := by
  interval_cases d <;> rfl

theorem exists_hexDigits {unit : Nat} (small : unit < 0x10000) :
    ∃ a b c d, hexDigits 4 unit = [a, b, c, d] ∧ hexUnit? a b c d = some unit := by
  have digit (n : Nat) : hexValue? (hexDigit (n % 16)) = some (n % 16) :=
    hexValue?_hexDigit (Nat.mod_lt n (by decide))
  refine ⟨_, _, _, _, rfl, ?_⟩
  simp only [hexUnit?, digit, Option.bind_eq_bind, Option.bind_some, Option.some_inj]
  omega

/-! ## Surrogates -/

theorem isHighSurrogate_iff {unit : Nat} :
    isHighSurrogate unit = true ↔ 0xd800 ≤ unit ∧ unit < 0xdc00 := by
  rw [isHighSurrogate, Bool.and_eq_true, decide_eq_true_eq, decide_eq_true_eq]

theorem isLowSurrogate_iff {unit : Nat} :
    isLowSurrogate unit = true ↔ 0xdc00 ≤ unit ∧ unit < 0xe000 := by
  rw [isLowSurrogate, Bool.and_eq_true, decide_eq_true_eq, decide_eq_true_eq]

/-- No character is half of a pair of surrogates. -/
theorem notSurrogate (c : Char) :
    isHighSurrogate c.toNat = false ∧ isLowSurrogate c.toNat = false := by
  have valid : c.toNat < 0xd800 ∨ 0xdfff < c.toNat ∧ c.toNat < 0x110000 := c.valid
  rw [← Bool.not_eq_true, ← Bool.not_eq_true, isHighSurrogate_iff, isLowSurrogate_iff]
  omega

/-! ## Escapes -/

theorem scanText_unit {a b c d : Char} {unit : Nat} (digits : hexUnit? a b c d = some unit)
    (alone : isHighSurrogate unit = false) :
    scanText start before ('\\' :: 'u' :: a :: b :: c :: d :: next :: rest) =
      scanText start (ofUnit unit :: before) (next :: rest) := by
  by_cases escaped : ∃ e f g h next' rest', next :: rest =
    '\\' :: 'u' :: e :: f :: g :: h :: next' :: rest'
  · obtain ⟨e, f, g, h, next', rest', same⟩ := escaped
    rw [same, scanText]
    simp [digits, alone]
  · rw [scanText]
    · simp [digits]
    · intro e f g h next' rest' slash unicode
      exact escaped ⟨e, f, g, h, next', rest', by rw [slash, unicode]⟩

theorem scanText_unicodeEscape {unit : Nat} (small : unit < 0x10000)
    (alone : isHighSurrogate unit = false) :
    scanText start before (unicodeEscape unit ++ next :: rest) =
      scanText start (ofUnit unit :: before) (next :: rest) := by
  obtain ⟨a, b, c, d, isDigits, digits⟩ := exists_hexDigits small
  rw [unicodeEscape, isDigits]
  exact scanText_unit digits alone

theorem scanText_surrogates {high low : Nat} (isHigh : isHighSurrogate high = true)
    (isLow : isLowSurrogate low = true) :
    scanText start before (unicodeEscape high ++ (unicodeEscape low ++ next :: rest)) =
      scanText start (ofSurrogates high low :: before) (next :: rest) := by
  have highBound : high < 0x10000 := by
    have bounds := isHighSurrogate_iff.mp isHigh
    omega
  have lowBound : low < 0x10000 := by
    have bounds := isLowSurrogate_iff.mp isLow
    omega
  obtain ⟨a, b, c, d, isHighDigits, highDigits⟩ := exists_hexDigits highBound
  obtain ⟨e, f, g, h, isLowDigits, lowDigits⟩ := exists_hexDigits lowBound
  rw [unicodeEscape, unicodeEscape, isHighDigits, isLowDigits]
  simp only [List.cons_append, List.nil_append]
  rw [scanText]
  simp [highDigits, lowDigits, isHigh, isLow]

theorem scanText_simpleEscape {c plain : Char} (simple : simpleEscape? c = some plain) :
    scanText start before ('\\' :: c :: rest) = scanText start (plain :: before) rest := by
  have other : c ≠ 'u' := by
    intro same
    rw [same] at simple
    cases simple
  rw [scanText]
  · rw [simple]
  · intro _ _ _ _ _ _ _ _ _ _ same
    exact absurd same other
  · intro _ _ _ _ _ _ same
    exact absurd same other
  · exact other

/-! ## Characters -/

theorem ofUnit_toNat (c : Char) : ofUnit c.toNat = c := by
  obtain ⟨notHigh, notLow⟩ := notSurrogate c
  rw [ofUnit, notHigh, notLow]
  exact Char.ofNat_toNat c

theorem scanText_codePointEscape (c : Char) :
    scanText start before (codePointEscape c.toNat ++ next :: rest) =
      scanText start (c :: before) (next :: rest) := by
  have valid : c.toNat < 0xd800 ∨ 0xdfff < c.toNat ∧ c.toNat < 0x110000 := c.valid
  rw [codePointEscape]
  split
  next small =>
    rw [scanText_unicodeEscape small (notSurrogate c).1, ofUnit_toNat]
  next large =>
    have isHigh : isHighSurrogate (0xd800 + (c.toNat - 0x10000) / 0x400) = true :=
      isHighSurrogate_iff.mpr (by omega)
    have isLow : isLowSurrogate (0xdc00 + (c.toNat - 0x10000) % 0x400) = true :=
      isLowSurrogate_iff.mpr (by omega)
    have whole : ofSurrogates (0xd800 + (c.toNat - 0x10000) / 0x400)
        (0xdc00 + (c.toNat - 0x10000) % 0x400) = c := by
      have sum : 0x10000 + (0xd800 + (c.toNat - 0x10000) / 0x400 - 0xd800) * 0x400 +
          (0xdc00 + (c.toNat - 0x10000) % 0x400 - 0xdc00) = c.toNat := by omega
      rw [ofSurrogates, sum, Char.ofNat_toNat]
    rw [List.append_assoc, scanText_surrogates isHigh isLow, whole]

/-- A character is written with a short escape, by its code point, or as it is. -/
theorem escapeChar_cases (ascii : Bool) (c : Char) :
    (∃ short, simpleEscape? short = some c ∧ escapeChar ascii c = ['\\', short]) ∨
      escapeChar ascii c = codePointEscape c.toNat ∨
      (c ≠ '"' ∧ c ≠ '\\' ∧ ¬ c.toNat < 0x20 ∧ escapeChar ascii c = [c]) := by
  by_cases short : c ∈ ['"', '\\', '\n', '\r', '\t', '\x0c', '\x08']
  · left
    simp only [List.mem_cons, List.not_mem_nil, or_false] at short
    rcases short with rfl | rfl | rfl | rfl | rfl | rfl | rfl <;>
      · refine ⟨_, ?_, rfl⟩
        rfl
  · right
    simp only [List.mem_cons, List.not_mem_nil, or_false, not_or] at short
    obtain ⟨quote, slash, lineFeed, carriageReturn, tab, formFeed, backspace⟩ := short
    rw [escapeChar, if_neg quote, if_neg slash, if_neg lineFeed, if_neg carriageReturn,
      if_neg tab, if_neg formFeed, if_neg backspace]
    by_cases control : c.toNat < 0x20
    · left
      rw [if_pos control, codePointEscape, if_pos (by omega)]
    · rw [if_neg control]
      split
      · exact .inl rfl
      · exact .inr ⟨quote, slash, control, rfl⟩

theorem scanText_escapeChar (ascii : Bool) (c : Char) :
    scanText start before (escapeChar ascii c ++ next :: rest) =
      scanText start (c :: before) (next :: rest) := by
  rcases escapeChar_cases ascii c with ⟨short, simple, escaped⟩ | escaped |
    ⟨quote, slash, printable, escaped⟩
  · rw [escaped]
    exact scanText_simpleEscape simple
  · rw [escaped]
    exact scanText_codePointEscape c
  · rw [escaped, List.singleton_append, scanText, if_neg printable]
    · exact quote
    · exact fun same => absurd same slash
    · exact fun _ _ _ _ _ _ _ _ _ _ same => absurd same slash
    · exact fun _ _ _ _ _ _ same => absurd same slash
    · exact fun _ same => absurd same slash
    · exact fun _ _ same => absurd same slash

/-! ## Texts -/

theorem scanText_flatMap (start : Nat) (before : List Char) (ascii : Bool) (cs rest : List Char) :
    scanText start before (cs.flatMap (escapeChar ascii) ++ '"' :: rest) =
      (.ok (String.ofList (before.reverse ++ cs)), rest) := by
  induction cs generalizing before with
  | nil => rw [List.flatMap_nil, List.nil_append, scanText, List.append_nil]
  | cons c cs ih =>
      have more : ∃ next more, cs.flatMap (escapeChar ascii) ++ '"' :: rest = next :: more :=
        List.exists_cons_of_ne_nil (by simp)
      obtain ⟨next, more, isMore⟩ := more
      rw [List.flatMap_cons, List.append_assoc, isMore, scanText_escapeChar, ← isMore, ih,
        List.reverse_cons, List.append_assoc, List.singleton_append]

/-- A printed text is one token. -/
theorem token?_text (ascii : Bool) (s : String) (rest : List Char) :
    token? (printText ascii s ++ rest) = some (.text (.ok s), rest) := by
  have scanned := scanText_flatMap ((s.toList.flatMap (escapeChar ascii) ++ '"' :: rest).length + 1)
    [] ascii s.toList rest
  rw [List.reverse_nil, List.nil_append, String.ofList_toList] at scanned
  simp only [printText, List.cons_append, List.append_assoc, List.nil_append, token?, firstToken,
    if_true, scanned]

end Workflow.Json
