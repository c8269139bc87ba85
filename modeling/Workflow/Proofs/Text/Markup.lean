import Mathlib.Data.List.TakeWhile
import Workflow.Proofs.Success
import Workflow.Text.Markup

/-!
Marked texts that can be shown. Main statements: an escaped text has no tags, so it can be shown
whatever it is; and a text after a styled one can be shown wherever it stands.
-/

namespace Workflow.Markup

variable {cs content after rest : List Char} {c : Char} {slashes : Nat}

/-! ## Tags -/

/-- What may stand between the brackets of a tag. -/
inductive IsTag : List Char → Prop
  | mk {c : Char} {rest : List Char} (starts : startsTag c = true)
      (inside : ∀ d ∈ rest, endsTag d = false) : IsTag (c :: rest)

instance : DecidablePred IsTag
  | [] => .isFalse nofun
  | c :: rest =>
    have : Decidable (∀ d ∈ rest, endsTag d = false) := List.decidableBAll _ rest
    decidable_of_iff (startsTag c = true ∧ ∀ d ∈ rest, endsTag d = false)
      ⟨fun ⟨starts, inside⟩ => .mk starts inside, fun ⟨starts, inside⟩ => ⟨starts, inside⟩⟩

theorem tag?_bracketed (isTag : IsTag content) (after : List Char) :
    tag? (bracketed content ++ after) = some (content, after) := by
  obtain ⟨starts, inside⟩ := isTag
  rename_i c rest
  have all : ∀ d ∈ rest, (!endsTag d) = true := by simpa using inside
  have split : bracketed (c :: rest) ++ after = '[' :: c :: (rest ++ ']' :: after) := by
    simp [bracketed]
  have ends : endsTag ']' = true := rfl
  rw [split, tag?, starts, List.dropWhile_append_of_pos all, List.takeWhile_append_of_pos all]
  simp [ends]

theorem of_tag? (found : tag? cs = some (content, after)) :
    IsTag content ∧ cs = bracketed content ++ after := by
  unfold tag? at found
  split at found
  next c rest =>
    split at found
    next starts dropped =>
      cases found
      refine ⟨⟨starts, fun d member => ?_⟩, ?_⟩
      · simpa using List.mem_takeWhile_imp member
      · have whole := List.takeWhile_append_dropWhile (p := (!endsTag ·)) (l := rest)
        rw [dropped] at whole
        simp [bracketed, whole]
    next => cases found
  next => cases found

/-- Whether a tag starts is for the first two characters and the next bracket to say. -/
theorem tag?_eq_none_iff : tag? ('[' :: c :: rest) = none ↔
    startsTag c = false ∨ rest.find? endsTag ≠ some ']' := by
  rw [List.find?_eq_head?_dropWhile_not, tag?]
  split
  next after starts dropped => simp [starts, dropped]
  next other =>
    refine ⟨fun _ => ?_, fun _ => rfl⟩
    rw [or_iff_not_imp_left, Bool.not_eq_false]
    intro starts head
    obtain ⟨after, dropped⟩ := List.head?_eq_some_iff.mp head
    exact other after starts dropped

theorem eq_bracket_of_tag? {found : List Char × List Char} (tag : tag? (c :: rest) = some found) :
    c = '[' := by
  unfold tag? at tag
  split at tag
  next same => exact (List.cons.inj same).1
  next => cases tag

/-! ## Tags after backslashes -/

theorem escapedTag?_backslashes (isTag : IsTag content) (slashes : Nat) (after : List Char) :
    escapedTag? (backslashes slashes ++ bracketed content ++ after) =
      some (slashes, content, after) := by
  have all : ∀ c ∈ backslashes slashes, (c == '\\') = true := by simp [backslashes]
  have opening : bracketed content ++ after = '[' :: (content ++ ']' :: after) := by
    simp [bracketed]
  rw [escapedTag?, List.append_assoc, List.dropWhile_append_of_pos all,
    List.takeWhile_append_of_pos all, opening, List.dropWhile_cons_of_neg (by decide),
    List.takeWhile_cons_of_neg (by decide), ← opening, tag?_bracketed isTag]
  simp [backslashes]

theorem of_escapedTag? (found : escapedTag? cs = some (slashes, content, after)) :
    IsTag content ∧ cs = backslashes slashes ++ bracketed content ++ after := by
  obtain ⟨⟨content', after'⟩, tag, same⟩ := Option.map_eq_some_iff.mp found
  cases same
  obtain ⟨isTag, dropped⟩ := of_tag? tag
  refine ⟨isTag, ?_⟩
  have taken : cs.takeWhile (· == '\\') =
      backslashes (cs.takeWhile (· == '\\')).length := by
    rw [backslashes, List.eq_replicate_iff]
    exact ⟨rfl, fun c member => by simpa using List.mem_takeWhile_imp member⟩
  rw [List.append_assoc, ← dropped, ← taken, List.takeWhile_append_dropWhile]

/-- A backslash in front changes nothing. -/
theorem escapedTag?_backslash_eq_none_iff :
    escapedTag? ('\\' :: rest) = none ↔ escapedTag? rest = none := by
  simp [escapedTag?]

theorem escapedTag?_cons_eq_none (noSlash : c ≠ '\\') (noBracket : c ≠ '[') :
    escapedTag? (c :: rest) = none := by
  have stays : (c :: rest).dropWhile (· == '\\') = c :: rest :=
    List.dropWhile_cons_of_neg (by simpa using noSlash)
  rw [escapedTag?, stays, Option.map_eq_none_iff]
  by_contra some
  obtain ⟨found, tag⟩ := Option.ne_none_iff_exists'.mp some
  exact noBracket (eq_bracket_of_tag? tag)

theorem escapedTag?_bracket_eq_none_iff :
    escapedTag? ('[' :: rest) = none ↔ tag? ('[' :: rest) = none := by
  have stays : ('[' :: rest).dropWhile (· == '\\') = '[' :: rest :=
    List.dropWhile_cons_of_neg (by decide)
  rw [escapedTag?, stays, Option.map_eq_none_iff]

/-- A text is empty, or starts with a tag after backslashes, or with a character that stands for
itself. -/
theorem textInduction {motive : List Char → Prop} (nil : motive [])
    (tag : ∀ slashes content after, IsTag content → motive after →
      motive (backslashes slashes ++ bracketed content ++ after))
    (plain : ∀ c rest, escapedTag? (c :: rest) = none → motive rest → motive (c :: rest)) :
    ∀ cs, motive cs := by
  intro cs
  induction cs using escapeTags.induct with
  | case1 cs slashes content after found ih =>
      obtain ⟨isTag, rfl⟩ := of_escapedTag? found
      exact tag slashes content after isTag ih
  | case2 none => exact nil
  | case3 c rest none ih => exact plain c rest none ih

/-! ## Escaped texts -/

theorem escapeTags_nil : escapeTags [] = [] := by
  rw [escapeTags]
  rfl

theorem escapeTags_tag (isTag : IsTag content) (slashes : Nat) (after : List Char) :
    escapeTags (backslashes slashes ++ bracketed content ++ after) =
      backslashes (2 * slashes + 1) ++ bracketed content ++ escapeTags after := by
  have found := escapedTag?_backslashes isTag slashes after
  rw [escapeTags]
  split
  next found' =>
    rw [found] at found'
    cases found'
    rfl
  next none =>
    rw [found] at none
    cases none

theorem escapeTags_cons (none : escapedTag? (c :: rest) = none) :
    escapeTags (c :: rest) = c :: escapeTags rest := by
  rw [escapeTags]
  split
  next found =>
    rw [none] at found
    cases found
  next => rfl

theorem find?_backslashes (slashes : Nat) (after : List Char) :
    (backslashes slashes ++ bracketed content ++ after).find? endsTag = some '[' := by
  have passed : (backslashes slashes).find? endsTag = none := by
    simp [backslashes, endsTag]
  rw [List.append_assoc, List.find?_append, passed, Option.none_or]
  rfl

/-- No bracket is in the text. -/
def Bracketless (cs : List Char) : Prop := ∀ c ∈ cs, endsTag c = false

instance : DecidablePred Bracketless := fun cs => List.decidableBAll _ cs

theorem bracketless_backslashes (slashes : Nat) : Bracketless (backslashes slashes) := by
  intro c member
  rw [List.eq_of_mem_replicate member]
  rfl

theorem Bracketless.find?_eq_none (free : Bracketless rest) : rest.find? endsTag = none :=
  List.find?_eq_none.mpr fun c member => by simp [free c member]

/-- Escaping puts backslashes alone in front of a bracket. -/
theorem find?_escapeTags (cs : List Char) (free : Bracketless rest) :
    (escapeTags cs ++ rest).find? endsTag = cs.find? endsTag := by
  induction cs using textInduction with
  | nil => rw [escapeTags_nil, List.nil_append, free.find?_eq_none, List.find?_nil]
  | tag slashes content after isTag ih =>
      rw [escapeTags_tag isTag, find?_backslashes, List.append_assoc, find?_backslashes]
  | plain c cs noTag ih =>
      rw [escapeTags_cons noTag, List.cons_append, List.find?_cons, List.find?_cons, ih]

theorem escapedTag?_bracketless (free : Bracketless cs) : escapedTag? cs = none := by
  induction cs with
  | nil => rfl
  | cons c cs ih =>
      obtain ⟨first, later⟩ := List.forall_mem_cons.mp free
      by_cases slash : c = '\\'
      · rw [slash, escapedTag?_backslash_eq_none_iff]
        exact ih later
      · apply escapedTag?_cons_eq_none slash
        rintro rfl
        cases first

theorem escapedTag?_replicate (extra : Nat) : escapedTag? (backslashes extra) = none :=
  escapedTag?_bracketless (bracketless_backslashes extra)

theorem tag?_backslash (rest : List Char) : tag? ('[' :: '\\' :: rest) = none :=
  tag?_eq_none_iff.mpr (.inl rfl)

/-- A bracket that starts no tag starts none before the escaped text. -/
theorem tag?_escapeTags (noTag : tag? ('[' :: cs) = none) (free : Bracketless rest) :
    tag? ('[' :: (escapeTags cs ++ rest)) = none := by
  cases cs with
  | nil =>
      rw [escapeTags_nil, List.nil_append]
      cases rest with
      | nil => rfl
      | cons c rest =>
          have none := (List.forall_mem_cons.mp free).2
          rw [tag?_eq_none_iff, Bracketless.find?_eq_none none]
          exact .inr nofun
  | cons d more =>
      cases next : escapedTag? (d :: more) with
      | some found =>
          obtain ⟨slashes, content, after⟩ := found
          obtain ⟨isTag, split⟩ := of_escapedTag? next
          rw [split, escapeTags_tag isTag]
          exact tag?_backslash _
      | none =>
          rw [escapeTags_cons next, List.cons_append]
          rw [tag?_eq_none_iff] at noTag ⊢
          rwa [find?_escapeTags more free]

/-- Where no tag starts, none starts in the escaped text: a tag that comes later has a backslash in
front. -/
theorem escapedTag?_escapeTags (noTag : escapedTag? cs = none) (free : Bracketless rest) :
    escapedTag? (escapeTags cs ++ rest) = none := by
  induction cs with
  | nil =>
      rw [escapeTags_nil]
      exact escapedTag?_bracketless free
  | cons c cs ih =>
      rw [escapeTags_cons noTag, List.cons_append]
      by_cases slash : c = '\\'
      · rw [slash, escapedTag?_backslash_eq_none_iff] at noTag ⊢
        exact ih noTag
      by_cases bracket : c = '['
      · rw [bracket, escapedTag?_bracket_eq_none_iff] at noTag ⊢
        exact tag?_escapeTags noTag free
      · exact escapedTag?_cons_eq_none slash bracket

/-! ## Pieces -/

def Piece.IsShown : Piece → Prop
  | .shown _ => True
  | .tag _ _ => False

theorem pieces_nil (position : Nat) (before : List Char) :
    pieces position before [] = [.shown (unescapeBrackets before.reverse)] := by
  rw [pieces]
  rfl

theorem pieces_tag (isTag : IsTag content) (position slashes : Nat) (before after : List Char) :
    pieces position before (backslashes slashes ++ bracketed content ++ after) =
      .shown (unescapeBrackets before.reverse) :: (piecesOfTag position slashes content ++
        pieces (position + (slashes + (content.length + 2))) [] after) := by
  have found := escapedTag?_backslashes isTag slashes after
  have size : (backslashes slashes ++ bracketed content ++ after).length - after.length =
      slashes + (content.length + 2) := by
    simp [backslashes, bracketed]
    omega
  rw [pieces]
  split
  next found' =>
    rw [found] at found'
    cases found'
    rw [size]
  next none =>
    rw [found] at none
    cases none

theorem pieces_cons (noTag : escapedTag? (c :: rest) = none) (position : Nat)
    (before : List Char) :
    pieces position before (c :: rest) = pieces (position + 1) (c :: before) rest := by
  rw [pieces]
  split
  next found =>
    rw [noTag] at found
    cases found
  next => rfl

theorem pieces_bracketless (free : Bracketless cs) (position : Nat) (before : List Char) :
    ∀ piece ∈ pieces position before cs, piece.IsShown := by
  induction cs generalizing position before with
  | nil => simp [pieces_nil, Piece.IsShown]
  | cons c cs ih =>
      rw [pieces_cons (escapedTag?_bracketless free)]
      exact ih (List.forall_mem_cons.mp free).2 _ _

/-- An escaped text has no tags. -/
theorem isShown_pieces_escapeTags (cs : List Char) (free : Bracketless rest) (position : Nat)
    (before : List Char) :
    ∀ piece ∈ pieces position before (escapeTags cs ++ rest), piece.IsShown := by
  induction cs using textInduction generalizing position before with
  | nil =>
      rw [escapeTags_nil]
      exact pieces_bracketless free position before
  | tag slashes content after isTag ih =>
      have odd : (2 * slashes + 1) % 2 = 1 := by omega
      rw [escapeTags_tag isTag, List.append_assoc (_ ++ _), pieces_tag isTag, List.forall_mem_cons,
        List.forall_mem_append]
      refine ⟨trivial, ?_, ih _ _⟩
      simp [piecesOfTag, odd, Piece.IsShown]
  | plain c cs noTag ih =>
      have noTag' := escapedTag?_escapeTags noTag free
      rw [escapeTags_cons noTag, List.cons_append] at noTag' ⊢
      rw [pieces_cons noTag']
      exact ih _ _

/-! ## What is shown -/

theorem exists_showPieces {shown : List Piece} (all : ∀ piece ∈ shown, piece.IsShown)
    (opened : List (List Char)) : ∃ text, showPieces opened shown = .ok text := by
  induction shown with
  | nil => exact ⟨[], rfl⟩
  | cons piece shown ih =>
      rw [List.forall_mem_cons] at all
      obtain ⟨text, rest⟩ := ih all.2
      cases piece with
      | shown first => exact ⟨_, by rw [showPieces, rest]; rfl⟩
      | tag position content => exact all.1.elim

theorem exists_escapeEnd_eq (cs : List Char) : ∃ extra, escapeEnd cs = cs ++ backslashes extra := by
  unfold escapeEnd
  split
  · exact ⟨1, rfl⟩
  · split
    · exact ⟨0, (List.append_nil cs).symm⟩
    · exact ⟨1, rfl⟩
  · exact ⟨0, (List.append_nil cs).symm⟩

/-- The marked text can be shown: every closing tag closes something. -/
def Shows (marked : String) : Prop := ∃ shown, plain marked = .ok shown

/-! ## Positions -/

/-- The piece at the start of the text. -/
def Piece.atStart : Piece → Piece
  | .shown text => .shown text
  | .tag _ content => .tag 0 content

theorem pieces_atStart (cs before : List Char) (position other : Nat) :
    (pieces position before cs).map Piece.atStart = (pieces other before cs).map Piece.atStart := by
  induction cs using textInduction generalizing position other before with
  | nil => rw [pieces_nil, pieces_nil]
  | tag slashes content after isTag ih =>
      have same : (piecesOfTag position slashes content).map Piece.atStart =
          (piecesOfTag other slashes content).map Piece.atStart := by
        rw [piecesOfTag, piecesOfTag]
        split <;> rfl
      rw [pieces_tag isTag, pieces_tag isTag, List.map_cons, List.map_append, same]
      rw [ih, List.map_cons, List.map_append]
  | plain c rest noTag ih =>
      rw [pieces_cons noTag, pieces_cons noTag]
      exact ih _ _ _

/-- What a tag opens or closes does not depend on where it is. -/
theorem applyTag_atStart (opened : List (List Char)) (position : Nat) (content : List Char) :
    (applyTag opened position content).toOption = (applyTag opened 0 content).toOption := by
  unfold applyTag
  dsimp only
  split
  · split
    · cases opened <;> rfl
    · split <;> rfl
  · rfl

theorem showPieces_atStart (opened : List (List Char)) (shown : List Piece) :
    (showPieces opened shown).toOption =
      (showPieces opened (shown.map Piece.atStart)).toOption := by
  induction shown generalizing opened with
  | nil => rfl
  | cons piece shown ih =>
      cases piece with
      | shown text =>
          rw [List.map_cons, Piece.atStart, showPieces, showPieces, Except.toOption_map,
            Except.toOption_map, ih]
      | tag position content =>
          rw [List.map_cons, Piece.atStart, showPieces, showPieces, Except.toOption_bind,
            Except.toOption_bind, applyTag_atStart]
          exact congrArg _ (funext ih)

/-! ## Styled texts -/

/-- Nothing in the text is a bracket or a backslash. -/
def Quiet (cs : List Char) : Prop := ∀ c ∈ cs, c ≠ '[' ∧ c ≠ '\\'

instance : DecidablePred Quiet := fun cs => List.decidableBAll _ cs

theorem pieces_quiet {head : List Char} (quiet : Quiet head) (position : Nat)
    (before rest : List Char) : pieces position before (head ++ rest) =
      pieces (position + head.length) (head.reverse ++ before) rest := by
  induction head generalizing position before with
  | nil => rfl
  | cons c head ih =>
      obtain ⟨first, later⟩ := List.forall_mem_cons.mp quiet
      rw [List.cons_append, pieces_cons (escapedTag?_cons_eq_none first.2 first.1), ih later,
        List.reverse_cons, List.append_assoc, List.length_cons, Nat.add_assoc, Nat.add_comm 1]
      rfl

theorem unescapeBrackets_quiet (quiet : Quiet cs) : unescapeBrackets cs = cs := by
  induction cs with
  | nil => rfl
  | cons c cs ih =>
      obtain ⟨first, later⟩ := List.forall_mem_cons.mp quiet
      rw [unescapeBrackets, ih later]
      rintro rest rfl
      exact absurd rfl first.2

theorem shows_of_quiet {text : String} (quiet : Quiet text.toList) : Shows text := by
  have whole := pieces_quiet quiet 0 [] []
  rw [List.append_nil, pieces_nil] at whole
  rw [Shows, plain, whole]
  exact ⟨_, rfl⟩

/-- An escaped text can be shown between texts without tags. -/
theorem shows_escape_within {marked : String} (text : String) {head rest : List Char}
    (quiet : Quiet head) (free : Bracketless rest)
    (split : marked.toList = head ++ ((escape text).toList ++ rest)) : Shows marked := by
  obtain ⟨extra, same⟩ := exists_escapeEnd_eq (escapeTags text.toList)
  have free' : Bracketless (backslashes extra ++ rest) :=
    List.forall_mem_append.mpr ⟨bracketless_backslashes extra, free⟩
  obtain ⟨shown, found⟩ := exists_showPieces
    (isShown_pieces_escapeTags text.toList free' (0 + head.length) (head.reverse ++ [])) []
  refine ⟨String.ofList shown, ?_⟩
  rw [plain, split, escape, String.toList_ofList, same, List.append_assoc, pieces_quiet quiet,
    found]
  rfl

/-- An escaped text can be shown. -/
theorem shows_escape (text : String) : Shows (escape text) :=
  shows_escape_within text (by decide : Quiet []) (by decide : Bracketless [])
    (List.append_nil _).symm

/-- A style that a tag opens and a tag with a slash closes. -/
structure IsStyle (word : List Char) : Prop where
  opening : IsTag word
  closing : IsTag ('/' :: word)
  opens : applyTag [] 0 word = .ok [styleOf word]
  closes : applyTag [styleOf word] 0 ('/' :: word) = .ok []

instance : DecidablePred IsStyle := fun word =>
  decidable_of_iff (IsTag word ∧ IsTag ('/' :: word) ∧ applyTag [] 0 word = .ok [styleOf word] ∧
      applyTag [styleOf word] 0 ('/' :: word) = .ok [])
    ⟨fun ⟨opening, closing, opens, closes⟩ => ⟨opening, closing, opens, closes⟩,
      fun style => ⟨style.opening, style.closing, style.opens, style.closes⟩⟩

theorem pieces_bracketed (isTag : IsTag content) (position : Nat) (before after : List Char) :
    pieces position before (bracketed content ++ after) =
      .shown (unescapeBrackets before.reverse) :: .shown [] :: .tag position content ::
        pieces (position + (0 + (content.length + 2))) [] after :=
  pieces_tag isTag position 0 before after

/-- The text between the tags of a style, and the rest after it. -/
def styled (word head rest : List Char) : List Char :=
  bracketed word ++ (head ++ (bracketed ('/' :: word) ++ rest))

/-- A styled text is shown without its tags, and after it the rest is shown as at the start. -/
theorem showPieces_styled {word head : List Char} (style : IsStyle word) (quiet : Quiet head)
    (rest : List Char) : (showPieces [] (pieces 0 [] (styled word head rest))).toOption =
      (showPieces [] (pieces 0 [] rest)).toOption.map (head.filter (!isHidden ·) ++ ·) := by
  rw [styled, pieces_bracketed style.opening, pieces_quiet quiet, pieces_bracketed style.closing,
    showPieces_atStart [] (pieces 0 [] rest), showPieces_atStart, List.append_nil,
    List.reverse_reverse, unescapeBrackets_quiet quiet]
  simp only [List.map_cons, Piece.atStart, showPieces, style.opens, style.closes, Except.bind,
    Except.toOption_map, Option.map_map]
  rw [pieces_atStart rest [] _ 0]
  rfl

/-- After a styled label the rest can be shown where it can be shown alone. -/
theorem shows_styled_iff {marked rest : String} {word label : List Char} (style : IsStyle word)
    (quiet : Quiet label) (split : marked.toList = styled word label rest.toList) :
    Shows marked ↔ Shows rest := by
  have iff (text : String) : Shows text ↔
      (showPieces [] (pieces 0 [] text.toList)).toOption.isSome = true := by
    rw [Shows, Except.exists_ok_iff, plain, Except.toOption_map, Option.isSome_map]
  rw [iff, iff, split, showPieces_styled style quiet, Option.isSome_map]

theorem shows_label {marked : String} {word label : List Char} (style : IsStyle word)
    (quiet : Quiet label) (split : marked.toList = styled word label []) : Shows marked := by
  have none : Shows "" := shows_of_quiet (by decide)
  exact (shows_styled_iff style quiet split).mpr none

/-! ## Texts that show as they are -/

/-- Nothing in the text is a bracket, a backslash or a character that is not shown. -/
structure Verbatim (cs : List Char) : Prop where
  quiet : Quiet cs
  visible : ∀ c ∈ cs, isHidden c = false

instance : DecidablePred Verbatim := fun cs =>
  have : Decidable (∀ c ∈ cs, isHidden c = false) := List.decidableBAll _ cs
  decidable_of_iff (Quiet cs ∧ ∀ c ∈ cs, isHidden c = false)
    ⟨fun ⟨quiet, visible⟩ => ⟨quiet, visible⟩, fun verbatim => ⟨verbatim.quiet, verbatim.visible⟩⟩

theorem Verbatim.filter_eq (verbatim : Verbatim cs) : cs.filter (!isHidden ·) = cs :=
  List.filter_eq_self.mpr fun c member => by simp [verbatim.visible c member]

theorem plain_verbatim {text : String} (verbatim : Verbatim text.toList) :
    plain text = .ok text := by
  have whole := pieces_quiet verbatim.quiet 0 [] []
  rw [List.append_nil, pieces_nil, List.append_nil, List.reverse_reverse,
    unescapeBrackets_quiet verbatim.quiet] at whole
  rw [plain, whole, showPieces, showPieces, verbatim.filter_eq]
  simp [Except.map]

/-- A label shows as it is between the tags of a style. -/
theorem plain_label {marked label : String} {word : List Char} (style : IsStyle word)
    (verbatim : Verbatim label.toList) (split : marked.toList = styled word label.toList []) :
    plain marked = .ok label := by
  have styled := showPieces_styled style verbatim.quiet []
  rw [verbatim.filter_eq, pieces_nil, ← split] at styled
  apply Except.toOption_eq_some_iff.mp
  rw [plain, Except.toOption_map, styled]
  simp [showPieces, unescapeBrackets, Except.map, Except.toOption]

end Workflow.Markup
