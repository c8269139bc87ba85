import Workflow.Proofs.Text.Markup

/-!
Escaped texts between the tags of a style. Backslashes at the end of the text may escape the closing
tag, and then the style stays open; but no tag that is not there before comes up. Main statement: a
line with an escaped text in a style can be shown, whatever the text is.
-/

namespace Workflow.Markup

variable {cs content after rest word : List Char} {c : Char}

/-! ## Escaped texts before a tag -/

theorem find?_escapeTags_tag (extra : Nat) (after : List Char)
    (other : cs.find? endsTag ≠ some ']') :
    (escapeTags cs ++ (backslashes extra ++ bracketed content ++ after)).find? endsTag ≠
      some ']' := by
  have same := find?_escapeTags cs (by decide : Bracketless [])
  rw [List.append_nil] at same
  rw [List.find?_append, same, find?_backslashes]
  cases found : cs.find? endsTag with
  | none => simp
  | some d =>
      rw [found] at other
      exact other

theorem tag?_escapeTags_tag (noTag : tag? ('[' :: rest) = none) (extra : Nat)
    (after : List Char) :
    tag? ('[' :: (escapeTags rest ++ (backslashes extra ++ bracketed content ++ after))) =
      none := by
  cases rest with
  | nil =>
      rw [escapeTags_nil, List.nil_append]
      cases extra with
      | zero => exact tag?_eq_none_iff.mpr (.inl rfl)
      | succ extra => exact tag?_backslash _
  | cons d more =>
      cases next : escapedTag? (d :: more) with
      | some found =>
          obtain ⟨slashes, content, after⟩ := found
          obtain ⟨isTag, split⟩ := of_escapedTag? next
          rw [split, escapeTags_tag isTag]
          exact tag?_backslash _
      | none =>
          rw [escapeTags_cons next, List.cons_append, tag?_eq_none_iff]
          exact (tag?_eq_none_iff.mp noTag).imp_right (find?_escapeTags_tag extra after)

/-- Where no tag starts, none starts in front of the closing tag either, unless all is
backslashes. -/
theorem escapedTag?_escapeTags_tag (noTag : escapedTag? cs = none) (other : ∃ c ∈ cs, c ≠ '\\')
    (extra : Nat) (after : List Char) :
    escapedTag? (escapeTags cs ++ (backslashes extra ++ bracketed content ++ after)) = none := by
  induction cs with
  | nil =>
      obtain ⟨c, member, -⟩ := other
      cases member
  | cons c rest ih =>
      rw [escapeTags_cons noTag, List.cons_append]
      by_cases slash : c = '\\'
      · subst slash
        rw [escapedTag?_backslash_eq_none_iff] at noTag ⊢
        obtain ⟨d, member, differs⟩ := other
        have later := (List.mem_cons.mp member).resolve_left differs
        exact ih noTag ⟨d, later, differs⟩
      by_cases bracket : c = '['
      · rw [bracket, escapedTag?_bracket_eq_none_iff] at noTag ⊢
        exact tag?_escapeTags_tag noTag extra after
      · exact escapedTag?_cons_eq_none slash bracket

theorem escapeTags_backslashes (slashes : Nat) :
    escapeTags (backslashes slashes) = backslashes slashes := by
  induction slashes with
  | zero => exact escapeTags_nil
  | succ slashes ih =>
      rw [backslashes, List.replicate_succ, escapeTags_cons (escapedTag?_replicate (slashes + 1))]
      exact congrArg _ ih

/-- Backslashes in front of a tag belong to it. -/
theorem escapeTags_backslashes_tag (slashes extra : Nat) (after : List Char) :
    escapeTags (backslashes slashes) ++ (backslashes extra ++ bracketed content ++ after) =
      backslashes (slashes + extra) ++ bracketed content ++ after := by
  have run : backslashes slashes ++ backslashes extra = backslashes (slashes + extra) :=
    List.replicate_append_replicate
  rw [escapeTags_backslashes, ← run]
  simp only [List.append_assoc]

theorem eq_backslashes (noOther : ¬ ∃ c ∈ cs, c ≠ '\\') : cs = backslashes cs.length := by
  refine List.eq_replicate_iff.mpr ⟨rfl, ?_⟩
  intro c member
  by_contra differs
  exact noOther ⟨c, member, differs⟩

theorem isShown_singleton (text : List Char) : ∀ piece ∈ [Piece.shown text], piece.IsShown := by
  intro piece member
  rw [List.mem_singleton.mp member]
  trivial

/-- In front of a tag there are no tags in an escaped text, but there may be more backslashes. -/
theorem exists_pieces_escapeTags (isTag : IsTag content) (cs : List Char) (extra position : Nat)
    (before after : List Char) : ∃ shown slashes here next, (∀ piece ∈ shown, piece.IsShown) ∧
      pieces position before (escapeTags cs ++ (backslashes extra ++ bracketed content ++ after)) =
        shown ++ (piecesOfTag here slashes content ++ pieces next [] after) := by
  induction cs using textInduction generalizing position before with
  | nil =>
      rw [escapeTags_nil, List.nil_append, pieces_tag isTag]
      exact ⟨[_], extra, position, _, isShown_singleton _, rfl⟩
  | tag slashes inner later isTag' ih =>
      have odd : (2 * slashes + 1) % 2 = 1 := by omega
      rw [escapeTags_tag isTag', List.append_assoc (_ ++ _), pieces_tag isTag']
      obtain ⟨shown, slashes', here, next, all, split⟩ :=
        ih (position + (2 * slashes + 1 + (inner.length + 2))) []
      refine ⟨.shown (unescapeBrackets before.reverse) ::
        (piecesOfTag position (2 * slashes + 1) inner ++ shown), slashes', here, next, ?_, ?_⟩
      · rw [List.forall_mem_cons, List.forall_mem_append]
        refine ⟨trivial, ?_, all⟩
        simp [piecesOfTag, odd, Piece.IsShown]
      · rw [split, List.cons_append, List.append_assoc]
  | plain c rest noTag ih =>
      by_cases other : ∃ d ∈ c :: rest, d ≠ '\\'
      · have noTag' : escapedTag? (escapeTags (c :: rest) ++
            (backslashes extra ++ bracketed content ++ after)) = none :=
          escapedTag?_escapeTags_tag noTag other extra after
        rw [escapeTags_cons noTag, List.cons_append] at noTag' ⊢
        rw [pieces_cons noTag']
        exact ih _ _
      · rw [eq_backslashes other, escapeTags_backslashes_tag, pieces_tag isTag]
        exact ⟨[_], _, position, _, isShown_singleton _, rfl⟩

/-! ## Styled texts -/

theorem isSome_showPieces_append {shown : List Piece} (all : ∀ piece ∈ shown, piece.IsShown)
    (opened : List (List Char)) (rest : List Piece) :
    (showPieces opened (shown ++ rest)).toOption.isSome =
      (showPieces opened rest).toOption.isSome := by
  induction shown with
  | nil => rfl
  | cons piece shown ih =>
      rw [List.forall_mem_cons] at all
      cases piece with
      | shown first =>
          rw [List.cons_append, showPieces, Except.toOption_map, Option.isSome_map, ih all.2]
      | tag position content => exact all.1.elim

theorem isSome_showPieces_quiet (quiet : Quiet rest) (opened : List (List Char)) (position : Nat) :
    (showPieces opened (pieces position [] rest)).toOption.isSome = true := by
  have whole := pieces_quiet quiet position [] []
  rw [List.append_nil, pieces_nil] at whole
  rw [whole]
  rfl

/-- The closing tag closes the style, or it is shown. -/
theorem isSome_showPieces_closing (style : IsStyle word) (slashes here : Nat) {rest : List Piece}
    (later : ∀ opened, (showPieces opened rest).toOption.isSome = true) :
    (showPieces [styleOf word] (piecesOfTag here slashes ('/' :: word) ++ rest)).toOption.isSome =
      true := by
  rw [piecesOfTag, List.cons_append, showPieces, Except.toOption_map, Option.isSome_map]
  split
  next =>
    rw [List.singleton_append, showPieces, Except.toOption_map, Option.isSome_map]
    exact later _
  next =>
    rw [List.singleton_append, showPieces, Except.toOption_bind, applyTag_atStart, style.closes]
    exact later []

/-- An escaped text can be shown in a style, between texts that have no tags. -/
theorem shows_styled_escape {marked : String} (text : String) {head label rest : List Char}
    (style : IsStyle word) (quietHead : Quiet head) (quietLabel : Quiet label)
    (quietRest : Quiet rest) (split : marked.toList = head ++ (bracketed word ++ (label ++
      ((escape text).toList ++ (bracketed ('/' :: word) ++ rest))))) : Shows marked := by
  obtain ⟨extra, same⟩ := exists_escapeEnd_eq (escapeTags text.toList)
  have escaped : (escape text).toList ++ (bracketed ('/' :: word) ++ rest) =
      escapeTags text.toList ++ (backslashes extra ++ bracketed ('/' :: word) ++ rest) := by
    rw [escape, String.toList_ofList, same]
    simp only [List.append_assoc]
  rw [Shows, Except.exists_ok_iff, plain, Except.toOption_map, Option.isSome_map, split, escaped,
    pieces_quiet quietHead, pieces_bracketed style.opening, pieces_quiet quietLabel]
  obtain ⟨shown, slashes, here, next, all, pieces_eq⟩ := exists_pieces_escapeTags style.closing
    text.toList extra (0 + head.length + (0 + (word.length + 2)) + label.length)
    (label.reverse ++ []) rest
  rw [pieces_eq, showPieces, showPieces, showPieces]
  simp only [Except.toOption_map, Option.isSome_map, Except.toOption_bind, applyTag_atStart,
    style.opens]
  show (showPieces [styleOf word] _).toOption.isSome = true
  rw [isSome_showPieces_append all]
  exact isSome_showPieces_closing style slashes here fun opened =>
    isSome_showPieces_quiet quietRest opened next

theorem quiet_append {first later : List Char} (quiet : Quiet first) (quiet' : Quiet later) :
    Quiet (first ++ later) := List.forall_mem_append.mpr ⟨quiet, quiet'⟩

/-- A number has no brackets and no backslashes. -/
theorem quiet_toString (n : Nat) : Quiet (toString n).toList := by
  intro c member
  have digit : c.isDigit = true :=
    Nat.isDigit_of_mem_toDigits (by decide) (by decide) (Nat.toList_repr ▸ member)
  constructor
  · rintro rfl
    cases digit
  · rintro rfl
    cases digit

end Workflow.Markup
