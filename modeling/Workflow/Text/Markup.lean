import Workflow.Number.Decimal

/-!
Texts with style tags in square brackets, as a console shows them. A tag starts with a small letter
or one of `#/@` and goes up to the next closing bracket; a tag that starts with a slash closes
one. Backslashes in front of a tag escape it and themselves. Main operations: `escape` makes a text
that shows as it is, and `plain` gives what a marked text shows.
-/

namespace Workflow.Markup

def startsTag (c : Char) : Bool :=
  ('a' ≤ c && c ≤ 'z') || c == '#' || c == '/' || c == '@'

def endsTag (c : Char) : Bool := c == '[' || c == ']'

/-- The content of the tag that the text starts with, and what follows the tag. -/
def tag? : List Char → Option (List Char × List Char)
  | '[' :: c :: rest =>
    match startsTag c, rest.dropWhile (!endsTag ·) with
    | true, ']' :: after => some (c :: rest.takeWhile (!endsTag ·), after)
    | _, _ => none
  | _ => none

/-- A tag after any number of backslashes: their number, the tag's content and what follows. -/
def escapedTag? (cs : List Char) : Option (Nat × List Char × List Char) :=
  (tag? (cs.dropWhile (· == '\\'))).map fun (content, after) =>
    ((cs.takeWhile (· == '\\')).length, content, after)

theorem length_of_tag? {cs content after : List Char} (h : tag? cs = some (content, after)) :
    after.length < cs.length := by
  unfold tag? at h
  split at h
  · rename_i c rest
    split at h
    · rename_i found
      have shorter := (List.dropWhile_sublist (l := rest) (!endsTag ·)).length_le
      simp only [Option.some.injEq, Prod.mk.injEq] at h
      rw [found] at shorter
      simp only [List.length_cons] at shorter ⊢
      rw [← h.2]
      omega
    · cases h
  · cases h

theorem length_of_escapedTag? {cs content after : List Char} {slashes : Nat}
    (h : escapedTag? cs = some (slashes, content, after)) : after.length < cs.length := by
  unfold escapedTag? at h
  obtain ⟨⟨c, a⟩, found, same⟩ := Option.map_eq_some_iff.1 h
  simp only [Prod.mk.injEq] at same
  have shorter := (List.dropWhile_sublist (l := cs) (· == '\\')).length_le
  have := length_of_tag? found
  rw [← same.2.2]
  omega

/-! ## Escaping -/

def backslashes (n : Nat) : List Char := List.replicate n '\\'

/-- A tag as it stands in a text. -/
def bracketed (content : List Char) : List Char := '[' :: content ++ [']']

/-- Backslashes in front of a tag are doubled, and one more is put there. -/
def escapeTags (cs : List Char) : List Char :=
  match _found : escapedTag? cs with
  | some (slashes, content, after) =>
    backslashes (2 * slashes + 1) ++ bracketed content ++ escapeTags after
  | none =>
    match cs with
    | [] => []
    | c :: rest => c :: escapeTags rest
termination_by cs.length
decreasing_by
  · exact length_of_escapedTag? (by assumption)
  · simp

/-- A backslash that is alone at the end is doubled, so that it escapes nothing that follows. -/
def escapeEnd (cs : List Char) : List Char :=
  match cs.reverse with
  | ['\\'] => cs ++ ['\\']
  | '\\' :: c :: _ => if c = '\\' then cs else cs ++ ['\\']
  | _ => cs

def escape (text : String) : String := String.ofList (escapeEnd (escapeTags text.toList))

/-! ## Showing -/

/-- A part of a marked text: what is shown, or a tag and the position of its bracket. -/
inductive Piece where
  | shown (text : List Char)
  | tag (position : Nat) (content : List Char)
  deriving DecidableEq, Repr

/-- Half of the backslashes in front of a tag are shown; an odd one escapes the tag. -/
def piecesOfTag (position slashes : Nat) (content : List Char) : List Piece :=
  [.shown (backslashes (slashes / 2)),
    if slashes % 2 = 1 then .shown (bracketed content) else .tag (position + slashes) content]

/-- An escaped bracket that starts no tag is shown without its backslash. -/
def unescapeBrackets : List Char → List Char
  | '\\' :: '[' :: rest => '[' :: unescapeBrackets rest
  | c :: rest => c :: unescapeBrackets rest
  | [] => []

/-- The pieces of a text from `position` on; `before` holds what is shown before it, last first. -/
def pieces (position : Nat) (before cs : List Char) : List Piece :=
  match _found : escapedTag? cs with
  | some (slashes, content, after) =>
    .shown (unescapeBrackets before.reverse) ::
      (piecesOfTag position slashes content ++
        pieces (position + (cs.length - after.length)) [] after)
  | none =>
    match cs with
    | [] => [.shown (unescapeBrackets before.reverse)]
    | c :: rest => pieces (position + 1) (c :: before) rest
termination_by cs.length
decreasing_by
  · exact length_of_escapedTag? (by assumption)
  · simp

/-- A closing tag that closes nothing. -/
inductive Fault where
  | unmatched (content : String) (position : Nat)
  | nothingOpen (position : Nat)
  deriving DecidableEq, Repr

def Fault.message : Fault → String
  | .unmatched content position =>
    s!"closing tag '[{content}]' at position {position} doesn't match any open tag"
  | .nothingOpen position => s!"closing tag '[/]' at position {position} has nothing to close"

def trimBlanks (cs : List Char) : List Char :=
  ((cs.dropWhile Char.isWhitespace).reverse.dropWhile Char.isWhitespace).reverse

/-- The attributes that have a short name. -/
def longName : List Char → List Char
  | ['b'] => "bold".toList
  | ['d'] => "dim".toList
  | ['i'] => "italic".toList
  | ['u'] => "underline".toList
  | ['u', 'u'] => "underline2".toList
  | ['r'] => "reverse".toList
  | ['c'] => "conceal".toList
  | ['s'] => "strike".toList
  | ['o'] => "overline".toList
  | name => name

/-- The style that a name stands for: letters count as small ones and short names as long ones. -/
def styleOf (name : List Char) : List Char := longName ((trimBlanks name).map Char.toLower)

/-- The styles that are open after a tag, the last opened first. -/
def applyTag (opened : List (List Char)) (position : Nat) (content : List Char) :
    Except Fault (List (List Char)) :=
  let name := content.takeWhile (· != '=')
  match name with
  | '/' :: rest =>
    let closed := trimBlanks rest
    if closed = [] then
      match opened with
      | [] => .error (.nothingOpen position)
      | _ :: others => .ok others
    else if styleOf closed ∈ opened then .ok (opened.erase (styleOf closed))
    else .error (.unmatched (String.ofList content) position)
  | name => .ok (styleOf name :: opened)

/-- Control characters that a console does not show: bell, backspace, vertical tab, form feed and
carriage return. -/
def isHidden (c : Char) : Bool := [7, 8, 11, 12, 13].contains c.toNat

def showPieces (opened : List (List Char)) : List Piece → Except Fault (List Char)
  | [] => .ok []
  | .shown text :: rest =>
    (showPieces opened rest).map (text.filter (!isHidden ·) ++ ·)
  | .tag position content :: rest =>
    (applyTag opened position content).bind (showPieces · rest)

/-- What is shown of a marked text. -/
def plain (text : String) : Except Fault String :=
  (showPieces [] (pieces 0 [] text.toList)).map String.ofList

end Workflow.Markup
