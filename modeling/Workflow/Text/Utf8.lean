import Workflow.Text.Quoted

/-!
UTF-8 text of bytes. Decoding goes byte by byte with the character that is in progress; bytes that
are no character are refused at the place where the character starts. Overlong forms, surrogates
and numbers past the last code point show in the byte after the first one.
-/

namespace Workflow.Utf8

/-- A character in progress: its first byte, how many bytes are taken and missing, the range of the
next byte, and the number that the bytes so far stand for. -/
structure Pending where
  first : Nat
  taken : Nat
  missing : Nat
  low : Nat
  high : Nat
  code : Nat
  deriving DecidableEq, Repr

/-- What a first byte promises. -/
def Pending.ofFirst? (b : Nat) : Option Pending :=
  if b < 0x80 then some ⟨b, 1, 0, 0x80, 0xbf, b⟩
  else if b < 0xc2 then none
  else if b < 0xe0 then some ⟨b, 1, 1, 0x80, 0xbf, b - 0xc0⟩
  else if b < 0xf0 then
    some ⟨b, 1, 2, if b = 0xe0 then 0xa0 else 0x80, if b = 0xed then 0x9f else 0xbf, b - 0xe0⟩
  else if b < 0xf5 then
    some ⟨b, 1, 3, if b = 0xf0 then 0x90 else 0x80, if b = 0xf4 then 0x8f else 0xbf, b - 0xf0⟩
  else none

/-- Takes the next byte, unless it is out of range. -/
def Pending.take? (p : Pending) (b : Nat) : Option Pending :=
  if p.low ≤ b ∧ b ≤ p.high then
    some { p with
      taken := p.taken + 1
      missing := p.missing - 1
      low := 0x80
      high := 0xbf
      code := p.code * 64 + (b - 0x80) }
  else none

inductive Problem where
  | firstByte
  | laterByte
  | truncated
  deriving DecidableEq, Repr

def Problem.text : Problem → String
  | .firstByte => "invalid start byte"
  | .laterByte => "invalid continuation byte"
  | .truncated => "unexpected end of data"

/-- Refused bytes: what is wrong, the first of them, where it is, and how many there are. -/
structure Refusal where
  problem : Problem
  first : Nat
  position : Nat
  length : Nat
  deriving DecidableEq, Repr

def Refusal.message (r : Refusal) : String :=
  let what :=
    if r.length = 1 then
      s!"byte 0x{String.ofList (hexDigits 2 r.first)} in position {r.position}"
    else s!"bytes in position {r.position}-{r.position + r.length - 1}"
  s!"'utf-8' codec can't decode {what}: {r.problem.text}"

/-- The refusal of a character in progress that ends before `position`. -/
def Pending.refuse (p : Pending) (problem : Problem) (position : Nat) : Refusal :=
  ⟨problem, p.first, position - p.taken, p.taken⟩

/-- Goes through the bytes from `position` on, with the characters so far, last first, and the
character in progress. -/
def decodeFrom (before : List Char) :
    Option Pending → Nat → List UInt8 → Except Refusal (List Char)
  | none, _, [] => .ok before.reverse
  | some p, position, [] => .error (p.refuse .truncated position)
  | none, position, byte :: rest =>
    match Pending.ofFirst? byte.toNat with
    | none => .error ⟨.firstByte, byte.toNat, position, 1⟩
    | some p =>
      if p.missing = 0 then decodeFrom (Char.ofNat p.code :: before) none (position + 1) rest
      else decodeFrom before (some p) (position + 1) rest
  | some p, position, byte :: rest =>
    match p.take? byte.toNat with
    | none => .error (p.refuse .laterByte position)
    | some p =>
      if p.missing = 0 then decodeFrom (Char.ofNat p.code :: before) none (position + 1) rest
      else decodeFrom before (some p) (position + 1) rest

def decode (bytes : List UInt8) : Except Refusal String :=
  (decodeFrom [] none 0 bytes).map String.ofList

def encode (text : String) : List UInt8 := text.toList.flatMap String.utf8EncodeChar

end Workflow.Utf8
