import Workflow.Proofs.Success
import Workflow.Text.Utf8

/-!
UTF-8 that is decoded as what was encoded. Each byte of a character's form is in the range that the
bytes before it leave, and their bits make up the character's code point.
-/

namespace Workflow.Utf8

variable {before : List Char} {position n : Nat} {rest : List UInt8}

/-! ## Bytes -/

theorem ofFirst?_one (small : n < 128) : Pending.ofFirst? n = some ⟨n, 1, 0, 0x80, 0xbf, n⟩ := by
  rw [Pending.ofFirst?, if_pos small]

theorem ofFirst?_two (low : 2 ≤ n) (high : n < 32) :
    Pending.ofFirst? (n + 192) = some ⟨n + 192, 1, 1, 0x80, 0xbf, n⟩ := by
  rw [Pending.ofFirst?, if_neg (by omega), if_neg (by omega), if_pos (by omega),
    Nat.add_sub_cancel]

theorem ofFirst?_three (high : n < 16) :
    Pending.ofFirst? (n + 224) = some ⟨n + 224, 1, 2, if n = 0 then 0xa0 else 0x80,
      if n = 13 then 0x9f else 0xbf, n⟩ := by
  rw [Pending.ofFirst?, if_neg (by omega), if_neg (by omega), if_neg (by omega),
    if_pos (by omega), Nat.add_sub_cancel]
  simp

theorem ofFirst?_four (high : n < 5) :
    Pending.ofFirst? (n + 240) = some ⟨n + 240, 1, 3, if n = 0 then 0x90 else 0x80,
      if n = 4 then 0x8f else 0xbf, n⟩ := by
  rw [Pending.ofFirst?, if_neg (by omega), if_neg (by omega), if_neg (by omega),
    if_neg (by omega), if_pos (by omega), Nat.add_sub_cancel]
  simp

theorem decodeFrom_first {p : Pending} (small : n < 256) (first : Pending.ofFirst? n = some p) :
    decodeFrom before none position (.ofNat n :: rest) =
      if p.missing = 0 then decodeFrom (Char.ofNat p.code :: before) none (position + 1) rest
      else decodeFrom before (some p) (position + 1) rest := by
  rw [decodeFrom, UInt8.toNat_ofNat_of_lt' small, first]

variable {first taken missing low high code bits : Nat}

/-- A later byte holds six bits of the code point. -/
theorem decodeFrom_later (small : bits < 64) (above : low ≤ bits + 128)
    (below : bits + 128 ≤ high) :
    decodeFrom before (some ⟨first, taken, missing + 2, low, high, code⟩) position
      (.ofNat (bits + 128) :: rest) =
    decodeFrom before (some ⟨first, taken + 1, missing + 1, 0x80, 0xbf, code * 64 + bits⟩)
      (position + 1) rest := by
  rw [decodeFrom, UInt8.toNat_ofNat_of_lt' (by simp only [UInt8.size]; omega), Pending.take?,
    if_pos ⟨above, below⟩, Nat.add_sub_cancel]
  rfl

theorem decodeFrom_last (small : bits < 64) (above : low ≤ bits + 128) (below : bits + 128 ≤ high) :
    decodeFrom before (some ⟨first, taken, 1, low, high, code⟩) position
      (.ofNat (bits + 128) :: rest) =
    decodeFrom (Char.ofNat (code * 64 + bits) :: before) none (position + 1) rest := by
  rw [decodeFrom, UInt8.toNat_ofNat_of_lt' (by simp only [UInt8.size]; omega), Pending.take?,
    if_pos ⟨above, below⟩, Nat.add_sub_cancel]
  rfl

/-! ## Characters -/

theorem decodeFrom_encodeChar (c : Char) (before : List Char) (position : Nat)
    (rest : List UInt8) : ∃ position', decodeFrom before none position
      (String.utf8EncodeChar c ++ rest) = decodeFrom (c :: before) none position' rest := by
  have valid : c.val.toNat < 0xd800 ∨ 0xdfff < c.val.toNat ∧ c.val.toNat < 0x110000 := c.valid
  have same : Char.ofNat c.val.toNat = c := Char.ofNat_toNat c
  unfold String.utf8EncodeChar
  generalize c.val.toNat = v at valid same ⊢
  dsimp only
  split
  next one =>
    refine ⟨position + 1, ?_⟩
    rw [List.singleton_append, decodeFrom_first (by omega) (ofFirst?_one (by omega)), if_pos rfl,
      same]
  split
  next one two =>
    have whole : v / 64 % 32 * 64 + v % 64 = v := by omega
    refine ⟨position + 1 + 1, ?_⟩
    rw [List.cons_append, List.singleton_append,
      decodeFrom_first (by omega) (ofFirst?_two (by omega) (by omega)), if_neg (Nat.succ_ne_zero _),
      decodeFrom_last (by omega) (by omega) (by omega), whole, same]
  split
  next one two three =>
    have whole : (v / 4096 % 16 * 64 + v / 64 % 64) * 64 + v % 64 = v := by omega
    -- Neither an overlong form nor a surrogate comes out of a character.
    have above : (if v / 4096 % 16 = 0 then 0xa0 else 0x80) ≤ v / 64 % 64 + 128 := by
      split <;> omega
    have below : v / 64 % 64 + 128 ≤ if v / 4096 % 16 = 13 then 0x9f else 0xbf := by
      split <;> omega
    refine ⟨position + 1 + 1 + 1, ?_⟩
    rw [List.cons_append, List.cons_append, List.singleton_append,
      decodeFrom_first (by omega) (ofFirst?_three (by omega)), if_neg (Nat.succ_ne_zero _),
      decodeFrom_later (by omega) above below, decodeFrom_last (by omega) (by omega) (by omega),
      whole, same]
  next one two three =>
    have whole : ((v / 262144 % 8 * 64 + v / 4096 % 64) * 64 + v / 64 % 64) * 64 + v % 64 = v := by
      omega
    have above : (if v / 262144 % 8 = 0 then 0x90 else 0x80) ≤ v / 4096 % 64 + 128 := by
      split <;> omega
    have below : v / 4096 % 64 + 128 ≤ if v / 262144 % 8 = 4 then 0x8f else 0xbf := by
      split <;> omega
    refine ⟨position + 1 + 1 + 1 + 1, ?_⟩
    rw [List.cons_append, List.cons_append, List.cons_append, List.singleton_append,
      decodeFrom_first (by omega) (ofFirst?_four (by omega)), if_neg (Nat.succ_ne_zero _),
      decodeFrom_later (by omega) above below, decodeFrom_later (by omega) (by omega) (by omega),
      decodeFrom_last (by omega) (by omega) (by omega), whole, same]

/-! ## Texts -/

theorem decodeFrom_flatMap (cs before : List Char) (position : Nat) :
    decodeFrom before none position (cs.flatMap String.utf8EncodeChar) =
      .ok (before.reverse ++ cs) := by
  induction cs generalizing before position with
  | nil => rw [List.flatMap_nil, decodeFrom, List.append_nil]
  | cons c cs ih =>
      obtain ⟨position', first⟩ :=
        decodeFrom_encodeChar c before position (cs.flatMap String.utf8EncodeChar)
      rw [List.flatMap_cons, first, ih, List.reverse_cons, List.append_assoc,
        List.singleton_append]

theorem decode_encode (text : String) : decode (encode text) = .ok text := by
  rw [decode, encode, decodeFrom_flatMap, List.reverse_nil, List.nil_append]
  exact congrArg Except.ok (String.ofList_toList (s := text))

end Workflow.Utf8
