import Multiplex.Text.Utf8

/-! # Reading text back

Text that was written as UTF-8 is read as it was. A character takes one byte to four: the first tells how
many, and each of the others holds six bits. -/

namespace Multiplex.Text

/-- A byte that goes on with a character holds six bits. -/
theorem toNat_trail (n : Nat) : (UInt8.ofNat (n % 64 + 128)).toNat = n % 64 + 128 :=
  UInt8.toNat_ofNat_of_lt' (show n % 64 + 128 < 256 by omega)

theorem readTail_trail (more bits n : Nat) (rest : Bytes) :
    readTail (more + 1) bits (UInt8.ofNat (n % 64 + 128) :: rest) = readTail more (bits * 64 + n % 64) rest := by
  have inside : 0x80 ≤ n % 64 + 128 ∧ n % 64 + 128 ≤ 0xBF := by omega
  rw [readTail, toNat_trail, if_pos inside]
  congr 1
  omega

/-- The first two bytes of a character of several bytes. -/
theorem readChar_lead {first n : Nat} {l : Lead} (low : 0x80 ≤ first) (high : first < 256)
    (found : lead? first = some l) (least : l.least ≤ n % 64 + 128) (greatest : n % 64 + 128 ≤ l.greatest)
    (rest : Bytes) :
    readChar (UInt8.ofNat first) (UInt8.ofNat (n % 64 + 128) :: rest) =
      readTail l.more (l.bits * 64 + n % 64) rest := by
  have same : (UInt8.ofNat first).toNat = first := UInt8.toNat_ofNat_of_lt' high
  unfold readChar
  rw [same, if_neg (by omega), found]
  simp only [toNat_trail]
  rw [if_pos ⟨least, greatest⟩]
  congr 1
  omega

/-- What the first of three bytes says about the second agrees with every character. -/
theorem lead_three {v : Nat} (low : 0x800 ≤ v) (high : v < 0x10000) (valid : v < 0xD800 ∨ 0xDFFF < v) :
    ∃ l, lead? (v / 4096 % 16 + 224) = some l ∧ l.bits = v / 4096 ∧ l.more = 1 ∧
      l.least ≤ v / 64 % 64 + 128 ∧ v / 64 % 64 + 128 ≤ l.greatest := by
  unfold lead?
  repeat' split
  all_goals first
    | exact ⟨_, rfl, by dsimp only; omega, rfl, by dsimp only; omega, by dsimp only; omega⟩
    | omega

/-- What the first of four bytes says about the second agrees with every character. -/
theorem lead_four {v : Nat} (low : 0x10000 ≤ v) (high : v < 0x110000) :
    ∃ l, lead? (v / 262144 % 8 + 240) = some l ∧ l.bits = v / 262144 ∧ l.more = 2 ∧
      l.least ≤ v / 4096 % 64 + 128 ∧ v / 4096 % 64 + 128 ≤ l.greatest := by
  unfold lead?
  repeat' split
  all_goals first
    | exact ⟨_, rfl, by dsimp only; omega, rfl, by dsimp only; omega, by dsimp only; omega⟩
    | omega

/-- A character that was written is read back, whatever follows it. -/
theorem readChar_encode (c : Char) (rest : Bytes) :
    ∃ b bytes, String.utf8EncodeChar c = b :: bytes ∧ readChar b (bytes ++ rest) = (c, rest) := by
  have same : Char.ofNat c.toNat = c := Char.ofNat_toNat c
  have valid : c.toNat < 0xD800 ∨ 0xDFFF < c.toNat ∧ c.toNat < 0x110000 := c.valid
  unfold String.utf8EncodeChar
  rw [Char.toNat_val]
  generalize c.toNat = v at same valid
  dsimp only
  -- The cases are those of the encoder; the lead byte tells the reader which of them it is in.
  by_cases one : v ≤ 127
  · rw [if_pos one]
    refine ⟨_, _, rfl, ?_⟩
    have byte : (UInt8.ofNat v).toNat = v := UInt8.toNat_ofNat_of_lt' (show v < 256 by omega)
    unfold readChar
    rw [byte, if_pos (by omega), same]
    rfl
  by_cases two : v ≤ 2047
  · rw [if_neg one, if_pos two]
    refine ⟨_, _, rfl, ?_⟩
    have found : lead? (v / 64 % 32 + 192) = some ⟨v / 64 % 32 + 192 - 0xC0, 0x80, 0xBF, 0⟩ := if_pos (by omega)
    refine (readChar_lead (by omega) (by omega) found (by dsimp only; omega) (by dsimp only; omega) rest).trans ?_
    rw [readTail, ← same]
    congr 2
    dsimp only
    omega
  by_cases three : v ≤ 65535
  · rw [if_neg one, if_neg two, if_pos three]
    refine ⟨_, _, rfl, ?_⟩
    obtain ⟨l, found, bits, more, least, greatest⟩ := lead_three (v := v) (by omega) (by omega) (by omega)
    refine (readChar_lead (by omega) (by omega) found least greatest _).trans ?_
    rw [more, bits, List.append_eq, List.cons_append, readTail_trail, readTail, ← same]
    congr 2
    omega
  · rw [if_neg one, if_neg two, if_neg three]
    refine ⟨_, _, rfl, ?_⟩
    obtain ⟨l, found, bits, more, least, greatest⟩ := lead_four (v := v) (by omega) (by omega)
    refine (readChar_lead (by omega) (by omega) found least greatest _).trans ?_
    rw [more, bits, List.append_eq, List.cons_append, readTail_trail, List.cons_append, readTail_trail, readTail, ← same]
    congr 2
    omega

theorem readChars_encode (chars done : List Char) :
    readChars (chars.flatMap String.utf8EncodeChar) done = done.reverse ++ chars := by
  induction chars generalizing done with
  | nil => simp [readChars]
  | cons c chars ih =>
    obtain ⟨b, bytes, encoded, read⟩ := readChar_encode c (chars.flatMap String.utf8EncodeChar)
    rw [List.flatMap_cons, encoded, List.cons_append, readChars, read, ih]
    simp

/-- A text that was written is read back. -/
theorem decode_encode (s : String) : decode (encode s) = s := by
  rw [decode, encode, readChars_encode]
  exact String.ofList_toList

end Multiplex.Text
