import Multiplex.Bytes

/-! # Text as bytes

Header text travels as UTF-8. Writing is exact. Reading never fails: each longest start of a
character that is not completed, and each byte that starts none, reads as the replacement character. -/

namespace Multiplex.Text

/-- The UTF-8 form of a text. -/
def encode (s : String) : Bytes := s.toList.flatMap String.utf8EncodeChar

/-- Stands for what is no UTF-8. -/
def replacement : Char := Char.ofNat 0xFFFD

/-- What the first byte of a character says about the bytes after it. -/
structure Lead where
  /-- The bits of the character that the first byte holds. -/
  bits : Nat
  /-- The least second byte. -/
  least : Nat
  /-- The greatest second byte. -/
  greatest : Nat
  /-- How many bytes follow the second. -/
  more : Nat

/-- Reads the first byte of a character of several bytes. The bounds on the second byte rule out
    overlong forms, surrogates and numbers beyond the last character. -/
def lead? (b : Nat) : Option Lead :=
  if 0xC2 ≤ b ∧ b ≤ 0xDF then some ⟨b - 0xC0, 0x80, 0xBF, 0⟩
  else if b = 0xE0 then some ⟨0, 0xA0, 0xBF, 1⟩
  else if b = 0xED then some ⟨0xD, 0x80, 0x9F, 1⟩
  else if 0xE1 ≤ b ∧ b ≤ 0xEF then some ⟨b - 0xE0, 0x80, 0xBF, 1⟩
  else if b = 0xF0 then some ⟨0, 0x90, 0xBF, 2⟩
  else if 0xF1 ≤ b ∧ b ≤ 0xF3 then some ⟨b - 0xF0, 0x80, 0xBF, 2⟩
  else if b = 0xF4 then some ⟨4, 0x80, 0x8F, 2⟩
  else none

/-- Reads the last `more` bytes of a character whose first bits are `bits`. -/
def readTail : (more bits : Nat) → Bytes → Char × Bytes
  | 0, bits, bytes => (Char.ofNat bits, bytes)
  | _ + 1, _, [] => (replacement, [])
  | more + 1, bits, b :: rest =>
    if 0x80 ≤ b.toNat ∧ b.toNat ≤ 0xBF then readTail more (bits * 64 + b.toNat % 64) rest
    else (replacement, b :: rest)

/-- Reads the character that begins with `b`, and gives the bytes after it. -/
def readChar (b : UInt8) (bytes : Bytes) : Char × Bytes :=
  if b.toNat < 0x80 then (Char.ofNat b.toNat, bytes)
  else
    match lead? b.toNat, bytes with
    | some l, second :: rest =>
      if l.least ≤ second.toNat ∧ second.toNat ≤ l.greatest then
        readTail l.more (l.bits * 64 + second.toNat % 64) rest
      else (replacement, bytes)
    | _, _ => (replacement, bytes)

theorem length_readTail (more bits : Nat) (bytes : Bytes) :
    (readTail more bits bytes).2.length ≤ bytes.length := by
  fun_induction readTail more bits bytes with
  | case3 more bits b rest _ ih => exact Nat.le_succ_of_le ih
  | _ => simp

theorem length_readChar (b : UInt8) (bytes : Bytes) :
    (readChar b bytes).2.length ≤ bytes.length := by
  unfold readChar
  split
  · exact Nat.le_refl _
  · split
    · next l second rest _ =>
      split
      · exact Nat.le_succ_of_le (length_readTail ..)
      · exact Nat.le_refl _
    · exact Nat.le_refl _

/-- The characters of `bytes` after `done`, which holds those before, the latest first. -/
def readChars (bytes : Bytes) (done : List Char) : List Char :=
  match bytes with
  | [] => done.reverse
  | b :: rest => readChars (readChar b rest).2 ((readChar b rest).1 :: done)
termination_by bytes.length
decreasing_by exact Nat.lt_succ_of_le (length_readChar ..)

/-- The text that `bytes` spell. -/
def decode (bytes : Bytes) : String := String.ofList (readChars bytes [])

end Multiplex.Text
