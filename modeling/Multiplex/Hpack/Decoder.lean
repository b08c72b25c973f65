import Multiplex.Hpack.Huffman
import Multiplex.Hpack.Integer
import Multiplex.Hpack.Table

/-! # Reading header blocks

A block is a sequence of items: indexed fields, literal fields that are inserted or not, and changes
of the table's capacity. What the items before a faulty one did to the table stays done. -/

namespace Multiplex.Hpack

/-- Why a string cannot be read. -/
inductive StringError where
  | notEnoughOctets
  | huffman (e : HuffmanError)
  deriving DecidableEq

/-- Why a header block cannot be read. -/
inductive BlockError where
  | indexOutOfBounds
  | sizeUpdateAtEnd
  | integer (e : IntegerError)
  | string (e : StringError)
  deriving DecidableEq

namespace BlockError

/-- The name of an error. -/
def name : BlockError → String
  | indexOutOfBounds => "HeaderIndexOutOfBounds"
  | sizeUpdateAtEnd => "SizeUpdateAtEnd"
  | integer .notEnoughOctets => "IntegerDecodingError(NotEnoughOctets)"
  | integer .tooManyOctets => "IntegerDecodingError(TooManyOctets)"
  | string .notEnoughOctets => "StringDecodingError(NotEnoughOctets)"
  | string (.huffman .paddingTooLarge) => "StringDecodingError(HuffmanDecoderError(PaddingTooLarge))"
  | string (.huffman .invalidPadding) => "StringDecodingError(HuffmanDecoderError(InvalidPadding))"
  | string (.huffman .endOfString) => "StringDecodingError(HuffmanDecoderError(EOSInString))"

/-- The text of an error. -/
def message (e : BlockError) : String := s!"HPACK decode error: {e.name}"

end BlockError

/-- What stops the reading of a block. A capacity that cannot be read is not a reported error: it
    crashes the reader. -/
inductive Fault where
  | malformed (e : BlockError)
  | crash
  deriving DecidableEq

/-! ### Items -/

/-- One item of a block. -/
inductive Item where
  | field (f : Field)
  /-- A field that is inserted into the table as well. -/
  | insertion (f : Field)
  | capacity (n : Nat)

/-- An integer of a block, the low bits of whose first byte hold numbers up to `full`. -/
def readInteger (full : Nat) (bytes : Bytes) : Except Fault (Nat × Bytes) :=
  match Integer.decode full bytes with
  | .ok result => .ok result
  | .error e => .error (.malformed (.integer e))

/-- A string of a block. -/
def readString (bytes : Bytes) : Except Fault (Bytes × Bytes) := do
  let (length, rest) ← readInteger 127 bytes
  let raw := rest.take length
  if raw.length < length then .error (.malformed (.string .notEnoughOctets))
  else if (bytes.headD 0).toNat < 0x80 then return (raw, rest.drop length)
  else
    match Huffman.decode raw with
    | .ok s => return (s, rest.drop length)
    | .error e => .error (.malformed (.string (.huffman e)))

/-- The name of a literal field: that of the field at index `i`, or a string if `i` is 0. -/
def readName (t : Table) (i : Nat) (bytes : Bytes) : Except Fault (Bytes × Bytes) :=
  if i = 0 then readString bytes
  else
    match t.get? i with
    | some f => .ok (f.name, bytes)
    | none => .error (.malformed .indexOutOfBounds)

/-- A literal field, the index of whose name starts in low bits that hold numbers up to `full`. -/
def readLiteral (t : Table) (full : Nat) (bytes : Bytes) : Except Fault (Field × Bytes) := do
  let (i, rest) ← readInteger full bytes
  let (name, rest) ← readName t i rest
  let (value, rest) ← readString rest
  return ({ name, value }, rest)

/-- Reads the item at the front of `bytes`, which its first bits tell apart. -/
def readItem (t : Table) (bytes : Bytes) : Except Fault (Item × Bytes) :=
  let first := (bytes.headD 0).toNat
  if 0x80 ≤ first then do
    let (i, rest) ← readInteger 127 bytes
    match t.get? i with
    | some f => return (.field f, rest)
    | none => .error (.malformed .indexOutOfBounds)
  else if 0x40 ≤ first then do
    let (f, rest) ← readLiteral t 63 bytes
    return (.insertion f, rest)
  else if 0x20 ≤ first then
    match Integer.decode 31 bytes with
    | .ok (n, rest) => .ok (.capacity n, rest)
    | .error _ => .error .crash
  else do
    let (f, rest) ← readLiteral t 15 bytes
    return (.field f, rest)

theorem length_readInteger {full n : Nat} {bytes rest : Bytes}
    (read : readInteger full bytes = .ok (n, rest)) : rest.length < bytes.length := by
  unfold readInteger at read
  split at read
  · next result decoded =>
    cases read
    exact Integer.length_decode decoded
  · cases read

theorem length_readString {s bytes rest : Bytes}
    (read : readString bytes = .ok (s, rest)) : rest.length < bytes.length := by
  unfold readString at read
  cases counted : readInteger 127 bytes with
  | error e => simp [counted, bind, Except.bind] at read
  | ok result =>
    obtain ⟨length, tail⟩ := result
    have shorter := length_readInteger counted
    simp only [counted, bind, Except.bind, pure, Except.pure] at read
    repeat' split at read
    all_goals simp only [Except.ok.injEq, Prod.mk.injEq, reduceCtorEq] at read
    all_goals
      obtain ⟨-, rfl⟩ := read
      simp only [List.length_drop]
      omega

theorem length_readName {t : Table} {i : Nat} {name bytes rest : Bytes}
    (read : readName t i bytes = .ok (name, rest)) : rest.length ≤ bytes.length := by
  unfold readName at read
  split at read
  · exact Nat.le_of_lt (length_readString read)
  · split at read
    · cases read
      exact Nat.le_refl _
    · cases read

theorem length_readLiteral {t : Table} {full : Nat} {f : Field} {bytes rest : Bytes}
    (read : readLiteral t full bytes = .ok (f, rest)) : rest.length < bytes.length := by
  unfold readLiteral at read
  simp only [bind, Except.bind, pure, Except.pure] at read
  split at read
  · cases read
  · next counted =>
    split at read
    · cases read
    · next named =>
      split at read
      · cases read
      · next valued =>
        cases read
        exact Nat.lt_trans (Nat.lt_of_lt_of_le (length_readString valued) (length_readName named))
          (length_readInteger counted)

/-- An item takes at least one byte. -/
theorem length_readItem {t : Table} {item : Item} {bytes rest : Bytes}
    (read : readItem t bytes = .ok (item, rest)) : rest.length < bytes.length := by
  unfold readItem at read
  simp only [bind, Except.bind, pure, Except.pure] at read
  split at read
  · split at read
    · cases read
    · next counted =>
      split at read
      · cases read
        exact length_readInteger counted
      · cases read
  · split at read
    · split at read
      · cases read
      · next literal =>
        cases read
        exact length_readLiteral literal
    · split at read
      · split at read
        · next counted =>
          cases read
          exact Integer.length_decode counted
        · cases read
      · split at read
        · cases read
        · next literal =>
          cases read
          exact length_readLiteral literal

/-! ### Blocks -/

namespace Table

/-- Reads the items of `bytes`, after the fields in `done`, the latest first. A change of capacity
    must not be the last item. -/
def readItems (t : Table) (done : List Field) (bytes : Bytes) : Table × Except Fault (List Field) :=
  if bytes.isEmpty then (t, .ok done.reverse)
  else
    match _read : readItem t bytes with
    | .error fault => (t, .error fault)
    | .ok (.field f, rest) => readItems t (f :: done) rest
    | .ok (.insertion f, rest) => readItems (t.insert f) (f :: done) rest
    | .ok (.capacity n, rest) =>
      if rest.isEmpty then (t.resize n, .error (.malformed .sizeUpdateAtEnd))
      else readItems (t.resize n) done rest
termination_by bytes.length
decreasing_by all_goals exact length_readItem (by assumption)

/-- Reads a header block, and gives the table after it. -/
def decode (t : Table) (block : Bytes) : Table × Except Fault (List Field) := t.readItems [] block

end Table

end Multiplex.Hpack
