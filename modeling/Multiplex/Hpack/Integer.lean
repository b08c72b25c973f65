import Multiplex.Bytes

/-! # Integers in header blocks

An integer shares its first byte with a few bits that precede it. A value too large for the low bits
of that byte fills them with ones and goes on in groups of seven bits, the lowest group first, each
but the last with its high bit set. -/

namespace Multiplex.Hpack

/-- Why an integer cannot be read. -/
inductive IntegerError where
  | notEnoughOctets
  | tooManyOctets
  deriving DecidableEq

namespace Integer

/-- The most bytes that an integer may take. -/
def maxOctets : Nat := 5

/-- The groups of `n`. -/
def groups (n : Nat) : Bytes :=
  if n < 128 then [UInt8.ofNat n] else UInt8.ofNat (n % 128 + 128) :: groups (n / 128)

/-- Writes `n` into the low bits of a byte whose other bits are those of `high`, and into as many
    further bytes as it takes. The low bits hold numbers up to `full`. -/
def encode (high full n : Nat) : Bytes :=
  if n < full then [UInt8.ofNat (high + n)] else UInt8.ofNat (high + full) :: groups (n - full)

/-- Reads groups on top of `value`, the next of which counts `scale` times, when the integer has
    taken `taken` bytes. -/
def readGroups (value scale taken : Nat) : Bytes → Except IntegerError (Nat × Bytes)
  | [] => .error .notEnoughOctets
  | b :: rest =>
    let value := value + b.toNat % 128 * scale
    if b.toNat < 128 then .ok (value, rest)
    else if taken + 1 = maxOctets then .error .tooManyOctets
    else readGroups value (scale * 128) (taken + 1) rest

/-- Reads an integer from the low bits of the first byte on, which hold numbers up to `full`, and gives
    the bytes after it. -/
def decode (full : Nat) : Bytes → Except IntegerError (Nat × Bytes)
  | [] => .error .notEnoughOctets
  | b :: rest =>
    let value := b.toNat % (full + 1)
    if value < full then .ok (value, rest) else readGroups value 1 1 rest

theorem length_readGroups {value scale taken n : Nat} {bytes rest : Bytes}
    (read : readGroups value scale taken bytes = .ok (n, rest)) : rest.length < bytes.length := by
  fun_induction readGroups value scale taken bytes with
  | case1 => cases read
  | case2 =>
    simp only [Except.ok.injEq, Prod.mk.injEq] at read
    obtain ⟨-, rfl⟩ := read
    exact Nat.lt_succ_self _
  | case3 => cases read
  | case4 _ _ _ _ _ _ _ _ ih => exact Nat.lt_succ_of_lt (ih read)

/-- An integer takes at least one byte. -/
theorem length_decode {full n : Nat} {bytes rest : Bytes}
    (read : decode full bytes = .ok (n, rest)) : rest.length < bytes.length := by
  unfold decode at read
  split at read
  · cases read
  · simp only at read
    split at read
    · simp only [Except.ok.injEq, Prod.mk.injEq] at read
      obtain ⟨-, rfl⟩ := read
      exact Nat.lt_succ_self _
    · exact Nat.lt_succ_of_lt (length_readGroups read)

end Integer

end Multiplex.Hpack
