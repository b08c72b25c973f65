/-! # Byte strings

Wire data is a list of bytes. A number of fixed width is written with its most significant byte
first (`Bytes.ofNat`) and read back digit by digit (`Bytes.toNat`). A long string is cut into pieces
of bounded length (`Bytes.pieces`) that join to the string again. -/

namespace Multiplex

/-- Data as it stands on the wire. -/
abbrev Bytes := List UInt8

namespace Bytes

/-! ### Numbers of fixed width -/

/-- The `width` low bytes of `n`, the most significant first. -/
def ofNat : (width n : Nat) → Bytes
  | 0, _ => []
  | width + 1, n => ofNat width (n / 256) ++ [UInt8.ofNat n]

/-- The number that `bytes` spell, the most significant byte first. -/
def toNat (bytes : Bytes) : Nat :=
  bytes.foldl (fun n b => n * 256 + b.toNat) 0

@[simp] theorem length_ofNat (width n : Nat) : (ofNat width n).length = width := by
  induction width generalizing n with
  | zero => rfl
  | succ width ih => simp [ofNat, ih]

@[simp] theorem toNat_nil : toNat [] = 0 := rfl

/-- A further byte takes the number one digit up. -/
theorem toNat_append (bytes : Bytes) (b : UInt8) : toNat (bytes ++ [b]) = toNat bytes * 256 + b.toNat := by
  simp [toNat]

/-- Reading back a number gives its last digit and what its other digits spell. -/
theorem toNat_ofNat_succ (width n : Nat) :
    toNat (ofNat (width + 1) n) = toNat (ofNat width (n / 256)) * 256 + n % 256 := by
  rw [ofNat, toNat_append, UInt8.toNat_ofNat']

/-! ### Pieces of bounded length -/

/-- Cuts `bytes` into consecutive pieces of `limit` bytes, the last one possibly shorter. A limit of
    zero counts as one. -/
def pieces (limit : Nat) (bytes : Bytes) : List Bytes :=
  match bytes with
  | [] => []
  | b :: rest => (b :: rest.take (limit - 1)) :: pieces limit (rest.drop (limit - 1))
termination_by bytes.length
decreasing_by simp only [List.length_drop, List.length_cons]; omega

@[simp] theorem pieces_nil (limit : Nat) : pieces limit [] = [] := by rw [pieces]

theorem pieces_cons (limit : Nat) (b : UInt8) (rest : Bytes) :
    pieces limit (b :: rest) = (b :: rest.take (limit - 1)) :: pieces limit (rest.drop (limit - 1)) := by
  rw [pieces]

/-- The pieces join to the string they were cut from. -/
theorem flatten_pieces (limit : Nat) (bytes : Bytes) : (pieces limit bytes).flatten = bytes := by
  fun_induction pieces limit bytes with
  | case1 => rfl
  | case2 b rest ih => rw [List.flatten_cons, ih, List.cons_append, List.take_append_drop]

/-- No piece is empty and none is longer than the limit. -/
theorem length_of_mem_pieces {limit : Nat} {bytes piece : Bytes} (member : piece ∈ pieces limit bytes) :
    0 < piece.length ∧ piece.length ≤ max limit 1 := by
  fun_induction pieces limit bytes with
  | case1 => simp at member
  | case2 b rest ih =>
    rcases List.mem_cons.mp member with head | tail
    · subst head
      simp only [List.length_cons, List.length_take]
      omega
    · exact ih tail

end Bytes

end Multiplex
