import Mathlib.Algebra.Group.Nat.Defs
import Multiplex.Frame.Decoder

/-! # Reading back wire frames

A wire frame that stands at the front of a buffer is cut off as it was written: `parse?_bytes` reads the
header back, `cut_wireFrame` the frame. The flags of a frame are read back one by one, whatever
other bits are set beside them. -/

namespace Multiplex

/-! ### Numbers -/

theorem Bytes.toNat_ofNat (width n : Nat) (fits : n < 256 ^ width) : toNat (ofNat width n) = n := by
  induction width generalizing n with
  | zero => simp_all [ofNat]
  | succ width ih =>
    have quotient : n / 256 < 256 ^ width := Nat.div_lt_of_lt_mul (by rwa [← Nat.pow_succ'])
    rw [toNat_ofNat_succ, ih _ quotient]
    omega

theorem WireHeader.low31_of_lt {n : Nat} (narrow : n < 2 ^ 31) : low31 n = n := Nat.mod_eq_of_lt narrow

/-! ### Flags -/

namespace Flag

theorem isSet_or (flag a b : UInt8) : isSet flag (a ||| b) = (isSet flag a || isSet flag b) := by
  have split : (a ||| b) &&& flag = (a &&& flag) ||| (b &&& flag) := by
    rw [← UInt8.toBitVec_inj]
    ext i
    simp [Bool.and_or_distrib_right]
  rw [Bool.eq_iff_iff, Bool.or_eq_true]
  simp only [isSet, split, bne_iff_ne, ne_eq, UInt8.or_eq_zero_iff]
  exact Decidable.not_and_iff_not_or_not

theorem isSet_without {flag other : UInt8} (apart : ~~~other &&& flag = flag) (flags : UInt8) :
    isSet flag (flags &&& ~~~other) = isSet flag flags := by
  rw [isSet, isSet, UInt8.and_assoc, apart]

theorem isSet_removed (flag flags : UInt8) : isSet flag (flags &&& ~~~flag) = false := by
  have none : ~~~flag &&& flag = 0 := by
    rw [UInt8.and_comm, UInt8.and_not_self]
  simp [isSet, UInt8.and_assoc, none]

@[simp] theorem isSet_zero (flag : UInt8) : isSet flag 0 = false := by simp [isSet]

/-- A flag that is set on a condition is set if the condition holds. -/
theorem isSet_when {flag : UInt8} (proper : flag ≠ 0) (condition : Bool) :
    isSet flag (when flag condition) = condition := by
  cases condition <;> simp [isSet, when, proper]

theorem isSet_when_other {flag other : UInt8} (apart : other &&& flag = 0) (condition : Bool) :
    isSet flag (when other condition) = false := by
  cases condition <;> simp [isSet, when, apart]

end Flag

/-! ### Wire frames -/

theorem WireHeader.parse?_bytes (h : WireHeader) (rest : Bytes) (short : h.length < 2 ^ 24)
    (narrow : h.stream < 2 ^ 31) : parse? (h.bytes ++ rest) = some h := by
  have length : Bytes.toNat (Bytes.ofNat 3 h.length) = h.length := Bytes.toNat_ofNat 3 _ short
  have stream : Bytes.toNat (Bytes.ofNat 4 h.stream) = h.stream := Bytes.toNat_ofNat 4 _ (by omega)
  simp only [Bytes.ofNat, List.nil_append, List.cons_append] at length stream
  simp only [bytes, Bytes.ofNat, List.nil_append, List.cons_append, parse?, low31_of_lt narrow, length,
    stream]

namespace Frame

theorem length_wireFrame (kind : Kind) (flags : UInt8) (stream : Nat) (payload : Bytes) :
    (wireFrame kind flags stream payload).length = WireHeader.size + payload.length := by
  simp [wireFrame]

/-- A wire frame at the front of a buffer is cut off as it was written, or refused if the limit is lower. -/
theorem cut_bytes (limit : Nat) {h : WireHeader} {payload : Bytes} (whole : payload.length = h.length)
    (short : h.length < 2 ^ 24) (narrow : h.stream < 2 ^ 31) (rest : Bytes) :
    cut limit (h.bytes ++ payload ++ rest) =
      if limit < h.length then .oversized h.length else .whole h payload rest := by
  have body : (h.bytes ++ (payload ++ rest)).drop WireHeader.size = payload ++ rest :=
    List.drop_left' (WireHeader.length_bytes h)
  rw [List.append_assoc, cut, WireHeader.parse?_bytes h _ short narrow, body]
  simp [← whole]

section Whole
variable {kind : Kind} {flags : UInt8} {stream : Nat} {payload : Bytes}

theorem parse?_wireFrame (short : payload.length < 2 ^ 24) (narrow : stream < 2 ^ 31) (rest : Bytes) :
    WireHeader.parse? (wireFrame kind flags stream payload ++ rest) =
      some { length := payload.length, kind := kind.code, flags, stream } := by
  rw [wireFrame, List.append_assoc]
  exact WireHeader.parse?_bytes _ _ short narrow

/-- A wire frame that the limit allows is cut off as it was written. -/
theorem cut_of_le {limit : Nat} (small : limit < 2 ^ 24) (allowed : payload.length ≤ limit) (narrow : stream < 2 ^ 31)
    (rest : Bytes) :
    cut limit (wireFrame kind flags stream payload ++ rest) =
      .whole { length := payload.length, kind := kind.code, flags, stream } payload rest := by
  have cut := cut_bytes limit rfl (h := { length := payload.length, kind := kind.code, flags, stream })
    (Nat.lt_of_le_of_lt allowed small) narrow rest
  rwa [if_neg (Nat.not_lt.mpr allowed)] at cut

theorem clampLimit_lt (limit : Nat) : Decoder.clampLimit limit < 2 ^ 24 :=
  Nat.lt_of_le_of_lt (Nat.min_le_right ..) (by decide)

theorem cut_wireFrame {limit : Nat} (allowed : payload.length ≤ Decoder.clampLimit limit)
    (narrow : stream < 2 ^ 31) (rest : Bytes) :
    cut (Decoder.clampLimit limit) (wireFrame kind flags stream payload ++ rest) =
      .whole { length := payload.length, kind := kind.code, flags, stream } payload rest :=
  cut_of_le (clampLimit_lt limit) allowed narrow rest

end Whole

/-- What begins with a wire frame is not the preface, nor the beginning of it: the preface has a blank
    where a wire frame has its kind. -/
theorem skipPreface_wireFrame (kind : Kind) (flags : UInt8) (stream : Nat) (payload rest : Bytes) :
    skipPreface (wireFrame kind flags stream payload ++ rest) =
      (.frames, wireFrame kind flags stream payload ++ rest) := by
  have blank : preface[3]? = some 0x20 := by decide +kernel
  have fourth : (wireFrame kind flags stream payload ++ rest)[3]? = some kind.code := rfl
  have other : some kind.code ≠ some 0x20 := by cases kind <;> decide
  have apart : ¬ preface <+: wireFrame kind flags stream payload ++ rest := fun ⟨tail, same⟩ => by
    rw [← same, List.getElem?_append_left (by decide +kernel), blank] at fourth
    exact other fourth.symm
  have apart' : ¬ wireFrame kind flags stream payload ++ rest <+: preface := fun ⟨tail, same⟩ => by
    rw [← same, List.getElem?_append_left (by simp [length_wireFrame, WireHeader.size]; omega), fourth] at blank
    exact other blank
  simp [skipPreface, List.isPrefixOf_iff_prefix, apart, apart']

end Frame

end Multiplex
