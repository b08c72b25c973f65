import Multiplex.Proofs.Frame.Streams

/-! # Frames and what they took on the wire

A decoder does not tell how long the payload of a frame was on the wire, nor how much of it was padding. `Decoder.weigh`
gives each frame with both: the frames are those that the decoder gives (`Decoder.frames_weigh`), and the payload of a
DATA frame is what it brings and its padding (`Decoder.length_weigh`). -/

namespace Multiplex.Frame

/-- A frame as it was on the wire. -/
structure Weighed where
  frame : Frame
  /-- The length of the payload of the wire frame that completed it. -/
  length : Nat
  /-- How much of that is padding, the byte that tells its length included. -/
  padding : Nat
  deriving DecidableEq

/-- How much of a payload is padding. -/
def paddingOf (flags : UInt8) (payload : Bytes) : Nat :=
  if Flag.isSet Flag.padded flags then 1 + (payload.headD 0).toNat else 0

theorem length_unpad {kind : Kind} {flags : UInt8} {payload body : Bytes}
    (unpadded : unpad kind flags payload = .ok body) : payload.length = body.length + paddingOf flags payload := by
  unfold unpad at unpadded
  unfold paddingOf
  split at unpadded
  · next padded =>
    rw [if_pos padded]
    split at unpadded
    · cases unpadded
    · next pad rest =>
      split at unpadded <;> cases unpadded
      simp only [List.length_cons, List.length_take, List.headD_cons]
      omega
  · next plain =>
    cases unpadded
    rw [if_neg plain, Nat.add_zero]

/-! ### One wire frame -/

section Data
variable {pending' : Option OpenBlock} {stream : Nat} {bytes : Bytes} {final : Bool}

theorem frame_ne_data (b : OpenBlock) : b.frame ≠ .data stream bytes final := by
  unfold OpenBlock.frame
  split <;> nofun

theorem openBlock_ne_data (b : OpenBlock) (endHeaders : Bool) :
    openBlock b endHeaders ≠ .ok (pending', some (.data stream bytes final)) := by
  unfold openBlock
  intro went
  split at went
  · exact frame_ne_data b (Option.some.inj (Prod.mk.inj (Except.ok.inj went)).2)
  · split at went <;> cases went

theorem continueBlock_ne_data (b : OpenBlock) (h : WireHeader) (payload : Bytes) :
    continueBlock b h payload ≠ .ok (pending', some (.data stream bytes final)) := by
  unfold continueBlock
  dsimp only
  intro went
  split at went
  · cases went
  · split at went
    · split at went
      · exact frame_ne_data _ (Option.some.inj (Prod.mk.inj (Except.ok.inj went)).2)
      · cases went
    · cases went

/-- Data only comes of a DATA frame, without its padding. -/
theorem of_readKind_data {kind : Kind} {h : WireHeader} {payload : Bytes}
    (went : readKind kind h payload = .ok (pending', some (.data stream bytes final))) :
    unpad .data h.flags payload = .ok bytes := by
  cases kind with
  | data =>
    obtain ⟨body, unpadded, same⟩ := bind_ok went
    cases same
    exact unpadded
  | headers =>
    obtain ⟨body, -, rest⟩ := bind_ok went
    obtain ⟨parts, -, opened⟩ := bind_ok rest
    exact absurd opened (openBlock_ne_data _ _)
  | pushPromise =>
    obtain ⟨body, -, rest⟩ := bind_ok went
    split at rest
    · exact absurd rest (openBlock_ne_data _ _)
    · cases rest
  | reset | windowUpdate | ping =>
    obtain ⟨-, -, same⟩ := bind_ok went
    cases same
  | settings | goAway =>
    simp only [readKind] at went
    split at went <;> cases went
  | continuation | priority => cases went

theorem of_read_data {pending : Option OpenBlock} {h : WireHeader} {payload : Bytes}
    (went : read pending h payload = .ok (pending', some (.data stream bytes final))) :
    unpad .data h.flags payload = .ok bytes := by
  unfold read at went
  split at went
  · exact absurd went (continueBlock_ne_data _ h payload)
  · cases went
  · exact of_readKind_data went
  · cases went

end Data

/-! ### A buffer of wire frames -/

/-- The frames that the complete wire frames of `buffer` give, as they were on the wire. -/
def weighAll (limit : Nat) (pending : Option OpenBlock) (buffer : Bytes) : List Weighed :=
  match _found : cut limit buffer with
  | .short | .oversized _ => []
  | .whole h payload rest =>
    match read pending h payload with
    | .error _ => []
    | .ok (pending, frame) =>
      frame.toList.map ({ frame := ·, length := payload.length, padding := paddingOf h.flags payload }) ++
        weighAll limit pending rest
termination_by buffer.length
decreasing_by exact length_lt_of_cut (by assumption)

theorem frames_weighAll (limit : Nat) (pending : Option OpenBlock) (buffer : Bytes) :
    (weighAll limit pending buffer).map (·.frame) = (scan limit pending buffer []).frames := by
  fun_induction weighAll limit pending buffer with
  | case1 _ _ found => rw [scan_of_short found]; rfl
  | case2 _ _ _ found => rw [scan_of_oversized found]; rfl
  | case3 _ _ _ _ _ found _ failed => rw [scan_of_error found failed]; rfl
  | case4 _ _ _ _ rest found pending' frame went ih =>
    have earlier := scan_earlier limit pending' rest [] frame.toList
    have single : frame.toList.reverse = frame.toList := by cases frame <;> rfl
    rw [scan_of_ok found went, List.append_nil, ← List.nil_append frame.toList, earlier, List.map_append, ih, single,
      List.map_map]
    exact congrArg (· ++ _) (List.map_id _)

/-- The payload of a DATA frame is what it brings and its padding. -/
theorem length_weighAll (limit : Nat) (pending : Option OpenBlock) (buffer : Bytes) :
    ∀ w ∈ weighAll limit pending buffer, ∀ stream bytes final, w.frame = .data stream bytes final →
      w.length = bytes.length + w.padding := by
  fun_induction weighAll limit pending buffer with
  | case1 | case2 | case3 => exact nofun
  | case4 _ _ _ _ _ _ pending' frame went ih =>
    refine List.forall_mem_append.mpr ⟨fun w member stream bytes final same => ?_, ih⟩
    obtain ⟨f, given, rfl⟩ := List.mem_map.mp member
    obtain rfl := Option.mem_toList.mp given
    obtain rfl : f = .data stream bytes final := same
    exact length_unpad (of_read_data went)

namespace Decoder

/-- The frames that a decoder gives for a piece of input, as they were on the wire. -/
def weigh (d : Decoder) (bytes : Bytes) : List Weighed :=
  let input := d.opened (d.buffer ++ bytes)
  if d.failure.isSome ∨ input.1 = .undecided then [] else weighAll d.limit d.pending input.2

theorem frames_weigh (d : Decoder) (bytes : Bytes) : (d.weigh bytes).map (·.frame) = (d.feed bytes).2 := by
  unfold weigh
  by_cases going : d.failure = none
  · by_cases undecided : (d.opened (d.buffer ++ bytes)).1 = .undecided
    · rw [feed_of_undecided going undecided]
      simp [undecided]
    · rw [feed_of_decided going undecided]
      simp [going, undecided, frames_weighAll]
  · have failed := Option.isSome_iff_ne_none.mpr going
    rw [feed_of_failed failed]
    simp [failed]

theorem length_weigh (d : Decoder) (bytes : Bytes) :
    ∀ w ∈ d.weigh bytes, ∀ stream payload final, w.frame = .data stream payload final →
      w.length = payload.length + w.padding := by
  unfold weigh
  dsimp only
  split
  · exact nofun
  · exact length_weighAll _ _ _

end Decoder

end Multiplex.Frame
