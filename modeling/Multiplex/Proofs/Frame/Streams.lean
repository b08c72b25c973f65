import Mathlib.Algebra.Group.Nat.Defs
import Multiplex.Proofs.Frame.Chunking

/-! # Streams of decoded frames

A frame header holds an identifier of 31 bits, so that no frame that is read, and no header block that
waits for its end, belongs to a stream beyond them. -/

namespace Multiplex

/-- The bound on the identifiers that a frame header can hold. -/
def Frame.idBound : Nat := 2 ^ 31

theorem WireHeader.stream_of_parse? {buffer : Bytes} {h : WireHeader} (found : parse? buffer = some h) :
    h.stream < Frame.idBound := by
  unfold parse? at found
  split at found
  · cases found
    exact Nat.mod_lt _ (by decide)
  · cases found

namespace Frame

/-- A wire frame only leaves open and only completes what is of its own stream, of the connection, or of the
    block that was open. -/
structure Reads (bound : Nat) (result : Option OpenBlock × Option Frame) : Prop where
  pending : ∀ b ∈ result.1, b.stream < bound
  frame : ∀ f ∈ result.2, f.stream < bound

section Reading
variable {bound : Nat} {result : Option OpenBlock × Option Frame}

theorem reads_frame {f : Frame} (small : f.stream < bound) : Reads bound (none, some f) :=
  ⟨nofun, fun g same => by cases same; exact small⟩

theorem stream_frame (b : OpenBlock) : b.frame.stream = b.stream := by
  unfold OpenBlock.frame
  split <;> rfl

theorem reads_openBlock {b : OpenBlock} {endHeaders : Bool} (small : b.stream < bound)
    (went : openBlock b endHeaders = .ok result) : Reads bound result := by
  unfold openBlock at went
  split at went
  · cases went
    exact reads_frame (stream_frame b ▸ small)
  · split at went <;> cases went
    exact ⟨fun c same => by cases same; exact small, nofun⟩

theorem reads_continueBlock {b : OpenBlock} {h : WireHeader} {payload : Bytes} (small : b.stream < bound)
    (went : continueBlock b h payload = .ok result) : Reads bound result := by
  unfold continueBlock at went
  dsimp only at went
  split at went
  · cases went
  · split at went
    · split at went <;> cases went
      · exact reads_frame (Nat.lt_of_le_of_lt (Nat.le_of_eq (stream_frame _)) small)
      · exact ⟨fun c same => by cases same; exact small, nofun⟩
    · cases went

theorem bind_ok {α β : Type} {first : Except DecodeError α} {next : α → Except DecodeError β} {b : β}
    (went : first >>= next = .ok b) : ∃ a, first = .ok a ∧ next a = .ok b := by
  cases first with
  | error e => cases went
  | ok a => exact ⟨a, rfl, went⟩

theorem reads_readKind {kind : Kind} {h : WireHeader} {payload : Bytes} (small : h.stream < bound)
    (went : readKind kind h payload = .ok result) : Reads bound result := by
  have positive : 0 < bound := Nat.zero_lt_of_lt small
  -- A frame names the stream of its header, or none: then it is of the connection.
  cases kind with
  | data =>
    obtain ⟨body, -, same⟩ := bind_ok went
    cases same
    exact reads_frame small
  | headers =>
    obtain ⟨body, -, rest⟩ := bind_ok went
    obtain ⟨⟨priority, block⟩, -, opened⟩ := bind_ok rest
    exact reads_openBlock small opened
  | pushPromise =>
    obtain ⟨body, -, rest⟩ := bind_ok went
    split at rest
    · exact reads_openBlock small rest
    · cases rest
  | continuation => cases went
  | reset =>
    obtain ⟨-, -, same⟩ := bind_ok went
    cases same
    exact reads_frame small
  | settings =>
    simp only [readKind] at went
    split at went <;> cases went
    exact reads_frame positive
  | goAway =>
    simp only [readKind] at went
    split at went <;> cases went
    exact reads_frame positive
  | windowUpdate =>
    obtain ⟨-, -, same⟩ := bind_ok went
    cases same
    exact reads_frame small
  | ping =>
    obtain ⟨-, -, same⟩ := bind_ok went
    cases same
    exact reads_frame positive
  | priority =>
    cases went
    exact ⟨nofun, nofun⟩

theorem reads_read {pending : Option OpenBlock} {h : WireHeader} {payload : Bytes} (small : h.stream < bound)
    (waiting : ∀ b ∈ pending, b.stream < bound) (went : read pending h payload = .ok result) :
    Reads bound result := by
  unfold read at went
  split at went
  · next b _ => exact reads_continueBlock (waiting b rfl) went
  · cases went
  · exact reads_readKind small went
  · cases went
    exact ⟨nofun, nofun⟩

end Reading

theorem stream_of_cut {limit : Nat} {buffer payload rest : Bytes} {h : WireHeader}
    (found : cut limit buffer = .whole h payload rest) : h.stream < idBound := by
  unfold cut at found
  split at found
  · cases found
  · next parsed =>
    split at found
    · cases found
    · dsimp only at found
      split at found <;> cases found
      exact WireHeader.stream_of_parse? parsed

/-! ### Runs of a decoder -/

/-- A wire frame within the limit that is read while at most a block with `P` is open leaves at most such a block open,
    and completes at most a frame with `Q`. -/
def Preserves (limit : Nat) (P : OpenBlock → Prop) (Q : Frame → Prop) : Prop :=
  ∀ {pending : Option OpenBlock} {h : WireHeader} {buffer payload rest : Bytes}
    {result : Option OpenBlock × Option Frame}, cut limit buffer = .whole h payload rest → (∀ b ∈ pending, P b) →
      read pending h payload = .ok result → (∀ b ∈ result.1, P b) ∧ ∀ f ∈ result.2, Q f

section Runs
variable {P : OpenBlock → Prop} {Q : Frame → Prop}

/-- What each wire frame has, whatever block was open before it, all frames of a scan have. -/
theorem scan_all {limit : Nat} (step : Preserves limit P Q) {pending : Option OpenBlock} (buffer : Bytes)
    {done : List Frame} (waiting : ∀ b ∈ pending, P b) (before : ∀ f ∈ done, Q f) :
    (∀ b ∈ (scan limit pending buffer done).pending, P b) ∧ ∀ f ∈ (scan limit pending buffer done).frames, Q f := by
  fun_induction scan limit pending buffer done with
  | case1 => exact ⟨waiting, by simpa using before⟩
  | case2 => exact ⟨by simp, by simpa using before⟩
  | case3 => exact ⟨by simp, by simpa using before⟩
  | case4 _ _ _ _ _ _ found _ frame went ih =>
    have reads := step found waiting went
    refine ih reads.1 fun f member => ?_
    rcases List.mem_append.mp member with new | old
    · exact reads.2 f (Option.mem_toList.mp new)
    · exact before f old

theorem feed_all {d : Decoder} (step : Preserves d.limit P Q) (bytes : Bytes) (waiting : ∀ b ∈ d.pending, P b) :
    (∀ b ∈ (d.feed bytes).1.pending, P b) ∧ ∀ f ∈ (d.feed bytes).2, Q f := by
  by_cases going : d.failure = none
  · by_cases undecided : (d.opened (d.buffer ++ bytes)).1 = .undecided
    · rw [Decoder.feed_of_undecided going undecided]
      exact ⟨waiting, nofun⟩
    · rw [Decoder.feed_of_decided going undecided]
      exact scan_all step _ waiting nofun
  · rw [Decoder.feed_of_failed (Option.isSome_iff_ne_none.mpr going)]
    exact ⟨waiting, nofun⟩

end Runs

theorem streams_feed {d : Decoder} (bytes : Bytes) (waiting : ∀ b ∈ d.pending, b.stream < idBound) :
    (∀ b ∈ (d.feed bytes).1.pending, b.stream < idBound) ∧ ∀ f ∈ (d.feed bytes).2, f.stream < idBound :=
  feed_all (fun found waiting went =>
    have reads := reads_read (stream_of_cut found) waiting went
    ⟨reads.pending, reads.frame⟩) bytes waiting

/-- No stream that a reader has heard of is beyond what a header can hold. -/
structure Reader.Bounded (r : Reader) : Prop where
  pending : ∀ b ∈ r.decoder.pending, b.stream < idBound
  ready : ∀ f ∈ r.ready, f.stream < idBound

theorem Reader.Bounded.feed {r : Reader} (bounded : r.Bounded) (bytes : Bytes) : (r.feed bytes).Bounded where
  pending := (streams_feed bytes bounded.pending).1
  ready f member :=
    (List.mem_append.mp member).elim (bounded.ready f) ((streams_feed bytes bounded.pending).2 f)

theorem Reader.Bounded.next {r rest : Reader} {f : Frame} (bounded : r.Bounded) (taken : r.next? = some (f, rest)) :
    f.stream < idBound ∧ rest.Bounded := by
  unfold Reader.next? at taken
  split at taken
  · cases taken
  · next found =>
    cases taken
    have ready := bounded.ready
    rw [found] at ready
    obtain ⟨first, others⟩ := List.forall_mem_cons.mp ready
    exact ⟨first, bounded.pending, others⟩

end Frame

end Multiplex
