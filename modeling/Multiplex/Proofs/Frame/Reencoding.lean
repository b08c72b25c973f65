import Multiplex.Proofs.Frame.RoundTrip
import Multiplex.Proofs.Frame.Weighing

/-! # Encoding what was decoded

The fields of a frame that a decoder gives agree with its flag byte, and its numbers fit the wire
(`coherents_feed`). So it can be encoded, and is read as it was, unless it came with padding: the padding is taken
off, but the flag byte, which goes out again, still tells of it, and the front of the payload is taken for the length
of padding (`scan_padded`). -/

namespace Multiplex

/-- A flag that is set may be set again. -/
theorem Flag.or_when_isSet :
    ∀ flag ∈ [endStream, priority], ∀ flags, flags ||| when flag (isSet flag flags) = flags := by
  have bytes : ∀ flag ∈ [endStream, priority], ∀ byte : Fin 256,
      UInt8.ofFin byte ||| when flag (isSet flag (UInt8.ofFin byte)) = UInt8.ofFin byte := by decide +kernel
  exact fun flag known flags => bytes flag known flags.toFin

namespace Frame

open WireHeader (low31)

theorem low31_lt (n : Nat) : low31 n < idBound := Nat.mod_lt _ (by decide)

/-! ### Frames as they are read -/

/-- The fields of a frame agree with its flag byte, and the numbers in it fit the wire. -/
def Coherent : Frame → Prop
  | headers _ _ final priority flags =>
    final = Flag.isSet Flag.endStream flags ∧ priority.isSome = Flag.isSet Flag.priority flags ∧
      ∀ d ∈ priority, d.parent < idBound
  | pushPromise _ promised _ => promised < idBound
  | settings ack params => ack → params = []
  | goAway last _ => last < idBound
  | windowUpdate _ increment => increment < idBound
  | data .. | reset .. | ping .. => True

/-- What a wire frame leaves open and what it completes are coherent. -/
structure ReadsCoherent (result : Option OpenBlock × Option Frame) : Prop where
  pending : ∀ b ∈ result.1, b.frame.Coherent
  frame : ∀ f ∈ result.2, f.Coherent

theorem readsCoherent_nothing : ReadsCoherent (none, none) := ⟨nofun, nofun⟩

theorem Coherent.reads {f : Frame} (coherent : f.Coherent) : ReadsCoherent (none, some f) :=
  ⟨nofun, fun g same => by cases same; exact coherent⟩

theorem Coherent.opens {b : OpenBlock} (coherent : b.frame.Coherent) : ReadsCoherent (some b, none) :=
  ⟨fun c same => by cases same; exact coherent, nofun⟩

theorem Coherent.extend {b : OpenBlock} (coherent : b.frame.Coherent) (block : Bytes) :
    ({ b with block } : OpenBlock).frame.Coherent := by
  unfold OpenBlock.frame at coherent ⊢
  dsimp only
  split at coherent <;> exact coherent

section Reading
variable {result : Option OpenBlock × Option Frame}

theorem readsCoherent_openBlock {b : OpenBlock} {endHeaders : Bool} (coherent : b.frame.Coherent)
    (went : openBlock b endHeaders = .ok result) : ReadsCoherent result := by
  unfold openBlock at went
  split at went
  · cases went
    exact coherent.reads
  · split at went <;> cases went
    exact coherent.opens

theorem readsCoherent_continueBlock {b : OpenBlock} {h : WireHeader} {payload : Bytes} (coherent : b.frame.Coherent)
    (went : continueBlock b h payload = .ok result) : ReadsCoherent result := by
  unfold continueBlock at went
  dsimp only at went
  split at went
  · cases went
  · split at went
    · split at went <;> cases went
      · exact (coherent.extend _).reads
      · exact (coherent.extend _).opens
    · cases went

theorem of_splitDependency {flags : UInt8} {payload block : Bytes} {priority : Option Dependency}
    (went : splitDependency flags payload = .ok (priority, block)) :
    priority.isSome = Flag.isSet Flag.priority flags ∧ (∀ d ∈ priority, d.parent < idBound) ∧
      block.length + leadSize .headers flags = payload.length := by
  unfold splitDependency at went
  unfold leadSize
  dsimp only
  split at went
  · next ranked =>
    rw [if_pos ranked]
    split at went <;> cases went
    exact ⟨ranked.symm, fun d same => by cases same; exact low31_lt _, by simp⟩
  · next plain =>
    cases went
    rw [if_neg plain]
    exact ⟨(Bool.eq_false_iff.mpr plain).symm, nofun, rfl⟩

theorem readsCoherent_readKind {kind : Kind} {h : WireHeader} {payload : Bytes}
    (went : readKind kind h payload = .ok result) : ReadsCoherent result := by
  cases kind with
  | data =>
    obtain ⟨body, -, same⟩ := bind_ok went
    cases same
    exact Coherent.reads trivial
  | headers =>
    obtain ⟨body, -, rest⟩ := bind_ok went
    obtain ⟨⟨priority, block⟩, parted, opened⟩ := bind_ok rest
    obtain ⟨announced, narrow, -⟩ := of_splitDependency parted
    refine readsCoherent_openBlock ?_ opened
    exact ⟨rfl, announced, narrow⟩
  | pushPromise =>
    obtain ⟨body, -, rest⟩ := bind_ok went
    split at rest
    · refine readsCoherent_openBlock ?_ rest
      exact low31_lt _
    · cases rest
  | continuation => cases went
  | reset =>
    obtain ⟨-, -, same⟩ := bind_ok went
    cases same
    exact Coherent.reads trivial
  | settings =>
    simp only [readKind] at went
    split at went
    · cases went
    · next allowed =>
      cases went
      refine Coherent.reads fun ack => ?_
      -- An acknowledgement with parameters has been refused.
      have nothing : payload = [] := Decidable.not_not.mp fun something => allowed (.inr ⟨ack, something⟩)
      rw [nothing]
      rfl
  | goAway =>
    simp only [readKind] at went
    split at went <;> cases went
    exact Coherent.reads (low31_lt _)
  | windowUpdate =>
    obtain ⟨-, -, same⟩ := bind_ok went
    cases same
    exact Coherent.reads (low31_lt _)
  | ping =>
    obtain ⟨-, -, same⟩ := bind_ok went
    cases same
    exact Coherent.reads trivial
  | priority =>
    cases went
    exact readsCoherent_nothing

theorem readsCoherent_read {pending : Option OpenBlock} {h : WireHeader} {payload : Bytes}
    (waiting : ∀ b ∈ pending, b.frame.Coherent) (went : read pending h payload = .ok result) :
    ReadsCoherent result := by
  unfold read at went
  split at went
  · next b _ => exact readsCoherent_continueBlock (waiting b rfl) went
  · cases went
  · exact readsCoherent_readKind went
  · cases went
    exact readsCoherent_nothing

end Reading

/-- A decoder after any use: it is fed input, and its limit is changed. -/
inductive Decoder.Used : Decoder → Prop
  | start (limit : Nat) : Used (start limit)
  | setLimit {d : Decoder} (used : Used d) (limit : Nat) : Used (d.setLimit limit)
  | feed {d : Decoder} (used : Used d) (bytes : Bytes) : Used (d.feed bytes).1

/-- What a decoder gives is coherent, as long as the block that it holds open is. -/
theorem coherents_feed {d : Decoder} (bytes : Bytes)
    (waiting : ∀ b ∈ d.pending, b.stream < idBound ∧ b.frame.Coherent) :
    (∀ b ∈ (d.feed bytes).1.pending, b.stream < idBound ∧ b.frame.Coherent) ∧
      ∀ f ∈ (d.feed bytes).2, f.stream < idBound ∧ f.Coherent := by
  refine feed_all (fun found waiting went => ?_) bytes waiting
  have reads := reads_read (stream_of_cut found) (fun b left => (waiting b left).1) went
  have coherent := readsCoherent_read (fun b left => (waiting b left).2) went
  exact ⟨fun b left => ⟨reads.pending b left, coherent.pending b left⟩,
    fun f given => ⟨reads.frame f given, coherent.frame f given⟩⟩

theorem Decoder.Used.waiting {d : Decoder} (used : d.Used) :
    ∀ b ∈ d.pending, b.stream < idBound ∧ b.frame.Coherent := by
  induction used with
  | start => exact nofun
  | setLimit _ _ ih => exact ih
  | feed _ bytes ih => exact (coherents_feed bytes ih).1

/-! ### Coherent frames on the wire -/

/-- The flag byte that a frame keeps. -/
def flagByte : Frame → UInt8
  | headers _ _ _ _ flags => flags
  | _ => 0

/-- The frame with END_HEADERS among its flags, or without it. -/
def withEnd (whole : Bool) : Frame → Frame
  | headers stream block final priority flags => headers stream block final priority (blockFlags flags whole)
  | frame => frame

theorem headersFlags_self {final : Bool} {priority : Option Dependency} {flags : UInt8}
    (ends : final = Flag.isSet Flag.endStream flags) (announced : priority.isSome = Flag.isSet Flag.priority flags) :
    headersFlags flags final priority = flags := by
  rw [headersFlags, ends, announced, Flag.or_when_isSet _ List.mem_cons_self,
    Flag.or_when_isSet _ (List.mem_cons_of_mem _ List.mem_cons_self)]

section Coherent
variable {f : Frame}

theorem Coherent.writable (coherent : f.Coherent) (narrow : f.stream < idBound)
    (bare : Flag.isSet Flag.padded f.flagByte = false) : f.Writable := by
  cases f with
  | headers =>
    obtain ⟨ends, announced, fits⟩ := coherent
    exact ⟨narrow, fits, bare, fun set => ends.trans set, fun set => announced.trans set⟩
  | pushPromise | windowUpdate => exact ⟨narrow, coherent⟩
  | data | reset => exact narrow
  | goAway => exact coherent
  | settings | ping => trivial

theorem Coherent.asRead (coherent : f.Coherent) (limit : Nat) :
    f.asRead limit = f.withEnd ((f.wire limit).length = 1) := by
  cases f with
  | headers =>
    obtain ⟨ends, announced, -⟩ := coherent
    rw [Frame.asRead, withEnd, headersFlags_self ends announced]
  | settings ack =>
    cases ack with
    | true => rw [coherent rfl]; rfl
    | false => rfl
  | _ => rfl

end Coherent

/-! ### Flags without padding -/

theorem length_of_unpad {kind : Kind} {flags : UInt8} {payload body : Bytes} (padded : Flag.isSet Flag.padded flags)
    (went : unpad kind flags payload = .ok body) : body.length < payload.length := by
  rw [length_unpad went, paddingOf, if_pos padded]
  omega

/-- What is taken off for padding leaves a shorter block. -/
theorem read_padded {length stream : Nat} {flags : UInt8} {payload : Bytes}
    {result : Option OpenBlock × Option Frame} (padded : Flag.isSet Flag.padded flags)
    (went : read none { length, kind := Kind.headers.code, flags, stream } payload = .ok result) :
    ∃ b : OpenBlock, b.stream = stream ∧ b.block.length + leadSize .headers flags < payload.length ∧
      openBlock b (Flag.isSet Flag.endHeaders flags) = .ok result := by
  rw [read_known] at went
  obtain ⟨body, unpadded, rest⟩ := bind_ok went
  obtain ⟨⟨priority, block⟩, parted, opened⟩ := bind_ok rest
  refine ⟨_, rfl, ?_, opened⟩
  rw [(of_splitDependency parted).2.2]
  exact length_of_unpad padded unpadded

theorem block_frame (b : OpenBlock) : b.frame.block = b.block := by
  unfold OpenBlock.frame
  split <;> rfl

/-- A header block whose flags tell of padding that is not there is refused, or something is missing when it is read. -/
theorem scan_padded {limit stream : Nat} {flags : UInt8} {payload : Bytes} {others : List Fragment}
    (small : limit < 2 ^ 24) (narrow : stream < 2 ^ 31) (padded : Flag.isSet Flag.padded flags)
    (first : payload.length ≤ limit) (allowed : ∀ g ∈ others, g.bytes.length ≤ limit)
    (bounded : payload.length + (Fragment.join others).length ≤ OpenBlock.limit + leadSize .headers flags) :
    (scan limit none (wireFrame .headers (blockFlags flags others.isEmpty) stream payload ++
        (fragmentFrames stream true others).flatten) []).Fails [] ∨
      ∃ g, scan limit none (wireFrame .headers (blockFlags flags others.isEmpty) stream payload ++
          (fragmentFrames stream true others).flatten) [] = scan limit none [] [g] ∧
        g.block.length + leadSize .headers flags < payload.length + (Fragment.join others).length := by
  have ranked : Flag.isSet Flag.priority (blockFlags flags others.isEmpty) = Flag.isSet Flag.priority flags :=
    isSet_blockFlags (by decide) (by decide) flags others.isEmpty
  have kept : leadSize .headers (blockFlags flags others.isEmpty) = leadSize .headers flags := by
    simp only [leadSize, ranked]
  have padded : Flag.isSet Flag.padded (blockFlags flags others.isEmpty) :=
    (isSet_blockFlags (by decide) (by decide) flags others.isEmpty).trans padded
  -- The first byte of the payload is read as a pad length, so at least that byte is lost.
  rcases scan_bytes limit none (h := ⟨_, Kind.headers.code, blockFlags flags others.isEmpty, stream⟩) rfl
    (Nat.lt_of_le_of_lt first small) narrow _ [] with fails | ⟨pending, frame, went, goes⟩
  · exact .inl fails
  · obtain ⟨b, rfl, shorter, opened⟩ := read_padded padded went
    rw [kept] at shorter
    rw [isSet_endHeaders_blockFlags] at opened
    refine .inr ?_
    cases others with
    | nil =>
      cases opened
      exact ⟨b.frame, goes, by rw [block_frame]; exact Nat.lt_of_lt_of_le shorter (Nat.le_add_right ..)⟩
    | cons g others =>
      rw [openBlock, List.isEmpty_cons, if_neg Bool.false_ne_true] at opened
      split at opened <;> cases opened
      have whole : (b.block ++ Fragment.join (g :: others)).length ≤ OpenBlock.limit := by
        rw [List.length_append]
        omega
      have joined := scan_fragmentFrames small narrow allowed whole [] []
      rw [List.append_nil] at joined
      refine ⟨_, goes.trans joined, ?_⟩
      rw [block_frame, List.length_append]
      omega

theorem leadSize_headers {flags : UInt8} {priority : Option Dependency}
    (announced : priority.isSome = Flag.isSet Flag.priority flags) :
    leadSize .headers flags = (Opener.headers priority).lead.length := by
  unfold leadSize
  dsimp only
  rw [← announced]
  cases priority <;> simp [Opener.lead, Dependency.bytes]

theorem wire_headers {stream : Nat} {block : Bytes} {final : Bool} {priority : Option Dependency} {flags : UInt8}
    (ends : final = Flag.isSet Flag.endStream flags) (announced : priority.isSome = Flag.isSet Flag.priority flags)
    (limit : Nat) :
    (headers stream block final priority flags).wire limit =
      (Spread.written (.headers priority) stream flags block limit).wire true := by
  show blockFrames .headers (headersFlags flags final priority) stream _ block limit = _
  rw [headersFlags_self ends announced, Spread.wire_written]
  rfl

/-- A frame whose flag byte tells of padding is not read as it was. -/
theorem feed_padded {stream : Nat} {block : Bytes} {final : Bool} {priority : Option Dependency} {flags : UInt8}
    (narrow : stream < 2 ^ 31) (coherent : (headers stream block final priority flags).Coherent)
    (padded : Flag.isSet Flag.padded flags) {limit accept : Nat}
    (accepted : ∀ w ∈ (headers stream block final priority flags).wire limit,
      w.length ≤ WireHeader.size + Decoder.clampLimit accept)
    (bounded : block.length ≤ OpenBlock.limit) :
    (Decoder.start accept).Breaks ((headers stream block final priority flags).encode limit) ∨
      ∃ g, (Decoder.start accept).feed ((headers stream block final priority flags).encode limit) =
          ((Decoder.start accept).begun, [g]) ∧ g.block.length < block.length := by
  obtain ⟨ends, announced, -⟩ := coherent
  have aligned := Decoder.aligned_start accept
  let s := Spread.written (.headers priority) stream flags block limit
  have wire : _ = s.wire true := wire_headers ends announced limit
  have written : (headers stream block final priority flags).encode limit =
      wireFrame .headers (blockFlags flags s.others.isEmpty) stream (s.opener.lead ++ s.first) ++
        (fragmentFrames stream true s.others).flatten := by
    rw [encode, wire]
    rfl
  rw [wire] at accepted
  obtain ⟨head, tail⟩ := List.forall_mem_cons.mp (Spread.payloads_le accepted)
  have head : (s.opener.lead ++ s.first).length ≤ Decoder.clampLimit accept := head
  have allowed : ∀ g ∈ s.others, g.bytes.length ≤ Decoder.clampLimit accept := fun g member =>
    tail g.bytes (List.mem_map_of_mem member)
  -- The payloads hold the lead and the block and nothing else, so what the padding takes is missing in the block.
  have size : (s.opener.lead ++ s.first).length + (Fragment.join s.others).length =
      leadSize .headers flags + block.length := by
    have whole := congrArg List.length (Spread.block_written (.headers priority) stream flags block limit)
    rw [Spread.block, List.length_append] at whole
    rw [leadSize_headers announced, List.length_append, Nat.add_assoc, whole]
    rfl
  rw [written]
  rcases scan_padded (clampLimit_lt accept) narrow padded head allowed (by omega) with fails | ⟨g, scanned, shorter⟩
  · exact .inl (aligned.breaks fails)
  · exact .inr ⟨g, aligned.feed_single rfl scanned, by omega⟩

/-- A frame that a decoder has given can be encoded, with any limit, for a fresh decoder that takes payloads of that
    size. If its flag byte does not tell of padding, it is read as it was, except that END_HEADERS is among its
    flags just if it took one wire frame. If the flag byte tells of padding, the frame is refused, or a part of its
    header block is missing when it is read. -/
theorem feed_reencoded {d : Decoder} (used : d.Used) {bytes : Bytes} {f : Frame} (given : f ∈ (d.feed bytes).2)
    (limit accept : Nat) (accepted : ∀ w ∈ f.wire limit, w.length ≤ WireHeader.size + Decoder.clampLimit accept)
    (bounded : f.block.length ≤ OpenBlock.limit) :
    (Flag.isSet Flag.padded f.flagByte = false →
        (Decoder.start accept).feed (f.encode limit) =
          ((Decoder.start accept).begun, [f.withEnd ((f.wire limit).length = 1)])) ∧
      (Flag.isSet Flag.padded f.flagByte →
        (Decoder.start accept).Breaks (f.encode limit) ∨
          ∃ g, (Decoder.start accept).feed (f.encode limit) = ((Decoder.start accept).begun, [g]) ∧
            g.block.length < f.block.length) := by
  obtain ⟨narrow, coherent⟩ := (coherents_feed bytes used.waiting).2 f given
  refine ⟨fun bare => ?_, fun padded => ?_⟩
  · have scanned := scan_wire (coherent.writable narrow bare) accepted (fun _ => bounded) [] []
    obtain ⟨kind, flags, stream, payload, later, first⟩ := wire_eq_cons limit f
    have written : f.encode limit = wireFrame kind flags stream payload ++ later.flatten := by
      rw [encode, first, List.flatten_cons]
    rw [List.append_nil, coherent.asRead, ← encode, written] at scanned
    rw [written]
    exact (Decoder.aligned_start accept).feed_single rfl scanned
  · cases f with
    | headers => exact feed_padded narrow coherent padded accepted bounded
    | _ => exact absurd padded (Bool.eq_false_iff.mp (Flag.isSet_zero Flag.padded))

/-- A frame with a dependency and a flag that stands for nothing came in two wire frames. Written with a limit of
    six bytes it takes two again, and is the same frame. -/
theorem feed_reencoded_fragmented :
    let wire := wireFrame .headers 0x61 1 [0x80, 0, 0, 3, 9, 0x82] ++ wireFrame .continuation 0x4 1 [0x86]
    let f := headers 1 [0x82, 0x86] true (some { parent := 3, exclusive := true, weight := 9 }) 0x61
    f ∈ ((Decoder.start 0).feed wire).2 ∧
      (Decoder.start 0).feed (f.encode 6) = ((Decoder.start 0).begun, [f]) := by
  intro wire f
  have given : f ∈ ((Decoder.start 0).feed wire).2 := by decide +kernel
  refine ⟨given, ?_⟩
  have same : f.withEnd ((f.wire 6).length = 1) = f := by decide +kernel
  have fed := (feed_reencoded (.start 0) given 6 0 (by decide +kernel) (by decide)).1 (by decide)
  rwa [same] at fed

/-- A frame with one byte of padding is read. Encoded again, it tells of padding that is not there, and is refused. -/
theorem feed_reencoded_padded :
    let f := headers 1 [0x82, 0x86] false none 0xc
    ((Decoder.start 16384).feed (wireFrame .headers 0xc 1 [1, 0x82, 0x86, 0])).2 = [f] ∧
      f.encode 16384 = wireFrame .headers 0xc 1 [0x82, 0x86] ∧ f.block.length ≤ OpenBlock.limit ∧
      ((Decoder.start 16384).feed (f.encode 16384)).1.failure = some (.badPadding .headers) ∧
      ∀ whole, ((Decoder.start 16384).feed (f.encode 16384)).2 ≠ [f.withEnd whole] := by
  decide +kernel

end Frame

end Multiplex
