import Multiplex.Proofs.Frame.Fragments

/-! # Decoding what was encoded

A decoder that reads encoded frames gives the frames back. Most frames are one wire frame
(`wire_single`). A header block may be spread over several: it is written in one of the ways in which a
header block can be read as one frame (`Spread.wire_written`). -/

namespace Multiplex.Frame

open WireHeader (low31)

/-! ### What is written and what is read -/

/-- A frame says the same on the wire: its numbers fit, and the flags that were given with it announce
    nothing that it does not have. -/
def Writable : Frame → Prop
  | data stream _ _ | reset stream _ => stream < 2 ^ 31
  | headers stream _ final priority flags =>
    stream < 2 ^ 31 ∧ (∀ d ∈ priority, d.parent < 2 ^ 31) ∧ Flag.isSet Flag.padded flags = false ∧
      (Flag.isSet Flag.endStream flags → final) ∧ (Flag.isSet Flag.priority flags → priority.isSome)
  | pushPromise stream promised _ => stream < 2 ^ 31 ∧ promised < 2 ^ 31
  | settings .. | ping .. => True
  | goAway last _ => last < 2 ^ 31
  | windowUpdate stream increment => stream < 2 ^ 31 ∧ increment < 2 ^ 31

def block : Frame → Bytes
  | headers _ block .. | pushPromise _ _ block => block
  | _ => []

/-- What stands before the header block of a frame on the wire. -/
def lead : Frame → Bytes
  | headers _ _ _ priority _ => priority.elim [] Dependency.bytes
  | pushPromise _ promised _ => Bytes.ofNat 4 (low31 promised)
  | _ => []

def hasBlock : Frame → Bool
  | headers .. | pushPromise .. => true
  | _ => false

/-- The flags that a HEADERS frame is written with, END_HEADERS apart: those that were given with it, and
    those that it calls for. -/
def headersFlags (flags : UInt8) (final : Bool) (priority : Option Dependency) : UInt8 :=
  flags ||| Flag.when Flag.endStream final ||| Flag.when Flag.priority priority.isSome

/-- A frame as it is read after it was written: an answer to SETTINGS has no parameters, and the flag
    byte of a HEADERS frame is the one on the wire. END_HEADERS is among its flags if the block needed no
    other wire frame. -/
def asRead (limit : Nat) : Frame → Frame
  | settings true _ => settings true []
  | headers stream block final priority flags =>
    let whole := ((headers stream block final priority flags).wire limit).length = 1
    headers stream block final priority (blockFlags (headersFlags flags final priority) whole)
  | frame => frame

/-! ### Single wire frames -/

theorem expectLength_self (kind : Kind) {size : Nat} {payload : Bytes} (exact_ : payload.length = size) :
    expectLength kind size payload = .ok () := by
  simp [expectLength, exact_]

theorem params_bytes (list : List Setting) : params (list.flatMap Setting.bytes) = list := by
  induction list with
  | nil => rfl
  | cons s rest ih =>
    have id : Bytes.toNat (Bytes.ofNat 2 s.id.toNat) = s.id.toNat :=
      Bytes.toNat_ofNat 2 _ s.id.toNat_lt
    have value : Bytes.toNat (Bytes.ofNat 4 s.value.toNat) = s.value.toNat :=
      Bytes.toNat_ofNat 4 _ s.value.toNat_lt
    simp only [Bytes.ofNat, List.nil_append, List.cons_append] at id value
    simp only [List.flatMap_cons, Setting.bytes, Bytes.ofNat, List.nil_append, List.cons_append, params, ih,
      id, value, UInt16.ofNat_toNat, UInt32.ofNat_toNat]

theorem length_params (list : List Setting) : (list.flatMap Setting.bytes).length = 6 * list.length := by
  induction list with
  | nil => rfl
  | cons s rest ih =>
    simp only [List.flatMap_cons, List.length_append, Setting.bytes, Bytes.length_ofNat, ih,
      List.length_cons]
    omega

theorem toNat_word (n : UInt32) : UInt32.ofNat (Bytes.toNat (Bytes.ofNat 4 n.toNat)) = n := by
  rw [Bytes.toNat_ofNat 4 _ n.toNat_lt, UInt32.ofNat_toNat]

/-- A frame without headers is a single wire frame, which is read as that frame. -/
theorem wire_single (limit : Nat) {frame : Frame} (single : frame.hasBlock = false)
    (writable : frame.Writable) :
    ∃ kind flags stream payload, frame.wire limit = [wireFrame kind flags stream payload] ∧
      stream < 2 ^ 31 ∧
      read none { length := payload.length, kind := kind.code, flags, stream } payload =
        .ok (none, some (frame.asRead limit)) := by
  cases frame with
  | headers => cases single
  | pushPromise => cases single
  | data stream payload final =>
    refine ⟨_, _, _, _, rfl, writable, ?_⟩
    have bare : Flag.isSet Flag.padded (Flag.when Flag.endStream final) = false :=
      Flag.isSet_when_other (by decide) final
    have ends : Flag.isSet Flag.endStream (Flag.when Flag.endStream final) = final :=
      Flag.isSet_when (by decide) final
    have read := read_data stream none bare nofun payload.length payload
    rw [ends] at read
    exact read
  | reset stream code =>
    refine ⟨_, _, _, _, rfl, writable, ?_⟩
    rw [read_known]
    simp only [readKind, expectLength_self .reset (Bytes.length_ofNat 4 _), toNat_word]
    rfl
  | settings ack params =>
    cases ack with
    | true => exact ⟨_, _, _, _, rfl, by decide, rfl⟩
    | false =>
      refine ⟨_, _, _, _, rfl, by decide, ?_⟩
      -- Parameters are six bytes each, so the length passes the check on reading.
      have whole : (params.flatMap Setting.bytes).length % 6 = 0 := by
        rw [length_params]
        omega
      rw [read_known]
      simp only [readKind, whole, WireHeader.isAck, Flag.isSet_zero, params_bytes]
      rfl
  | ping ack payload =>
    refine ⟨_, _, _, _, rfl, by decide, ?_⟩
    have answers : Flag.isSet Flag.ack (Flag.when Flag.ack ack) = ack := Flag.isSet_when (by decide) ack
    have same : (Vector.ofFn fun i => payload.toList.getD i.val 0) = payload := by
      ext i inside
      simp
    rw [read_known]
    simp only [readKind, expectLength_self .ping payload.length_toList, WireHeader.isAck, answers, same]
    rfl
  | goAway last code =>
    refine ⟨_, _, _, _, rfl, by decide, ?_⟩
    have number := toNat_low31 writable
    have word := toNat_word code
    simp only [Bytes.ofNat, List.nil_append, List.cons_append] at number word
    rw [read_known]
    simp only [readKind, Bytes.ofNat, List.nil_append, List.cons_append, number, word]
    rfl
  | windowUpdate stream increment =>
    refine ⟨_, _, _, _, rfl, writable.1, ?_⟩
    rw [read_known]
    simp only [readKind, expectLength_self .windowUpdate (Bytes.length_ofNat 4 _), toNat_low31 writable.2]
    rfl

/-! ### Header blocks -/

theorem read_fragment (b : OpenBlock) (fragment : Bytes) (last : Bool)
    (bounded : (b.block ++ fragment).length ≤ OpenBlock.limit) :
    read (some b) { length := fragment.length, kind := Kind.continuation.code,
                    flags := Flag.when Flag.endHeaders last, stream := b.stream } fragment =
      .ok (if last then (none, some { b with block := b.block ++ fragment }.frame)
        else (some { b with block := b.block ++ fragment }, none)) := by
  rw [read_continuation b _ _ bounded, Flag.isSet_when (by decide)]

/-- The bytes of a header block that its first wire frame has room for, after `lead`. -/
def room (lead : Bytes) (limit : Nat) : Nat := max limit (lead.length + 1) - lead.length

theorem blockFrames_eq (kind : Kind) (flags : UInt8) (stream : Nat) (lead block : Bytes) (limit : Nat) :
    blockFrames kind flags stream lead block limit =
      wireFrame kind (blockFlags flags (block.drop (room lead limit)).isEmpty) stream
        (lead ++ block.take (room lead limit)) ::
      continuations stream (Bytes.pieces (max limit (lead.length + 1)) (block.drop (room lead limit))) :=
  rfl

theorem map_length_continuations (stream : Nat) (fragments : List Bytes) :
    (continuations stream fragments).map List.length =
      fragments.map fun fragment => WireHeader.size + fragment.length := by
  induction fragments with
  | nil => rfl
  | cons fragment rest ih => rw [continuations, List.map_cons, List.map_cons, ih, continuation, length_wireFrame]

theorem length_continuations (stream : Nat) (fragments : List Bytes) :
    (continuations stream fragments).length = fragments.length := by
  simpa using congrArg List.length (map_length_continuations stream fragments)

theorem mem_continuations {stream : Nat} {fragments : List Bytes} {w : Bytes}
    (member : w ∈ continuations stream fragments) :
    ∃ fragment ∈ fragments, WireHeader.size + fragment.length = w.length := by
  rw [← List.mem_map, ← map_length_continuations stream fragments]
  exact List.mem_map_of_mem member

theorem mem_fragments (stream : Nat) {fragments : List Bytes} {fragment : Bytes}
    (member : fragment ∈ fragments) :
    ∃ w ∈ continuations stream fragments, w.length = WireHeader.size + fragment.length := by
  rw [← List.mem_map, map_length_continuations stream fragments]
  exact List.mem_map_of_mem (f := fun fragment => WireHeader.size + fragment.length) member

/-- CONTINUATION frames are written without other flags. -/
theorem fragmentFrames_mk (stream : Nat) (fragments : List Bytes) :
    fragmentFrames stream true (fragments.map (Fragment.mk 0)) = continuations stream fragments := by
  induction fragments with
  | nil => rfl
  | cons fragment rest ih =>
    rw [List.map_cons, fragmentFrames, continuations, ih, List.isEmpty_map, Bool.true_and, blockFlags, UInt8.zero_and,
      UInt8.zero_or]
    rfl

theorem Fragment.join_mk (flags : UInt8) (fragments : List Bytes) :
    join (fragments.map (Fragment.mk flags)) = fragments.flatten := by
  simp [join, List.flatMap_map]

section Blocks
variable {kind : Kind} {flags : UInt8} {stream : Nat} {lead block : Bytes} {limit : Nat}

/-- A header block needs further wire frames unless the first has room for it. -/
theorem length_blockFrames :
    (blockFrames kind flags stream lead block limit).length = 1 ↔ block.drop (room lead limit) = [] := by
  rw [blockFrames_eq, List.length_cons, length_continuations]
  cases rest : block.drop (room lead limit) with
  | nil => simp
  | cons b rest => simp [Bytes.pieces_cons]

/-- No wire frame of a header block has a payload over the limit, or over the least payload that
    holds `lead` and a byte of the block. -/
theorem length_of_mem_blockFrames {w : Bytes}
    (member : w ∈ blockFrames kind flags stream lead block limit) :
    w.length ≤ WireHeader.size + max limit (lead.length + 1) := by
  rw [blockFrames_eq] at member
  rcases List.mem_cons.mp member with rfl | later
  · rw [length_wireFrame, List.length_append, List.length_take]
    unfold room
    omega
  · obtain ⟨fragment, piece, same⟩ := mem_continuations later
    have := (Bytes.length_of_mem_pieces piece).2
    omega

/-- Each wire frame after the first brings a header block further. -/
theorem size_lt_of_mem_tail_blockFrames {w : Bytes}
    (member : w ∈ (blockFrames kind flags stream lead block limit).tail) :
    WireHeader.size < w.length := by
  rw [blockFrames_eq, List.tail_cons] at member
  obtain ⟨fragment, piece, same⟩ := mem_continuations member
  have := (Bytes.length_of_mem_pieces piece).1
  omega

end Blocks

/-- A HEADERS frame is written with the flags that it calls for, and no other of those that matter. -/
theorem isSet_headersFlags {stream : Nat} {block : Bytes} {final : Bool} {priority : Option Dependency}
    {flags : UInt8} (writable : (headers stream block final priority flags).Writable) :
    Flag.isSet Flag.padded (headersFlags flags final priority) = false ∧
      Flag.isSet Flag.endStream (headersFlags flags final priority) = final ∧
      Flag.isSet Flag.priority (headersFlags flags final priority) = priority.isSome := by
  obtain ⟨-, -, bare, ends, announced⟩ := writable
  simp only [headersFlags, Flag.isSet_or]
  refine ⟨?_, ?_, ?_⟩
  · rw [bare, Flag.isSet_when_other (by decide), Flag.isSet_when_other (by decide)]
    rfl
  · rw [Flag.isSet_when (by decide), Flag.isSet_when_other (by decide)]
    cases final <;> simp_all
  · rw [Flag.isSet_when (by decide), Flag.isSet_when_other (by decide)]
    cases priority <;> simp_all

theorem read_headers {stream : Nat} {block : Bytes} {final : Bool} {priority : Option Dependency}
    {flags : UInt8} (writable : (headers stream block final priority flags).Writable) (fragment : Bytes)
    (whole : Bool) (length : Nat) :
    read none { length, kind := Kind.headers.code, stream,
                flags := blockFlags (headersFlags flags final priority) whole }
        (priority.elim [] Dependency.bytes ++ fragment) =
      openBlock { stream, promised := none, final, priority, block := fragment,
                  flags := blockFlags (headersFlags flags final priority) whole } whole := by
  obtain ⟨bare, ends, announced⟩ := isSet_headersFlags writable
  rw [← isSet_blockFlags (by decide) (by decide) _ whole] at bare ends announced
  have read := Opener.read_pad (o := .headers priority) stream ⟨announced, writable.2.1⟩ none bare nofun length fragment
  rw [isSet_endHeaders_blockFlags, Opener.opened, ends] at read
  exact read

theorem read_pushPromise {promised : Nat} (narrow : promised < 2 ^ 31) (stream : Nat) (fragment : Bytes)
    (whole : Bool) (length : Nat) :
    read none { length, kind := Kind.pushPromise.code, flags := blockFlags 0 whole, stream }
        (Bytes.ofNat 4 (low31 promised) ++ fragment) =
      openBlock { stream, promised := some promised, final := false, priority := none,
                  flags := blockFlags 0 whole, block := fragment } whole := by
  have bare : Flag.isSet Flag.padded (blockFlags 0 whole) = false := by
    rw [isSet_blockFlags (by decide) (by decide), Flag.isSet_zero]
  have read := Opener.read_pad (o := .promise promised) stream narrow none bare nofun length fragment
  rw [isSet_endHeaders_blockFlags] at read
  exact read

/-! ### Blocks as they are written -/

namespace Spread
variable (o : Opener) (stream : Nat) (flags : UInt8) (block : Bytes) (limit : Nat)

/-- How a header block is written: without padding, and cut where the limit has it. -/
def written : Spread where
  opener := o
  stream := stream
  flags := flags
  padding := none
  first := block.take (room o.lead limit)
  others := (Bytes.pieces (max limit (o.lead.length + 1)) (block.drop (room o.lead limit))).map (Fragment.mk 0)

theorem isEmpty_others_written :
    (written o stream flags block limit).others.isEmpty = (block.drop (room o.lead limit)).isEmpty := by
  rw [written]
  cases block.drop (room o.lead limit) with
  | nil => rw [Bytes.pieces_nil]; rfl
  | cons byte rest => simp [Bytes.pieces_cons]

theorem wire_written :
    (written o stream flags block limit).wire true = blockFrames o.kind flags stream o.lead block limit := by
  rw [wire, Bool.true_and, isEmpty_others_written, blockFrames_eq, written, fragmentFrames_mk]
  rfl

theorem block_written : (written o stream flags block limit).block = block := by
  rw [Spread.block, written, Fragment.join_mk, Bytes.flatten_pieces, List.take_append_drop]

theorem frame_written : (written o stream flags block limit).frame =
    o.frame stream (blockFlags flags (block.drop (room o.lead limit)).isEmpty) block := by
  rw [Spread.frame, isEmpty_others_written, block_written]
  rfl

end Spread

/-- The wire frames of a header block are read as one frame. -/
theorem scan_blockFrames {accept limit : Nat} {o : Opener} {stream : Nat} {flags : UInt8} {block : Bytes}
    (narrow : stream < 2 ^ 31) (fits : o.Fits flags) (bare : Flag.isSet Flag.padded flags = false)
    (accepted : ∀ w ∈ blockFrames o.kind flags stream o.lead block limit,
      w.length ≤ WireHeader.size + Decoder.clampLimit accept)
    (bounded : 1 < (blockFrames o.kind flags stream o.lead block limit).length → block.length ≤ OpenBlock.limit)
    (rest : Bytes) (done : List Frame) :
    scan (Decoder.clampLimit accept) none
        ((blockFrames o.kind flags stream o.lead block limit).flatten ++ rest) done =
      scan (Decoder.clampLimit accept) none rest
        (o.frame stream (blockFlags flags (block.drop (room o.lead limit)).isEmpty) block :: done) := by
  have proper : (Spread.written o stream flags block limit).Proper :=
    { narrow, fits, announced := bare, short := nofun }
  rw [← Spread.wire_written] at accepted bounded ⊢
  rw [← Spread.frame_written]
  refine proper.scan (clampLimit_lt accept) (Spread.payloads_le accepted) (fun more => ?_) rest done
  rw [Spread.block_written]
  exact bounded (Spread.one_lt_length_wire more)

/-! ### Frames -/

/-- The wire frames of any frame are read as that frame. -/
theorem scan_wire {accept limit : Nat} {frame : Frame} (writable : frame.Writable)
    (accepted : ∀ w ∈ frame.wire limit, w.length ≤ WireHeader.size + Decoder.clampLimit accept)
    (bounded : 1 < (frame.wire limit).length → frame.block.length ≤ OpenBlock.limit) (rest : Bytes)
    (done : List Frame) :
    scan (Decoder.clampLimit accept) none ((frame.wire limit).flatten ++ rest) done =
      scan (Decoder.clampLimit accept) none rest (frame.asRead limit :: done) := by
  cases single : frame.hasBlock with
  | false =>
    obtain ⟨kind, flags, stream, payload, only, narrow, went⟩ := wire_single limit single writable
    rw [only, List.flatten_singleton]
    have allowed := accepted (wireFrame kind flags stream payload) (only ▸ List.mem_singleton_self _)
    rw [length_wireFrame, Nat.add_le_add_iff_left] at allowed
    exact scan_of_ok (cut_wireFrame allowed narrow rest) went
  | true =>
    cases frame with
    | headers stream block final priority flags =>
      have whole : (block.drop (room (Opener.headers priority).lead limit)).isEmpty =
          decide (((headers stream block final priority flags).wire limit).length = 1) := by
        rw [Bool.eq_iff_iff, List.isEmpty_iff, decide_eq_true_iff]
        exact (length_blockFrames ..).symm
      obtain ⟨bare, ends, announced⟩ := isSet_headersFlags writable
      have went := scan_blockFrames (o := .headers priority) writable.1 ⟨announced, writable.2.1⟩ bare accepted bounded
        rest done
      rw [Opener.frame, isSet_blockFlags (by decide) (by decide), ends, whole] at went
      exact went
    | pushPromise stream promised block =>
      exact scan_blockFrames (o := .promise promised) writable.1 writable.2 rfl accepted bounded rest done
    | _ => cases single

theorem scan_frames {accept limit : Nat} {frames : List Frame} (writable : ∀ f ∈ frames, f.Writable)
    (accepted : ∀ f ∈ frames, ∀ w ∈ f.wire limit, w.length ≤ WireHeader.size + Decoder.clampLimit accept)
    (bounded : ∀ f ∈ frames, 1 < (f.wire limit).length → f.block.length ≤ OpenBlock.limit)
    (done : List Frame) :
    scan (Decoder.clampLimit accept) none (frames.flatMap (encode limit)) done =
      { pending := none, buffer := [], failure := none,
        frames := done.reverse ++ frames.map (asRead limit) } := by
  induction frames generalizing done with
  | nil => simp [scan_of_short (show cut (Decoder.clampLimit accept) [] = .short from rfl)]
  | cons frame rest ih =>
    rw [List.flatMap_cons, encode, scan_wire (writable frame List.mem_cons_self)
      (accepted frame List.mem_cons_self) (bounded frame List.mem_cons_self)]
    rw [ih (fun f member => writable f (List.mem_cons_of_mem _ member))
      (fun f member => accepted f (List.mem_cons_of_mem _ member))
      (fun f member => bounded f (List.mem_cons_of_mem _ member))]
    simp

/-! ### The preface -/

theorem wire_eq_cons (limit : Nat) (frame : Frame) :
    ∃ kind flags stream payload later, frame.wire limit = wireFrame kind flags stream payload :: later := by
  cases frame with
  | settings ack params => cases ack <;> exact ⟨_, _, _, _, _, rfl⟩
  | headers => exact ⟨_, _, _, _, _, blockFrames_eq ..⟩
  | pushPromise => exact ⟨_, _, _, _, _, blockFrames_eq ..⟩
  | _ => exact ⟨_, _, _, _, _, rfl⟩

theorem feed_start {limit : Nat} {input : Bytes} (opened : skipPreface input = (.frames, input)) :
    (Decoder.start limit).feed input =
      let scan := scan (Decoder.clampLimit limit) none input []
      ({ opening := .frames, limit := Decoder.clampLimit limit, buffer := scan.buffer,
         pending := scan.pending, failure := scan.failure }, scan.frames) := by
  simp [Decoder.feed, Decoder.start, opened]

/-- A decoder that is fed encoded frames gives the frames back, each as it stood on the wire, and keeps
    nothing: provided that the frames say the same on the wire, that the decoder takes payloads of their
    size, and that no header block that needs several wire frames is too large. No wire frame with a part of
    a header block has a payload over the encoder's limit, or over one byte more than what must stand before
    the block; and each wire frame after the first brings the block further. -/
theorem feed_encode (limit accept : Nat) (frames : List Frame) (writable : ∀ f ∈ frames, f.Writable)
    (accepted : ∀ f ∈ frames, ∀ w ∈ f.wire limit, w.length ≤ WireHeader.size + Decoder.clampLimit accept)
    (bounded : ∀ f ∈ frames, 1 < (f.wire limit).length → f.block.length ≤ OpenBlock.limit) :
    (∃ d, (Decoder.start accept).feed (frames.flatMap (encode limit)) = (d, frames.map (asRead limit)) ∧
      d.failure = none ∧ d.buffer = [] ∧ d.pending = none ∧ d.opening ≠ .preface) ∧
    ∀ f : Frame, f.hasBlock →
      (∀ w ∈ f.wire limit, w.length ≤ WireHeader.size + max limit (f.lead.length + 1)) ∧
        ∀ w ∈ (f.wire limit).tail, WireHeader.size < w.length := by
  constructor
  · cases frames with
    | nil => exact ⟨_, Decoder.feed_start_nil accept, rfl, rfl, rfl, nofun⟩
    | cons frame rest =>
      have opened : skipPreface ((frame :: rest).flatMap (encode limit)) =
          (.frames, (frame :: rest).flatMap (encode limit)) := by
        obtain ⟨kind, flags, stream, payload, later, first⟩ := wire_eq_cons limit frame
        rw [List.flatMap_cons, encode, first, List.flatten_cons, List.append_assoc]
        exact skipPreface_wireFrame kind flags stream payload _
      refine ⟨{ opening := .frames, limit := Decoder.clampLimit accept }, ?_, rfl, rfl, rfl, nofun⟩
      rw [feed_start opened, scan_frames writable accepted bounded]
      rfl
  · intro f carries
    cases f with
    | headers => exact ⟨fun _ => length_of_mem_blockFrames, fun _ => size_lt_of_mem_tail_blockFrames⟩
    | pushPromise => exact ⟨fun _ => length_of_mem_blockFrames, fun _ => size_lt_of_mem_tail_blockFrames⟩
    | _ => cases carries

instance : (frame : Frame) → Decidable frame.Writable
  | data .. | reset .. | goAway .. => inferInstanceAs (Decidable (_ < _))
  | headers .. => inferInstanceAs (Decidable (_ ∧ _ ∧ _ ∧ _ ∧ _))
  | pushPromise .. | windowUpdate .. => inferInstanceAs (Decidable (_ ∧ _))
  | settings .. | ping .. => inferInstanceAs (Decidable True)

/-- Eight bytes of headers, written with a limit of three, take three wire frames beside a dependency. -/
theorem feed_encode_split :
    let split := headers 1 [1, 2, 3, 4, 5, 6, 7, 8] true (some { parent := 3, exclusive := true, weight := 9 }) 0
    let frames := [settings true [{ id := 1, value := 2 }], split, pushPromise 1 2 [], data 1 [] true]
    (split.wire 3).length = 3 ∧
      ∃ d, (Decoder.start 0).feed (frames.flatMap (encode 3)) = (d, frames.map (asRead 3)) := by
  intro split frames
  refine ⟨by decide +kernel, ?_⟩
  obtain ⟨⟨d, fed, -⟩, -⟩ := feed_encode 3 0 frames (by decide +kernel) (by decide +kernel) (by decide +kernel)
  exact ⟨d, fed⟩

end Multiplex.Frame
