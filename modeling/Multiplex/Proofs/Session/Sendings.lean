import Multiplex.Proofs.Session.Written

/-! # Reading what was sent

A decoder that reads what a session writes gives each frame back as soon as its last wire frame has arrived, whatever
limit it was cut to (`feed_sendings`): the wire frames of one frame stand together (`contiguous_sendings`), and a part
of them only leaves a header block open (`Frame.scan_wire_part`). -/

namespace Multiplex

open Multiplex.Frame (Kind)

/-! ### Contiguous header blocks -/

/-- Whether a header block begins with a wire frame. -/
def WireHeader.startsBlock (h : WireHeader) : Bool := h.kind == Kind.headers.code || h.kind == Kind.pushPromise.code

/-- No wire frame comes between those of a header block, and CONTINUATION frames come nowhere else. `unfinished` is
    the stream of the header block that has not ended, if there is one. -/
def Contiguous : (unfinished : Option Nat) → List WireHeader → Prop
  | _, [] => True
  | none, h :: rest =>
    h.kind ≠ Kind.continuation.code ∧
      Contiguous (if h.startsBlock && !h.endsHeaders then some h.stream else none) rest
  | some stream, h :: rest =>
    h.kind = Kind.continuation.code ∧ h.stream = stream ∧
      Contiguous (if h.endsHeaders then none else some stream) rest

namespace Contiguous

theorem take {unfinished : Option Nat} {front back : List WireHeader} (whole : Contiguous unfinished (front ++ back)) :
    Contiguous unfinished front := by
  induction front generalizing unfinished with
  | nil => cases unfinished <;> trivial
  | cons h rest ih =>
    cases unfinished with
    | none => exact ⟨whole.1, ih whole.2⟩
    | some stream => exact ⟨whole.1, whole.2.1, ih whole.2.2⟩

end Contiguous

/-- The headers of wire frames, as they are seen. -/
def heads (frames : List Bytes) : List WireHeader := (frames.filterMap Frame.seen?).map (·.1)

@[simp] theorem heads_append (front back : List Bytes) : heads (front ++ back) = heads front ++ heads back := by
  simp [heads]

theorem heads_cons {stream : Nat} (small : stream < 2 ^ 31) (kind : Kind) (flags : UInt8) (payload : Bytes)
    (others : List Bytes) :
    ∃ length, heads (Frame.wireFrame kind flags stream payload :: others) =
      { length, kind := kind.code, flags, stream } :: heads others := by
  obtain ⟨length, seen⟩ := Frame.seen?_wireFrame kind flags small payload
  refine ⟨length, ?_⟩
  rw [heads, List.filterMap_cons_some seen]
  rfl

theorem contiguous_continuations {stream : Nat} (small : stream < 2 ^ 31) {fragments : List Bytes}
    (nonempty : fragments ≠ []) {rest : List WireHeader} (later : Contiguous none rest) :
    Contiguous (some stream) (heads (Frame.continuations stream fragments) ++ rest) := by
  induction fragments with
  | nil => exact absurd rfl nonempty
  | cons fragment others ih =>
    obtain ⟨length, seen⟩ := heads_cons small .continuation (Flag.when Flag.endHeaders others.isEmpty) fragment
      (Frame.continuations stream others)
    have ends : Flag.isSet Flag.endHeaders (Flag.when Flag.endHeaders others.isEmpty) = others.isEmpty :=
      Flag.isSet_when (by decide) _
    rw [Frame.continuations, Frame.continuation, seen]
    refine ⟨rfl, rfl, ?_⟩
    rw [WireHeader.endsHeaders, ends]
    cases others with
    | nil => exact later
    | cons next more => exact ih (List.cons_ne_nil next more)

theorem contiguous_blockFrames {stream : Nat} (small : stream < 2 ^ 31) {kind : Kind}
    (starts : kind = .headers ∨ kind = .pushPromise) (flags : UInt8) (lead block : Bytes) (limit : Nat)
    {rest : List WireHeader} (later : Contiguous none rest) :
    Contiguous none (heads (Frame.blockFrames kind flags stream lead block limit) ++ rest) := by
  rw [Frame.blockFrames_eq]
  generalize block.drop (Frame.room lead limit) = left
  obtain ⟨length, seen⟩ := heads_cons small kind (Frame.blockFlags flags left.isEmpty)
    (lead ++ block.take (Frame.room lead limit)) (Frame.continuations stream (Bytes.pieces (max limit (lead.length + 1)) left))
  rw [seen]
  have ends : Flag.isSet Flag.endHeaders (Frame.blockFlags flags left.isEmpty) = left.isEmpty :=
    Frame.isSet_endHeaders_blockFlags ..
  refine ⟨show kind.code ≠ Kind.continuation.code by rcases starts with rfl | rfl <;> decide, ?_⟩
  have block : (WireHeader.startsBlock { length, kind := kind.code, flags := Frame.blockFlags flags left.isEmpty, stream }) = true := by
    rcases starts with rfl | rfl <;> rfl
  rw [block, WireHeader.endsHeaders, ends]
  cases left with
  | nil =>
    rw [Bytes.pieces_nil]
    exact later
  | cons b more =>
    refine contiguous_continuations small ?_ later
    simp [Bytes.pieces_cons]

theorem contiguous_single {stream : Nat} (small : stream < 2 ^ 31) {kind : Kind}
    (plain : kind ≠ .headers ∧ kind ≠ .pushPromise ∧ kind ≠ .continuation) (flags : UInt8) (payload : Bytes)
    {rest : List WireHeader} (later : Contiguous none rest) :
    Contiguous none (heads [Frame.wireFrame kind flags stream payload] ++ rest) := by
  obtain ⟨length, seen⟩ := heads_cons small kind flags payload []
  have other : kind.code ≠ Kind.continuation.code ∧
      (kind.code == Kind.headers.code || kind.code == Kind.pushPromise.code) = false := by
    revert plain
    cases kind <;> decide
  have single : (WireHeader.startsBlock { length, kind := kind.code, flags, stream }) = false := other.2
  rw [seen]
  refine ⟨other.1, ?_⟩
  rw [single]
  exact later

theorem contiguous_wire (limit : Nat) {frame : Frame} (writable : frame.Writable) {rest : List WireHeader}
    (later : Contiguous none rest) : Contiguous none (heads (frame.wire limit) ++ rest) := by
  cases frame with
  | headers stream block final priority flags =>
    exact contiguous_blockFrames writable.1 (.inl rfl) _ _ block limit later
  | pushPromise stream promised block => exact contiguous_blockFrames writable.1 (.inr rfl) _ _ block limit later
  | data | reset => exact contiguous_single writable (by decide) _ _ later
  | windowUpdate => exact contiguous_single writable.1 (by decide) _ _ later
  | settings ack params => cases ack <;> exact contiguous_single (by decide) (by decide) _ _ later
  | ping | goAway => exact contiguous_single (by decide) (by decide) _ _ later

/-! ### Parts of a frame -/

namespace Frame
variable {accept limit : Nat}

/-- CONTINUATION frames that are not the last leave the block open. -/
theorem scan_continuations_part (b : OpenBlock) {fragments part rest : List Bytes}
    (split : continuations b.stream fragments = part ++ rest) (unfinished : rest ≠ [])
    (allowed : ∀ f ∈ fragments, f.length ≤ Decoder.clampLimit accept) (narrow : b.stream < 2 ^ 31)
    (bounded : (b.block ++ fragments.flatten).length ≤ OpenBlock.limit) :
    ∃ b', ∀ done, scan (Decoder.clampLimit accept) (some b) part.flatten done =
      { pending := some b', buffer := [], failure := none, frames := done.reverse } := by
  induction part generalizing b fragments with
  | nil => exact ⟨b, fun done => scan_of_short rfl⟩
  | cons w part ih =>
    cases fragments with
    | nil => cases split
    | cons fragment others =>
      obtain ⟨rfl, later⟩ := List.cons.inj split
      have more : others.isEmpty = false := by
        cases others with
        | nil => exact absurd (List.append_eq_nil_iff.mp later.symm).2 unfinished
        | cons => rfl
      obtain ⟨first, further⟩ := List.forall_mem_cons.mp allowed
      rw [List.flatten_cons, ← List.append_assoc] at bounded
      have fits : (b.block ++ fragment).length ≤ OpenBlock.limit := by
        rw [List.length_append] at bounded
        omega
      obtain ⟨b', reads⟩ := ih { b with block := b.block ++ fragment } later further narrow bounded
      refine ⟨b', fun done => ?_⟩
      rw [List.flatten_cons, continuation, more]
      exact (scan_of_ok (cut_wireFrame first narrow _) (read_fragment b fragment false fits)).trans (reads done)

/-- A part of the wire frames of a header block leaves the block open. -/
theorem scan_blockFrames_part {kind : Kind} {flags : UInt8} {lead block : Bytes} {part rest : List Bytes}
    (b : OpenBlock) (narrow : b.stream < 2 ^ 31)
    (split : blockFrames kind flags b.stream lead block limit = part ++ rest) (unfinished : rest ≠ [])
    (accepted : ∀ w ∈ blockFrames kind flags b.stream lead block limit,
      w.length ≤ WireHeader.size + Decoder.clampLimit accept)
    (bounded : 1 < (blockFrames kind flags b.stream lead block limit).length → block.length ≤ OpenBlock.limit)
    (opens : ∀ fragment whole length,
      read none { length, kind := kind.code, flags := blockFlags flags whole, stream := b.stream }
          (lead ++ fragment) =
        openBlock { b with block := fragment, flags := blockFlags flags whole } whole) :
    ∃ pending, ∀ done, scan (Decoder.clampLimit accept) none part.flatten done =
      { pending, buffer := [], failure := none, frames := done.reverse } := by
  cases part with
  | nil => exact ⟨none, fun done => scan_of_short rfl⟩
  | cons w part =>
    rw [blockFrames_eq] at split accepted bounded
    obtain ⟨rfl, later⟩ := List.cons.inj split
    have first := accepted _ List.mem_cons_self
    rw [length_wireFrame, Nat.add_le_add_iff_left] at first
    have joined := Bytes.flatten_pieces (max limit (lead.length + 1)) (block.drop (room lead limit))
    -- A block that fits in its first frame leaves no part to be cut off.
    cases left : block.drop (room lead limit) with
    | nil =>
      rw [left, Bytes.pieces_nil] at later
      exact absurd (List.append_eq_nil_iff.mp later.symm).2 unfinished
    | cons byte more =>
      rw [← left]
      have large : block.length ≤ OpenBlock.limit := bounded (by simp [left, Bytes.pieces_cons, continuations])
      have front : (block.take (room lead limit)).length ≤ OpenBlock.limit := Nat.le_trans (List.length_take_le' ..) large
      have opened := opens (block.take (room lead limit)) false (lead ++ block.take (room lead limit)).length
      rw [openBlock, if_neg (by decide), if_pos front] at opened
      have allowed : ∀ f ∈ Bytes.pieces (max limit (lead.length + 1)) (block.drop (room lead limit)),
          f.length ≤ Decoder.clampLimit accept := fun f member => by
        obtain ⟨w, inside, same⟩ := mem_fragments b.stream member
        have := accepted w (List.mem_cons_of_mem _ inside)
        omega
      obtain ⟨b', reads⟩ := scan_continuations_part
        { b with block := block.take (room lead limit), flags := blockFlags flags false } later unfinished allowed narrow
        (by rw [joined, List.take_append_drop]; exact large)
      refine ⟨some b', fun done => ?_⟩
      have whole : (block.drop (room lead limit)).isEmpty = false := by rw [left]; rfl
      rw [whole, List.flatten_cons]
      exact (scan_of_ok (cut_wireFrame first narrow _) opened).trans (reads done)

/-- A part of the wire frames of any frame gives no frame, and fails nothing. -/
theorem scan_wire_part {frame : Frame} (writable : frame.Writable) {part rest : List Bytes}
    (split : frame.wire limit = part ++ rest) (unfinished : rest ≠ [])
    (accepted : ∀ w ∈ frame.wire limit, w.length ≤ WireHeader.size + Decoder.clampLimit accept)
    (bounded : 1 < (frame.wire limit).length → frame.block.length ≤ OpenBlock.limit) :
    ∃ pending, ∀ done, scan (Decoder.clampLimit accept) none part.flatten done =
      { pending, buffer := [], failure := none, frames := done.reverse } := by
  cases single : frame.hasBlock with
  | false =>
    obtain ⟨kind, flags, stream, payload, only, -⟩ := wire_single limit single writable
    rw [only, List.singleton_eq_append_iff] at split
    obtain ⟨nothing, -⟩ := split.resolve_right fun other => unfinished other.2
    exact ⟨none, fun done => nothing ▸ scan_of_short rfl⟩
  | true =>
    cases frame with
    | headers stream block final priority flags =>
      exact scan_blockFrames_part { stream, promised := none, final, priority, flags := 0, block := [] } writable.1
        split unfinished accepted bounded (read_headers writable)
    | pushPromise stream promised block =>
      exact scan_blockFrames_part
        { stream, promised := some promised, final := false, priority := none, flags := 0, block := [] } writable.1
        split unfinished accepted bounded (read_pushPromise writable.2 stream)
    | _ => cases single

end Frame

/-! ### What was sent -/

namespace Sending

/-- The frame as it is read. -/
def read (x : Sending) : Frame := x.frame.asRead x.limit

/-- A decoder with the limit `accept` can read what goes out. -/
structure Readable (accept : Nat) (x : Sending) : Prop where
  writable : x.frame.Writable
  accepted : ∀ w ∈ x.wire, w.length ≤ WireHeader.size + Frame.Decoder.clampLimit accept
  bounded : 1 < x.wire.length → x.frame.block.length ≤ OpenBlock.limit

end Sending

section Sendings
variable {accept : Nat} {sendings : List Sending}

theorem contiguous_sendings (writable : ∀ x ∈ sendings, x.frame.Writable) :
    Contiguous none (heads (sendings.flatMap (·.wire))) := by
  induction sendings with
  | nil => trivial
  | cons x rest ih =>
    obtain ⟨first, others⟩ := List.forall_mem_cons.mp writable
    rw [List.flatMap_cons, heads_append]
    exact contiguous_wire x.limit first (ih others)

theorem scan_sendings (readable : ∀ x ∈ sendings, x.Readable accept) (rest : Bytes) (done : List Frame) :
    Frame.scan (Frame.Decoder.clampLimit accept) none ((sendings.flatMap (·.wire)).flatten ++ rest) done =
      Frame.scan (Frame.Decoder.clampLimit accept) none rest ((sendings.map (·.read)).reverse ++ done) := by
  induction sendings generalizing done with
  | nil => rfl
  | cons x others ih =>
    obtain ⟨first, later⟩ := List.forall_mem_cons.mp readable
    rw [List.flatMap_cons, List.flatten_append, List.append_assoc]
    refine (Frame.scan_wire first.writable first.accepted first.bounded _ done).trans ((ih later _).trans ?_)
    rw [List.map_cons, List.reverse_cons, List.append_assoc]
    rfl

/-- A decoder that reads what was sent gives the frames back, and goes on with what is left. -/
theorem feed_sendings (nonempty : sendings ≠ []) (readable : ∀ x ∈ sendings, x.Readable accept) (rest : Bytes) :
    let scan := Frame.scan (Frame.Decoder.clampLimit accept) none rest (sendings.map (·.read)).reverse
    (Frame.Decoder.start accept).feed ((sendings.flatMap (·.wire)).flatten ++ rest) =
      ({ opening := .frames, limit := Frame.Decoder.clampLimit accept, buffer := scan.buffer, pending := scan.pending,
         failure := scan.failure }, scan.frames) := by
  intro scan
  have opened : Frame.skipPreface ((sendings.flatMap (·.wire)).flatten ++ rest) =
      (.frames, (sendings.flatMap (·.wire)).flatten ++ rest) := by
    cases sendings with
    | nil => exact absurd rfl nonempty
    | cons x others =>
      obtain ⟨kind, flags, stream, payload, later, first⟩ := Frame.wire_eq_cons x.limit x.frame
      rw [List.flatMap_cons, Sending.wire, first, List.cons_append, List.flatten_cons, List.append_assoc]
      exact Frame.skipPreface_wireFrame kind flags stream payload _
  rw [Frame.feed_start opened, scan_sendings readable, List.append_nil]

end Sendings

end Multiplex
