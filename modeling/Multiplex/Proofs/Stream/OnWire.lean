import Multiplex.Proofs.Frame.RoundTrip
import Multiplex.Proofs.Frame.Streams
import Multiplex.Proofs.Stream.Line

/-! # Frames as they are seen on the wire

A receiver tells wire frames apart by their headers. Each frame that goes out is seen as one frame of its
own kind, which says whether the reply ends with it, and behind it as many CONTINUATION frames as its header
block needs (`seen_wire`). -/

namespace Multiplex

namespace WireHeader

/-- Whether a wire frame is a part of a reply. -/
def isReply (h : WireHeader) : Bool := h.kind == Frame.Kind.data.code || h.kind == Frame.Kind.headers.code

/-- Whether a reply ends with a wire frame. On frames of other kinds the flag says something else. -/
def endsReply (h : WireHeader) : Bool := h.isReply && h.endsStream

end WireHeader

/-- The kind of the wire frame that a frame begins with. -/
def Outgoing.kind : Outgoing → Frame.Kind
  | .frame (.data ..) => .data
  | .frame (.headers ..) | .headers .. => .headers
  | .frame (.pushPromise ..) | .pushPromise .. => .pushPromise
  | .frame (.reset ..) => .reset
  | .frame (.settings ..) => .settings
  | .frame (.ping ..) => .ping
  | .frame (.goAway ..) => .goAway
  | .frame (.windowUpdate ..) => .windowUpdate

namespace Frame

/-- A wire frame as it is seen: its header and its payload. -/
def seen? (wire : Bytes) : Option (WireHeader × Bytes) :=
  (WireHeader.parse? wire).map (·, wire.drop WireHeader.size)

/-- The kind, the flags and the stream of a wire frame are seen, however long it is. -/
theorem seen?_wireFrame (kind : Kind) (flags : UInt8) {stream : Nat} (small : stream < 2 ^ 31) (payload : Bytes) :
    ∃ length, seen? (wireFrame kind flags stream payload) =
      some ({ length, kind := kind.code, flags, stream }, payload) := by
  have number : Bytes.toNat (Bytes.ofNat 4 stream) = stream := Bytes.toNat_ofNat 4 _ (by omega)
  have body : (wireFrame kind flags stream payload).drop WireHeader.size = payload :=
    List.drop_left' (WireHeader.length_bytes _)
  refine ⟨Bytes.toNat (Bytes.ofNat 3 payload.length), ?_⟩
  rw [seen?, body]
  simp only [Bytes.ofNat, List.nil_append, List.cons_append] at number
  simp only [wireFrame, WireHeader.bytes, Bytes.ofNat, List.nil_append, List.cons_append, WireHeader.parse?,
    WireHeader.low31_of_lt small, number, Option.map_some]

theorem seen_continuations {stream : Nat} (small : stream < 2 ^ 31) (fragments : List Bytes) :
    ∀ c ∈ (continuations stream fragments).filterMap seen?,
      c.1.kind = Kind.continuation.code ∧ c.1.stream = stream := by
  induction fragments with
  | nil => nofun
  | cons fragment rest ih =>
    obtain ⟨length, seen⟩ := seen?_wireFrame .continuation (Flag.when Flag.endHeaders rest.isEmpty) small fragment
    rw [continuations, continuation, List.filterMap_cons_some seen]
    exact List.forall_mem_cons.mpr ⟨⟨rfl, rfl⟩, ih⟩

/-- A header block is seen as a frame of its kind and CONTINUATION frames. -/
theorem seen_blockFrames (kind : Kind) (flags : UInt8) {stream : Nat} (small : stream < 2 ^ 31) (lead block : Bytes)
    (limit : Nat) :
    ∃ length whole payload rest, (blockFrames kind flags stream lead block limit).filterMap seen? =
        ({ length, kind := kind.code, flags := blockFlags flags whole, stream }, payload) :: rest ∧
      ∀ c ∈ rest, c.1.kind = Kind.continuation.code ∧ c.1.stream = stream := by
  obtain ⟨length, seen⟩ := seen?_wireFrame kind (blockFlags flags (block.drop (room lead limit)).isEmpty) small
    (lead ++ block.take (room lead limit))
  rw [blockFrames_eq, List.filterMap_cons_some seen]
  exact ⟨length, _, _, _, rfl, seen_continuations small _⟩

end Frame

namespace Outgoing

def hasBlock : Outgoing → Bool
  | .frame f => f.hasBlock
  | .headers .. | .pushPromise .. => true

/-- How a frame is seen on the wire: as a wire frame of its kind, and CONTINUATION frames if it brings
    headers. -/
structure Seen (f : Outgoing) (first : WireHeader × Bytes) (rest : List (WireHeader × Bytes)) : Prop where
  kind : first.1.kind = f.kind.code
  stream : first.1.stream = f.stream
  final : first.1.endsReply = f.final
  payload : f.isData → first.2 = f.payload
  later : ∀ c ∈ rest, c.1.kind = Frame.Kind.continuation.code ∧ c.1.stream = f.stream
  single : f.hasBlock = false → rest = []

theorem seen_wire (limit : Nat) (table : Hpack.Table) {f : Outgoing} (plain : f.isPlain)
    (small : f.stream < Frame.idBound) :
    ∃ first rest, (f.wire limit table).2.filterMap Frame.seen? = first :: rest ∧ f.Seen first rest := by
  -- All frames but those with a header block are one wire frame.
  have single {kind : Frame.Kind} {flags : UInt8} {payload : Bytes} {f : Outgoing} (small : f.stream < Frame.idBound)
      (wire : (f.wire limit table).2 = [Frame.wireFrame kind flags f.stream payload])
      (seen : ∀ length, f.Seen ({ length, kind := kind.code, flags, stream := f.stream }, payload) []) :
      ∃ first rest, (f.wire limit table).2.filterMap Frame.seen? = first :: rest ∧ f.Seen first rest := by
    obtain ⟨length, read⟩ := Frame.seen?_wireFrame kind flags small payload
    rw [wire, List.filterMap_cons_some read]
    exact ⟨_, [], rfl, seen length⟩
  cases f with
  | frame frame =>
    cases frame with
    | data stream payload final =>
      refine single small rfl fun length => ⟨rfl, rfl, ?_, fun _ => rfl, nofun, fun _ => rfl⟩
      exact Flag.isSet_when (by decide) final
    | settings ack params =>
      cases ack <;> exact single small rfl fun length => ⟨rfl, rfl, rfl, nofun, nofun, fun _ => rfl⟩
    | ping ack payload =>
      cases ack <;> exact single small rfl fun length => ⟨rfl, rfl, rfl, nofun, nofun, fun _ => rfl⟩
    | headers | pushPromise => cases plain
    | _ => exact single small rfl fun length => ⟨rfl, rfl, rfl, nofun, nofun, fun _ => rfl⟩
  | headers stream list final priority =>
    let block := (Header.encodeBlock table list).2
    let flags := Frame.headersFlags 0 final priority
    obtain ⟨length, whole, payload, rest, seen, later⟩ :=
      Frame.seen_blockFrames .headers flags small (priority.elim [] Dependency.bytes) block limit
    refine ⟨_, rest, seen, ⟨rfl, rfl, ?_, by simp [isData], later, by simp [hasBlock]⟩⟩
    have ends : Flag.isSet Flag.endStream (Frame.blockFlags flags whole) = final := by
      rw [Frame.isSet_blockFlags (by decide) (by decide)]
      simp only [flags, Frame.headersFlags, Flag.isSet_or, Flag.isSet_zero]
      rw [Flag.isSet_when (by decide), Flag.isSet_when_other (by decide), Bool.false_or, Bool.or_false]
    exact ends
  | pushPromise stream promised list =>
    let block := (Header.encodeBlock table list).2
    obtain ⟨length, whole, payload, rest, seen, later⟩ :=
      Frame.seen_blockFrames .pushPromise 0 small (Bytes.ofNat 4 (WireHeader.low31 promised)) block limit
    exact ⟨_, rest, seen, ⟨rfl, rfl, rfl, by simp [isData], later, by simp [hasBlock]⟩⟩

end Outgoing

end Multiplex
