import Multiplex.Frame.Basic

/-! # Frames on the wire

A wire frame is a header of nine bytes and a payload. `Frame.wire` writes a frame as one wire frame,
or as several where a header block does not fit one: the block then goes on in CONTINUATION frames,
and the last of them ends it. Numbers wider than their field keep their low bits. -/

namespace Multiplex

/-- The fixed part of a wire frame. -/
structure WireHeader where
  /-- The length of the payload, 24 bits. -/
  length : Nat
  kind : UInt8
  flags : UInt8
  /-- The stream, 31 bits; the high bit is reserved. -/
  stream : Nat
  deriving DecidableEq

namespace WireHeader

def size : Nat := 9

/-- The 31-bit number in the low bits of `n`. -/
def low31 (n : Nat) : Nat := n % 0x80000000

/-- The header at the front of `bytes`, if it is there in full. -/
def parse? : Bytes → Option WireHeader
  | l₀ :: l₁ :: l₂ :: kind :: flags :: s₀ :: s₁ :: s₂ :: s₃ :: _ =>
    some { length := Bytes.toNat [l₀, l₁, l₂], kind, flags,
           stream := low31 (Bytes.toNat [s₀, s₁, s₂, s₃]) }
  | _ => none

def bytes (h : WireHeader) : Bytes :=
  Bytes.ofNat 3 h.length ++ [h.kind, h.flags] ++ Bytes.ofNat 4 (low31 h.stream)

def total (h : WireHeader) : Nat := size + h.length

/-- Whether the sender's side of the stream ends with the frame. -/
def endsStream (h : WireHeader) : Bool := Flag.isSet Flag.endStream h.flags

/-- Whether the header block ends with the frame. -/
def endsHeaders (h : WireHeader) : Bool := Flag.isSet Flag.endHeaders h.flags

/-- Whether the frame answers one of the receiver's. -/
def isAck (h : WireHeader) : Bool := Flag.isSet Flag.ack h.flags

@[simp] theorem length_bytes (h : WireHeader) : h.bytes.length = size := by
  simp [bytes, size]

theorem size_le_of_parse? {buffer : Bytes} {h : WireHeader} (found : parse? buffer = some h) :
    size ≤ buffer.length := by
  unfold parse? at found
  split at found
  · simp [size]
  · cases found

end WireHeader

namespace Frame

/-! ### Writing -/

/-- One wire frame around `payload`. -/
def wireFrame (kind : Kind) (flags : UInt8) (stream : Nat) (payload : Bytes) : Bytes :=
  WireHeader.bytes { length := payload.length, kind := kind.code, flags, stream } ++ payload

/-- The CONTINUATION frame that carries a further fragment of a header block. -/
def continuation (stream : Nat) (fragment : Bytes) (endHeaders : Bool) : Bytes :=
  wireFrame .continuation (Flag.when Flag.endHeaders endHeaders) stream fragment

/-- The CONTINUATION frames for `fragments`, of which the last ends the block. -/
def continuations (stream : Nat) : List Bytes → List Bytes
  | [] => []
  | fragment :: rest => continuation stream fragment rest.isEmpty :: continuations stream rest

/-- The wire frames of a header block. The first holds `lead` and as much of the block as its room of
    `limit` bytes allows, at least one byte; the others hold `limit` bytes each. -/
def blockFrames (kind : Kind) (flags : UInt8) (stream : Nat) (lead block : Bytes) (limit : Nat) :
    List Bytes :=
  let limit := max limit (lead.length + 1)
  let room := limit - lead.length
  let rest := block.drop room
  let flags := (flags &&& ~~~Flag.endHeaders) ||| Flag.when Flag.endHeaders rest.isEmpty
  wireFrame kind flags stream (lead ++ block.take room) ::
    continuations stream (Bytes.pieces limit rest)

end Frame

namespace Dependency

def bytes (d : Dependency) : Bytes :=
  Bytes.ofNat 4 (WireHeader.low31 d.parent + if d.exclusive then 0x80000000 else 0) ++ [d.weight]

end Dependency

namespace Setting

def bytes (s : Setting) : Bytes :=
  Bytes.ofNat 2 s.id.toNat ++ Bytes.ofNat 4 s.value.toNat

end Setting

namespace Frame

open WireHeader (low31)

/-- The wire frames of a frame, in order, when no payload with a header block may exceed `limit`. -/
def wire (limit : Nat) : Frame → List Bytes
  | data stream payload final => [wireFrame .data (Flag.when Flag.endStream final) stream payload]
  | headers stream block final priority flags =>
    let flags := flags ||| Flag.when Flag.endStream final ||| Flag.when Flag.priority priority.isSome
    blockFrames .headers flags stream (priority.elim [] Dependency.bytes) block limit
  | pushPromise stream promised block =>
    blockFrames .pushPromise 0 stream (Bytes.ofNat 4 (low31 promised)) block limit
  | reset stream code => [wireFrame .reset 0 stream (Bytes.ofNat 4 code.toNat)]
  | settings true _ => [wireFrame .settings Flag.ack 0 []]
  | settings false params => [wireFrame .settings 0 0 (params.flatMap Setting.bytes)]
  | ping ack payload => [wireFrame .ping (Flag.when Flag.ack ack) 0 payload.toList]
  | goAway last code =>
    [wireFrame .goAway 0 0 (Bytes.ofNat 4 (low31 last) ++ Bytes.ofNat 4 code.toNat)]
  | windowUpdate stream increment =>
    [wireFrame .windowUpdate 0 stream (Bytes.ofNat 4 (low31 increment))]

def encode (limit : Nat) (frame : Frame) : Bytes := (frame.wire limit).flatten

end Frame

end Multiplex
