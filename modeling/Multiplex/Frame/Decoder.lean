import Multiplex.Frame.Wire
import Multiplex.Text.Hex

/-! # Reading frames from a byte stream

A decoder is fed the input in pieces of any size. It skips the connection preface if the input opens
with one, holds back an incomplete wire frame until the rest arrives, takes padding off, and joins the
fragments of a header block into one frame. An error is final: the byte stream cannot be entered
again after it, so the decoder drops what it held and reads nothing more. -/

namespace Multiplex

/-- Why a byte stream cannot be read as frames. -/
inductive DecodeError where
  | frameTooLarge (length limit : Nat)
  | frameTooShort (kind : Frame.Kind)
  | wrongLength (kind : Frame.Kind) (length : Nat)
  | badPadding (kind : Frame.Kind)
  | blockTooLarge (size limit : Nat)
  | strayContinuation (stream pending : Nat)
  | unexpectedContinuation (stream : Nat)
  | continuationExpected (pending : Nat) (kind : UInt8)
  deriving DecidableEq

namespace DecodeError

def message : DecodeError → String
  | frameTooLarge length limit => s!"frame of {length} bytes exceeds the maximum frame size {limit}"
  | frameTooShort kind => s!"{kind.name} frame too short"
  | wrongLength kind length => s!"{kind.name} frame has invalid length {length}"
  | badPadding kind => s!"invalid padding length in {kind.name} frame"
  | blockTooLarge size limit => s!"header block too large ({size} bytes, max {limit})"
  | strayContinuation stream pending =>
    s!"CONTINUATION for stream {stream} but pending headers on stream {pending}"
  | unexpectedContinuation stream => s!"unexpected CONTINUATION frame for stream {stream}"
  | continuationExpected pending kind =>
    s!"expected CONTINUATION for stream {pending}, got frame type {Text.hex kind.toNat}"

end DecodeError

/-- A header block whose end has not arrived. -/
structure OpenBlock where
  stream : Nat
  /-- The promised stream, if a PUSH_PROMISE frame opened the block. -/
  promised : Option Nat
  final : Bool
  priority : Option Dependency
  flags : UInt8
  /-- The fragments so far, joined. -/
  block : Bytes
  deriving DecidableEq

namespace OpenBlock

/-- The largest header block that is put together from fragments. -/
def limit : Nat := 262144

def frame (b : OpenBlock) : Frame :=
  match b.promised with
  | some promised => .pushPromise b.stream promised b.block
  | none => .headers b.stream b.block b.final b.priority b.flags

end OpenBlock

namespace Frame

open WireHeader (low31)

/-! ### One wire frame -/

/-- What one wire frame does: it may leave a header block open, and it may complete a frame. -/
abbrev Reading := Except DecodeError (Option OpenBlock × Option Frame)

def unpad (kind : Kind) (flags : UInt8) (payload : Bytes) : Except DecodeError Bytes :=
  if Flag.isSet Flag.padded flags then
    match payload with
    | [] => .error (.frameTooShort kind)
    | pad :: body =>
      if pad.toNat ≤ body.length then .ok (body.take (body.length - pad.toNat))
      else .error (.badPadding kind)
  else .ok payload

/-- Refuses a payload that is not `size` bytes long. -/
def expectLength (kind : Kind) (size : Nat) (payload : Bytes) : Except DecodeError Unit :=
  if payload.length < size then .error (.frameTooShort kind)
  else if payload.length = size then .ok ()
  else .error (.wrongLength kind payload.length)

/-- A header block begins: it is complete, or it waits for its next fragment. -/
def openBlock (b : OpenBlock) (endHeaders : Bool) : Reading :=
  if endHeaders then .ok (none, some b.frame)
  else if b.block.length ≤ OpenBlock.limit then .ok (some b, none)
  else .error (.blockTooLarge b.block.length OpenBlock.limit)

def continueBlock (b : OpenBlock) (h : WireHeader) (payload : Bytes) : Reading :=
  let block := b.block ++ payload
  if b.stream ≠ h.stream then .error (.strayContinuation h.stream b.stream)
  else if block.length ≤ OpenBlock.limit then
    if h.endsHeaders then .ok (none, some { b with block }.frame) else .ok (some { b with block }, none)
  else .error (.blockTooLarge block.length OpenBlock.limit)

/-- The dependency at the front of a HEADERS payload, and the header block after it. -/
def splitDependency (flags : UInt8) (payload : Bytes) :
    Except DecodeError (Option Dependency × Bytes) :=
  if Flag.isSet Flag.priority flags then
    match payload with
    | p₀ :: p₁ :: p₂ :: p₃ :: weight :: block =>
      let parent := Bytes.toNat [p₀, p₁, p₂, p₃]
      .ok (some { parent := low31 parent, exclusive := 0x80000000 ≤ parent, weight }, block)
    | _ => .error (.frameTooShort .headers)
  else .ok (none, payload)

/-- The parameters of a SETTINGS payload whose length is a multiple of six. -/
def params : Bytes → List Setting
  | i₀ :: i₁ :: v₀ :: v₁ :: v₂ :: v₃ :: rest =>
    { id := UInt16.ofNat (Bytes.toNat [i₀, i₁]),
      value := UInt32.ofNat (Bytes.toNat [v₀, v₁, v₂, v₃]) } :: params rest
  | _ => []

/-- Reads a wire frame of a known kind while no header block is open. -/
def readKind (kind : Kind) (h : WireHeader) (payload : Bytes) : Reading :=
  match kind with
  | .data => do
    let body ← unpad .data h.flags payload
    return (none, some (.data h.stream body h.endsStream))
  | .headers => do
    let body ← unpad .headers h.flags payload
    let (priority, block) ← splitDependency h.flags body
    openBlock { stream := h.stream, promised := none, final := h.endsStream, priority,
                flags := h.flags, block } h.endsHeaders
  | .pushPromise => do
    match ← unpad .pushPromise h.flags payload with
    | p₀ :: p₁ :: p₂ :: p₃ :: block =>
      openBlock { stream := h.stream, promised := some (low31 (Bytes.toNat [p₀, p₁, p₂, p₃])),
                  final := false, priority := none, flags := h.flags, block } h.endsHeaders
    | _ => .error (.frameTooShort .pushPromise)
  | .continuation => .error (.unexpectedContinuation h.stream)
  | .reset => do
    expectLength .reset 4 payload
    return (none, some (.reset h.stream (UInt32.ofNat (Bytes.toNat payload))))
  | .settings =>
    if payload.length % 6 ≠ 0 ∨ (h.isAck ∧ payload ≠ []) then
      .error (.wrongLength .settings payload.length)
    else .ok (none, some (.settings h.isAck (params payload)))
  | .goAway =>
    match payload with
    | l₀ :: l₁ :: l₂ :: l₃ :: c₀ :: c₁ :: c₂ :: c₃ :: _ =>
      .ok (none, some (.goAway (low31 (Bytes.toNat [l₀, l₁, l₂, l₃]))
        (UInt32.ofNat (Bytes.toNat [c₀, c₁, c₂, c₃]))))
    | _ => .error (.frameTooShort .goAway)
  | .windowUpdate => do
    expectLength .windowUpdate 4 payload
    return (none, some (.windowUpdate h.stream (low31 (Bytes.toNat payload))))
  | .ping => do
    expectLength .ping 8 payload
    return (none, some (.ping h.isAck (Vector.ofFn fun i => payload.getD i.val 0)))
  | .priority => .ok (none, none)

/-- Reads one wire frame. While a header block is open only its continuation may come; otherwise a
    frame of an unknown kind is passed over. -/
def read (pending : Option OpenBlock) (h : WireHeader) (payload : Bytes) : Reading :=
  match pending, Kind.ofCode? h.kind with
  | some b, some .continuation => continueBlock b h payload
  | some b, _ => .error (.continuationExpected b.stream h.kind)
  | none, some kind => readKind kind h payload
  | none, none => .ok (none, none)

/-! ### A buffer of wire frames -/

/-- The start of a buffer. -/
inductive Cut where
  /-- The first wire frame is not there in full. -/
  | short
  | oversized (length : Nat)
  | whole (h : WireHeader) (payload rest : Bytes)

/-- Cuts the first wire frame off `buffer`. One that exceeds the limit is refused before its payload
    has arrived. -/
def cut (limit : Nat) (buffer : Bytes) : Cut :=
  match WireHeader.parse? buffer with
  | none => .short
  | some h =>
    if limit < h.length then .oversized h.length
    else
      let body := buffer.drop WireHeader.size
      let payload := body.take h.length
      if payload.length < h.length then .short else .whole h payload (body.drop h.length)

theorem length_lt_of_cut {limit : Nat} {buffer payload rest : Bytes} {h : WireHeader}
    (found : cut limit buffer = .whole h payload rest) : rest.length < buffer.length := by
  unfold cut at found
  split at found
  · cases found
  · next h' parsed =>
    have size := WireHeader.size_le_of_parse? parsed
    split at found
    · cases found
    · simp only at found
      split at found
      · cases found
      · cases found
        simp only [List.length_drop, WireHeader.size] at size ⊢
        omega

/-- What is left of a buffer once all its complete wire frames are read. -/
structure Scan where
  pending : Option OpenBlock
  buffer : Bytes
  failure : Option DecodeError
  frames : List Frame

/-- Reads the complete wire frames of `buffer`, after `done`, which holds the frames read before, the
    latest first. -/
def scan (limit : Nat) (pending : Option OpenBlock) (buffer : Bytes) (done : List Frame) : Scan :=
  match _found : cut limit buffer with
  | .short => { pending, buffer, failure := none, frames := done.reverse }
  | .oversized length =>
    { pending := none, buffer := [], failure := some (.frameTooLarge length limit),
      frames := done.reverse }
  | .whole h payload rest =>
    match read pending h payload with
    | .error failure =>
      { pending := none, buffer := [], failure := some failure, frames := done.reverse }
    | .ok (pending, frame) => scan limit pending rest (frame.toList ++ done)
termination_by buffer.length
decreasing_by exact length_lt_of_cut (by assumption)

/-! ### Decoders -/

/-- Whether the input opened with the connection preface. -/
inductive Opening where
  /-- Too little has arrived to tell. -/
  | undecided
  | preface
  | frames
  deriving DecidableEq

/-- The connection preface. -/
def preface : Bytes := "PRI * HTTP/2.0\r\n\r\nSM\r\n\r\n".toUTF8.toList

/-- Looks for the preface at the front of the input, and takes it off. -/
def skipPreface (buffer : Bytes) : Opening × Bytes :=
  if preface.isPrefixOf buffer then (.preface, buffer.drop preface.length)
  else if buffer.isPrefixOf preface then (.undecided, buffer)
  else (.frames, buffer)

/-- A decoder between two pieces of input. -/
structure Decoder where
  opening : Opening := .undecided
  /-- The largest payload that is read. -/
  limit : Nat
  buffer : Bytes := []
  pending : Option OpenBlock := none
  /-- The error that ended the reading. -/
  failure : Option DecodeError := none

namespace Decoder

/-- The least limit that a decoder takes, and the limit where none is agreed. -/
def leastLimit : Nat := 16384

/-- The greatest limit, the longest payload that a header can announce. -/
def greatestLimit : Nat := 16777215

/-- A limit brought into the legal range. -/
def clampLimit (limit : Nat) : Nat := min (max limit leastLimit) greatestLimit

def start (limit : Nat) : Decoder := { limit := clampLimit limit }

/-- Changes the limit for the wire frames that are read from now on. -/
def setLimit (d : Decoder) (limit : Nat) : Decoder := { d with limit := clampLimit limit }

/-- Reads the next piece of input, and gives the frames that it completes. -/
def feed (d : Decoder) (bytes : Bytes) : Decoder × List Frame :=
  if d.failure.isSome then (d, [])
  else
    let input := d.buffer ++ bytes
    let (opening, buffer) := if d.opening = .undecided then skipPreface input else (d.opening, input)
    if opening = .undecided then ({ d with buffer }, [])
    else
      let scan := scan d.limit d.pending buffer []
      ({ d with opening, buffer := scan.buffer, pending := scan.pending, failure := scan.failure },
        scan.frames)

end Decoder

end Frame

end Multiplex
