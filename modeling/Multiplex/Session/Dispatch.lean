import Multiplex.Session.Handlers

/-! # What frames do

Each frame of the peer changes the session at once. A frame that breaks the protocol makes the session
announce its end and changes nothing else; one that breaks the flow control of a stream ends that
stream. Every header block of a HEADERS frame is decoded, whatever becomes of the frame, because the
header table has to see it. The task of a stream that a frame opens is handed to `launch`. -/

namespace Multiplex.Session

/-! ### Headers -/

/-- Takes headers on a stream that the session looks after: they must end the message. -/
def onTrailers (s : Session) (stream : Stream) (decoded : Except Hpack.Fault (List Header))
    (final : Bool) : Session :=
  if !final || !stream.isActive || stream.peerClosed then s.protocolError
  else
    match decoded with
    | .ok list =>
      (s.setStream (stream.acceptHeaders list final)).note (.accepted stream.id (.headers list final))
    | .error _ => s.protocolError

/-- Opens a stream for the peer, or turns it away if as many as allowed go on. -/
def openStream (launch : Nat → Session → Session) (s : Session) (id priority : Nat) (list : List Header)
    (final : Bool) : Session :=
  let s := { s with lastPeer := id }
  if s.config.maxStreams.toNat ≤ s.peerCount then
    s.queue (.frame (.reset id ErrorCode.refusedStream)) priority
  else launch id (s.addStream (s.newStream id 0 priority) list final)

/-- Takes a HEADERS frame whose block has been decoded. -/
def onDecoded (launch : Nat → Session → Session) (s : Session) (id : Nat)
    (decoded : Except Hpack.Fault (List Header)) (final : Bool) (priority : Option Dependency)
    (flags : UInt8) : Session :=
  match s.listed? id with
  | some stream => s.onTrailers stream decoded final
  | none =>
    -- After GOAWAY new streams are left alone, whatever their identifier and their block.
    if s.goAwaySent then s
    else if id % 2 = 0 ∨ id ≤ s.lastPeer ∨ flags &&& ~~~Flag.allowedOnHeaders ≠ 0 then s.protocolError
    else
      match decoded with
      | .error _ => s.protocolError
      | .ok list =>
        openStream launch s id (priority.elim Priority.lowest (Priority.ofWeight ·.weight)) list final

def onHeaders (launch : Nat → Session → Session) (s : Session) (id : Nat) (block : Bytes) (final : Bool)
    (priority : Option Dependency) (flags : UInt8) : Session :=
  let (receiveTable, decoded) := Header.decodeBlock s.receiveTable block
  let s := { s with receiveTable }
  match decoded with
  | .error .crash => { s with status := .crashed }
  | decoded => onDecoded launch s id decoded final priority flags

/-! ### Other frames -/

def onData (s : Session) (id : Nat) (bytes : Bytes) (final : Bool) : Session :=
  match s.active? id with
  | none => s.protocolError
  | some stream =>
    if stream.peerClosed then s.reset stream ErrorCode.streamClosed
    else
      match stream.acceptData bytes final with
      | .ok stream => (s.setStream stream).note (.accepted id (.data bytes final))
      | .error _ => s.reset stream ErrorCode.flowControlError

def onWindowUpdate (s : Session) (id increment : Nat) : Session :=
  if !s.version.hasFlowControl then s.protocolError
  -- There is no window for the whole connection, so credit for it is ignored, also an increment of 0.
  else if id = 0 then s
  else if increment = 0 then s.protocolError
  else
    match s.active? id with
    | none => s
    | some stream =>
      match stream.grant increment with
      | .ok (stream, frames) => (s.note (.granted id increment)).update stream frames
      | .error _ => s.reset stream ErrorCode.flowControlError

/-- Takes the settings of the peer, all of them or none. -/
def onSettings (s : Session) (params : List Setting) : Session :=
  match s.peer.applyAll s.version params with
  | .ok peer => (s.adopt peer).queue (.frame (.settings true [])) 0
  | .error _ => s.protocolError

def onReset (s : Session) (id : Nat) : Session :=
  match s.listed? id with
  | some stream => s.setStream stream.abort
  | none => s

def dispatch (launch : Nat → Session → Session) (s : Session) (frame : Frame) : Session :=
  let s := s.note (.dispatched frame)
  match frame with
  | .ping false payload => s.queue (.frame (.ping true payload)) 0
  | .ping true _ | .settings true _ => s
  | .settings false params => s.onSettings params
  | .headers id block final priority flags => onHeaders launch s id block final priority flags
  | .data id bytes final => s.onData id bytes final
  | .windowUpdate id increment => s.onWindowUpdate id increment
  | .reset id _ => s.onReset id
  | .goAway .. => { s with peerLeaving := true }
  | .pushPromise .. => s.protocolError

/-- Takes up to `count` of the frames that have been read, unless one crashes the session. -/
def dispatchUpTo : (count : Nat) → Session → Session
  | 0, s => s
  | count + 1, s =>
    match s.reader.next? with
    | none => s
    | some (frame, reader) =>
      let s := dispatch spawn { s with reader } frame
      if s.isRunning then dispatchUpTo count s else s

/-- Takes the frames that have been read. -/
def dispatchReady (s : Session) : Session := dispatchUpTo s.reader.ready.length s

end Multiplex.Session
