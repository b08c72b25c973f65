import Multiplex.Outbox
import Multiplex.Window.Receive
import Multiplex.Window.Send

/-! # Streams

A stream holds what the peer sent on it until a handler reads it, and what the handler sent on it until
the send window lets it go. Operations that put frames into the outbox give those frames beside the
stream after them. A stream is over once its last frame has been released or it was aborted. -/

namespace Multiplex

/-- A part of a message that a handler reads. -/
inductive Inbound where
  /-- The headers that opened the stream, or those that end the message. -/
  | headers (list : List Header) (final : Bool)
  | data (bytes : Bytes) (final : Bool)
  deriving DecidableEq

/-- Whether the peer's side ends with this part. -/
def Inbound.final : Inbound → Bool
  | .headers _ final | .data _ final => final

/-- Why a handler cannot send. -/
inductive StreamError where
  | aborted
  | alreadyFinished
  | headersNotSent
  | headersAlreadySent
  | pushRefused
  | notPushCapable
  deriving DecidableEq

def StreamError.message : StreamError → String
  | aborted => "stream aborted"
  | alreadyFinished => "stream already finished"
  | headersNotSent => "leading HEADERS frame not sent yet"
  | headersAlreadySent => "leading HEADERS frame already sent"
  | pushRefused => "server push refused"
  | notPushCapable => "pushed streams can't start further pushes"

structure Stream where
  id : Nat
  /-- The stream that a pushed stream goes with; 0 if the peer opened the stream. -/
  parent : Nat
  priority : Nat
  /-- What the peer sent and no handler has read. -/
  input : List Inbound := []
  /-- The peer's side is ended. -/
  peerClosed : Bool := false
  /-- There is none without flow control. -/
  receive : Option ReceiveWindow
  send : SendWindow
  /-- What the send window holds back. -/
  pending : List Chunk := []
  headersSent : Bool := false
  /-- The handler has sent its last frame. -/
  finalSent : Bool := false
  /-- That frame has gone into the outbox. -/
  finalReleased : Bool := false
  aborted : Bool := false
  deriving DecidableEq

namespace Stream

/-- Whether this end opened the stream. -/
def isPushed (s : Stream) : Bool := s.parent != 0

def isActive (s : Stream) : Bool := !(s.finalReleased || s.aborted)

/-- Whether a read has nothing to give and may still get something. -/
def mustWait (s : Stream) : Bool := !s.aborted && s.input.isEmpty && !s.peerClosed

/-! ### What the peer does -/

def acceptHeaders (s : Stream) (list : List Header) (final : Bool) : Stream :=
  if s.aborted then s
  else { s with peerClosed := s.peerClosed || final, input := s.input ++ [.headers list final] }

/-- Charges data to the receive window. -/
def charge (s : Stream) (length : Nat) : Except FlowControlError Stream :=
  match s.receive with
  | none => .ok s
  | some w =>
    match w.charge length with
    | .ok w => .ok { s with receive := some w }
    | .error e => .error e

def acceptData (s : Stream) (bytes : Bytes) (final : Bool) : Except FlowControlError Stream :=
  if s.aborted then .ok s
  else
    match s.charge bytes.length with
    | .error e => .error e
    | .ok s =>
      .ok { s with peerClosed := s.peerClosed || final, input := s.input ++ [.data bytes final] }

/-- Puts what the send window lets go into the outbox. -/
def release (s : Stream) : Stream × List Outgoing :=
  let r := s.send.release s.pending
  ({ s with send := r.window, pending := r.waiting,
            finalReleased := s.finalReleased || r.released.any (·.final) },
    r.released.map fun c => .frame (.data s.id c.bytes c.final))

/-- Takes a grant of the peer, and releases what it covers. -/
def grant (s : Stream) (increment : Nat) : Except FlowControlError (Stream × List Outgoing) :=
  if s.aborted then .ok (s, [])
  else
    match s.send.grant increment with
    | .error e => .error e
    | .ok send => .ok { s with send }.release

/-- Ends the stream without a word to the peer. -/
def abort (s : Stream) : Stream := if s.aborted then s else { s with aborted := true, pending := [] }

/-- Ends the stream and tells the peer, unless it is over. -/
def reset (s : Stream) (code : ErrorCode) : Stream × List Outgoing :=
  if s.isActive then (s.abort, [.frame (.reset s.id code)]) else (s, [])

/-! ### What a handler does -/

/-- The window update for `length` bytes that were read. The bytes are granted back in any case, but
    a peer that sends no more is not told. -/
def grantBack (s : Stream) (length : Nat) : Stream × List Outgoing :=
  match s.receive with
  | none => (s, [])
  | some w =>
    let (w, increment) := w.grantBack length
    ({ s with receive := some w },
      if s.peerClosed then []
      else increment.toList.map fun increment => .frame (.windowUpdate s.id increment))

/-- Reads the next part of the peer's message, if there is one. -/
def read (s : Stream) : Stream × Option Inbound × List Outgoing :=
  if s.aborted then (s, none, [])
  else
    match s.input with
    | [] => (s, none, [])
    | .headers list final :: rest => ({ s with input := rest }, some (.headers list final), [])
    | .data bytes final :: rest =>
      let (s, frames) := { s with input := rest }.grantBack bytes.length
      (s, some (.data bytes final), frames)

/-- Reads the next parts of the peer's message, at most `count`. -/
def readUpTo (s : Stream) : (count : Nat) → Stream × List Inbound × List Outgoing
  | 0 => (s, [], [])
  | count + 1 =>
    match s.read with
    | (s, none, _) => (s, [], [])
    | (s, some part, frames) =>
      let (s, parts, others) := s.readUpTo count
      (s, part :: parts, frames ++ others)

/-- Sends the headers of the reply. -/
def sendHeaders (s : Stream) (list : List Header) (final : Bool) :
    Except StreamError (Stream × List Outgoing) :=
  if s.aborted then .error .aborted
  else if s.finalSent then .error .alreadyFinished
  else if s.headersSent then .error .headersAlreadySent
  else
    .ok ({ s with headersSent := true, finalSent := final, finalReleased := s.finalReleased || final },
      [.headers s.id list final none])

/-- Marks the last of the pieces of a message as final, if the message is. -/
def chunksOf (final : Bool) : List Bytes → List Chunk
  | [] => []
  | [bytes] => [{ bytes, final }]
  | bytes :: rest => { bytes, final := false } :: chunksOf final rest

/-- Sends data of the reply, in frames of at most `limit` bytes. -/
def sendData (s : Stream) (bytes : Bytes) (final : Bool) (limit : Nat) :
    Except StreamError (Stream × List Outgoing) :=
  if s.aborted then .error .aborted
  else if s.finalSent then .error .alreadyFinished
  else if !s.headersSent then .error .headersNotSent
  else
    let pieces := if bytes.isEmpty then [[]] else Bytes.pieces limit bytes
    .ok { s with pending := s.pending ++ chunksOf final pieces, finalSent := final }.release

end Stream

end Multiplex
