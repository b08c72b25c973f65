import Multiplex.Bytes

/-! # Frames

A connection carries typed frames. A frame that belongs to a stream names it by its identifier; the
others belong to the connection and count as addressed to stream 0. Identifiers, window increments
and stream dependencies are 31-bit numbers on the wire; settings values and error codes are whole
words. -/

namespace Multiplex

/-- Why a stream or a connection is ended. -/
abbrev ErrorCode := UInt32

namespace ErrorCode

/-- Nothing went wrong. -/
def noError : ErrorCode := 0x0
/-- The peer broke the protocol. -/
def protocolError : ErrorCode := 0x1
/-- The handler of a stream failed. -/
def internalError : ErrorCode := 0x2
/-- The peer sent more than a window allows, or granted more than a window holds. -/
def flowControlError : ErrorCode := 0x3
/-- The peer sent data on a stream that it had ended. -/
def streamClosed : ErrorCode := 0x5
/-- The stream was turned away before anything was done for it. -/
def refusedStream : ErrorCode := 0x7

end ErrorCode

structure Setting where
  id : UInt16
  value : UInt32
  deriving DecidableEq

namespace Setting

def enablePush : UInt16 := 0x2
def maxConcurrentStreams : UInt16 := 0x3
def initialWindow : UInt16 := 0x4
def maxFrameSize : UInt16 := 0x5

end Setting

/-- How a HEADERS frame ranks its stream: the stream it depends on, and a weight. -/
structure Dependency where
  parent : Nat
  exclusive : Bool
  /-- The weight as it stands on the wire, one less than it counts. -/
  weight : UInt8
  deriving DecidableEq

namespace Dependency

/-- A ranking by weight alone, with no stream to depend on. -/
def ofWeight (weight : UInt8) : Dependency :=
  { parent := 0, exclusive := false, weight }

end Dependency

/-- A frame, with its header block whole and its padding removed. -/
inductive Frame where
  | data (stream : Nat) (payload : Bytes) (final : Bool)
  /-- `flags` is the flag byte as it arrived; when the frame is written, its bits are set beside
      those that the other fields call for. -/
  | headers (stream : Nat) (block : Bytes) (final : Bool) (priority : Option Dependency) (flags : UInt8)
  | pushPromise (stream promised : Nat) (block : Bytes)
  | reset (stream : Nat) (code : ErrorCode)
  | settings (ack : Bool) (params : List Setting)
  | ping (ack : Bool) (payload : Vector UInt8 8)
  | goAway (last : Nat) (code : ErrorCode)
  | windowUpdate (stream increment : Nat)
  deriving DecidableEq

namespace Frame

/-- The stream a frame is addressed to, 0 for the frames of the connection. -/
def stream : Frame → Nat
  | data stream .. | headers stream .. | pushPromise stream .. | reset stream _
  | windowUpdate stream _ => stream
  | settings .. | ping .. | goAway .. => 0

/-! ### Kinds -/

/-- The kinds of wire frame. A header block may go on in CONTINUATION frames, and PRIORITY frames
    carry nothing that is kept, so neither is a `Frame`. -/
inductive Kind where
  | data | headers | priority | reset | settings | pushPromise | ping | goAway | windowUpdate
  | continuation
  deriving DecidableEq

namespace Kind

def code : Kind → UInt8
  | data => 0x0
  | headers => 0x1
  | priority => 0x2
  | reset => 0x3
  | settings => 0x4
  | pushPromise => 0x5
  | ping => 0x6
  | goAway => 0x7
  | windowUpdate => 0x8
  | continuation => 0x9

/-- The kind that a type byte stands for, if it is a known one. -/
def ofCode? (code : UInt8) : Option Kind :=
  [data, headers, priority, reset, settings, pushPromise, ping, goAway, windowUpdate,
    continuation].find? (·.code == code)

@[simp] theorem ofCode?_code (kind : Kind) : ofCode? kind.code = some kind := by
  cases kind <;> rfl

def name : Kind → String
  | data => "DATA"
  | headers => "HEADERS"
  | priority => "PRIORITY"
  | reset => "RST_STREAM"
  | settings => "SETTINGS"
  | pushPromise => "PUSH_PROMISE"
  | ping => "PING"
  | goAway => "GOAWAY"
  | windowUpdate => "WINDOW_UPDATE"
  | continuation => "CONTINUATION"

end Kind

end Frame

/-! ### Flags -/

namespace Flag

/-- The sender's side of the stream ends with this frame. -/
def endStream : UInt8 := 0x1
/-- The frame answers one of the receiver's. -/
def ack : UInt8 := 0x1
/-- The header block ends with this frame. -/
def endHeaders : UInt8 := 0x4
/-- The payload begins with a padding length and ends with the padding. -/
def padded : UInt8 := 0x8
/-- The payload of a HEADERS frame holds a dependency before the header block. -/
def priority : UInt8 := 0x20

/-- The flags that a HEADERS frame may carry. -/
def allowedOnHeaders : UInt8 := endStream ||| endHeaders ||| padded ||| priority

/-- Whether all bits of `flag` are set in `flags`. -/
def isSet (flag flags : UInt8) : Bool := flags &&& flag != 0

/-- The flag itself, or no flag at all. -/
def when (flag : UInt8) (condition : Bool) : UInt8 := if condition then flag else 0

end Flag

end Multiplex
