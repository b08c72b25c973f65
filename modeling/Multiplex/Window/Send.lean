import Multiplex.Window.Basic

/-! # Send windows

What a stream may send is bounded by the credit that the peer has granted. Data waits as chunks, and a
window releases as many of them, in order, as its credit covers; it cuts a chunk that fits only in
part. A chunk without bytes costs nothing, so that only the chunks before it hold it back. -/

namespace Multiplex

/-- A stretch of data, and whether the stream ends with it. -/
structure Chunk where
  bytes : Bytes
  final : Bool
  deriving DecidableEq

/-- The credit of one stream. -/
structure SendWindow where
  credit : Nat
  /-- Without flow control everything is released and the credit stays as it is. -/
  enabled : Bool
  deriving DecidableEq

namespace SendWindow

/-- A window with the credit that the peer grants each stream at its start. -/
def start (initial : Nat) (enabled : Bool) : SendWindow :=
  { credit := min initial maxWindow, enabled }

def grant (w : SendWindow) (increment : Nat) : Except FlowControlError SendWindow :=
  if w.credit + increment ≤ maxWindow then .ok { w with credit := w.credit + increment }
  else .error (.windowOverflow w.credit increment)

/-- What a window lets go. -/
structure Release where
  window : SendWindow
  released : List Chunk
  waiting : List Chunk

/-- Lets go of the chunks at the front that the credit covers. -/
def release (w : SendWindow) : List Chunk → Release
  | [] => { window := w, released := [], waiting := [] }
  | c :: rest =>
    if w.enabled = false then
      let r := w.release rest
      { r with released := c :: r.released }
    else if c.bytes.length ≤ w.credit then
      let r := { w with credit := w.credit - c.bytes.length }.release rest
      { r with released := c :: r.released }
    else if w.credit = 0 then { window := w, released := [], waiting := c :: rest }
    else
      { window := { w with credit := 0 },
        released := [{ bytes := c.bytes.take w.credit, final := false }],
        waiting := { c with bytes := c.bytes.drop w.credit } :: rest }

end SendWindow

end Multiplex
