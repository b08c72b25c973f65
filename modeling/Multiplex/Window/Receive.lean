import Multiplex.Window.Basic

/-! # Receive windows

What the peer may send on a stream is bounded by a window. Data that arrives is charged to it, and
what a handler has read is granted back. -/

namespace Multiplex

/-- How many bytes the peer may still send on one stream. -/
structure ReceiveWindow where
  room : Nat
  deriving DecidableEq

namespace ReceiveWindow

/-- Charges `length` bytes that arrived. -/
def charge (w : ReceiveWindow) (length : Nat) : Except FlowControlError ReceiveWindow :=
  if length ≤ w.room then .ok { room := w.room - length }
  else .error (.windowExceeded length w.room)

/-- Grants `length` bytes back, as far as a window can hold them, and gives the increment to
    announce, if it is not zero. -/
def grantBack (w : ReceiveWindow) (length : Nat) : ReceiveWindow × Option Nat :=
  let increment := min length (maxWindow - w.room)
  if increment = 0 then (w, none) else ({ room := w.room + increment }, some increment)

end ReceiveWindow

end Multiplex
