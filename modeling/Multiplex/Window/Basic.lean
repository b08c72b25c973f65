import Multiplex.Settings

/-! # Violations of flow control -/

namespace Multiplex

/-- How a peer breaks the flow control of a stream. -/
inductive FlowControlError where
  /-- A grant would take the send window past the largest window. -/
  | windowOverflow (window increment : Nat)
  /-- Received data does not fit in the receive window. -/
  | windowExceeded (length window : Nat)
  deriving DecidableEq

def FlowControlError.message : FlowControlError → String
  | windowOverflow window increment =>
    s!"WINDOW_UPDATE of {increment} overflows send window {window}"
  | windowExceeded length window => s!"{length} bytes of DATA exceed receive window {window}"

end Multiplex
