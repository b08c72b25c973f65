import Multiplex.Frame.Basic
import Multiplex.Frame.Wire

/-! # Transports

A transport carries a session's bytes. It is laid out in advance: what each read brings, after how
many polls the peer is gone, and how many writes succeed. -/

namespace Multiplex

/-- How a read went. -/
inductive ReadStatus where
  | success
  /-- The bytes that arrived could not be decoded. -/
  | error
  /-- The peer has closed its side. -/
  | closed
  deriving DecidableEq

/-- What one read brings. -/
structure Arrival where
  bytes : Bytes := []
  closed : Bool := false
  /-- The stream whose handler, if it waits for input, goes on before the bytes are looked at. -/
  resumes : Option Nat := none
  deriving DecidableEq

/-- A transport between two operations. -/
structure Transport where
  /-- What the reads to come will bring; after it the peer has closed its side. -/
  arrivals : List Arrival := []
  /-- The number of polls that the peer outlives. -/
  patience : Nat := 40
  /-- The number of writes that succeed, if not all do. -/
  writable : Option Nat := none
  /-- Whether the peer grants anew what each DATA frame takes. -/
  regrants : Bool := false
  polls : Nat := 0
  writes : Nat := 0
  deriving DecidableEq

namespace Transport

def poll (t : Transport) : Transport := { t with polls := t.polls + 1 }

def isGone (t : Transport) : Bool := t.patience < t.polls

/-- What the peer sends back for a wire frame: for a DATA frame that is not empty, a grant of its
    length. -/
def regrant (bytes : Bytes) : List Arrival :=
  match WireHeader.parse? bytes with
  | some h =>
    if h.kind = Frame.Kind.data.code ∧ h.length ≠ 0 then
      [{ bytes := (Frame.windowUpdate h.stream h.length).encode 0 }]
    else []
  | none => []

/-- Writes a wire frame, unless the peer takes no more. -/
def write (t : Transport) (bytes : Bytes) : Option Transport :=
  if t.writable.any (· ≤ t.writes) then none
  else
    some { t with writes := t.writes + 1,
                  arrivals := t.arrivals ++ if t.regrants then regrant bytes else [] }

end Transport

end Multiplex
