import Multiplex.Frame.Decoder
import Multiplex.Header
import Multiplex.Priority
import Multiplex.Transport

/-! # What peers send

A peer sends frames, bytes that need not be frames, and requests whose headers it compresses with a
table of its own. -/

namespace Multiplex.Peer

/-- A thing that a peer sends. -/
inductive Item where
  | frame (f : Frame)
  | raw (bytes : Bytes)
  | preface
  | continuation (stream : Nat) (fragment : Bytes) (endHeaders : Bool)
  /-- A HEADERS frame whose block is compressed when it is sent, written in frames of at most `limit`
      bytes. -/
  | request (stream : Nat) (list : List Header) (final : Bool) (priority : Option Nat) (flags : UInt8)
      (limit : Nat)
  deriving DecidableEq

/-- The bytes of an item, and the peer's header table after it. -/
def Item.bytes (table : Hpack.Table) : Item → Hpack.Table × Bytes
  | frame f => (table, f.encode Frame.Decoder.leastLimit)
  | raw bytes => (table, bytes)
  | preface => (table, Frame.preface)
  | continuation stream fragment endHeaders => (table, Frame.continuation stream fragment endHeaders)
  | request stream list final priority flags limit =>
    let (table, block) := Header.encodeBlock table list
    let priority := priority.map fun p => Dependency.ofWeight (Priority.weight p)
    (table, (Frame.headers stream block final priority flags).encode limit)

/-- What arrives together. -/
structure Batch where
  items : List Item
  closed : Bool := false
  resumes : Option Nat := none
  deriving DecidableEq

/-- The bytes of items, and the peer's header table after them. -/
def Item.allBytes (table : Hpack.Table) : List Item → Hpack.Table × Bytes
  | [] => (table, [])
  | item :: rest =>
    let (table, front) := item.bytes table
    let (table, back) := allBytes table rest
    (table, front ++ back)

/-- What batches bring, when the peer's header table is `table` before them. -/
def arrivals (table : Hpack.Table) : List Batch → List Arrival
  | [] => []
  | batch :: rest =>
    let (table, bytes) := Item.allBytes table batch.items
    { bytes, closed := batch.closed, resumes := batch.resumes } :: arrivals table rest

end Multiplex.Peer
