import Multiplex.Header
import Multiplex.Frame.Wire
import Multiplex.Queue

/-! # The outbox

Frames wait in the outbox until the session writes them. The frames of the connection go first, and
those of the streams follow by the priority of their stream; within one rank the order of arrival is
kept, so the frames of one stream are never reordered. Headers wait uncompressed: the header table
has to follow the order of the wire. -/

namespace Multiplex

/-- A frame that waits to be written. -/
inductive Outgoing where
  | frame (f : Frame)
  | headers (stream : Nat) (headers : List Header) (final : Bool) (priority : Option Dependency)
  | pushPromise (stream promised : Nat) (headers : List Header)
  deriving DecidableEq

namespace Outgoing

/-- The stream a frame is addressed to, 0 for the frames of the connection. -/
def stream : Outgoing → Nat
  | .frame f => f.stream
  | .headers stream .. | .pushPromise stream .. => stream

/-- Whether a frame goes out before all frames of streams. -/
def isConnectionLevel : Outgoing → Bool
  | .frame (.data ..) | .frame (.headers ..) | .frame (.reset ..) | .headers .. => false
  | .frame _ | .pushPromise .. => true

/-- The rank of a frame whose stream has `priority`. -/
def rank (f : Outgoing) (priority : Nat) : Nat := if f.isConnectionLevel then 0 else 1 + priority

/-- The wire frames of a frame, and the sender's header table after it. -/
def wire (limit : Nat) (table : Hpack.Table) : Outgoing → Hpack.Table × List Bytes
  | .frame f => (table, f.wire limit)
  | .headers stream list final priority =>
    let (table, block) := Header.encodeBlock table list
    (table, (Frame.headers stream block final priority 0).wire limit)
  | .pushPromise stream promised list =>
    let (table, block) := Header.encodeBlock table list
    (table, (Frame.pushPromise stream promised block).wire limit)

end Outgoing

/-- The frames that wait to be written. A closed outbox is empty and takes nothing more. -/
structure Outbox where
  queue : Queue Outgoing := .empty
  closed : Bool := false

namespace Outbox

/-- Takes a frame in, unless the outbox is closed. -/
def push (o : Outbox) (f : Outgoing) (priority : Nat) : Outbox :=
  if o.closed then o else { o with queue := o.queue.push (f.rank priority) f }

theorem entries_push {o : Outbox} (hopen : o.closed = false) (f : Outgoing) (priority : Nat) :
    (o.push f priority).queue.entries = Queue.insert (f.rank priority) f o.queue.entries := by
  simp [push, hopen]

/-- Gives the frame to be written next. -/
def pop? (o : Outbox) : Option (Outgoing × Outbox) :=
  o.queue.pop?.map fun (f, queue) => (f, { o with queue })

/-- Drops all frames and takes no more. -/
def close (o : Outbox) : Outbox := { queue := o.queue.clear, closed := true }

end Outbox

end Multiplex
