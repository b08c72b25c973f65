import Multiplex.Proofs.Session.Lanes

/-! # Sessions among threads

Handlers may run on threads of their own while the thread of the session goes its rounds. Then it is not the steps of
`Advance` that come one after the other, but smaller ones (`Slice`): what a thread does while it holds a lock, with one
access to a shared flag, or with one frame that it puts into the outbox. A `Moment` is a session with what its thread and
the handlers are in the middle of. A step of `Advance` that nothing comes between is a slice as well.

The locks are those of the table of streams, of each stream, and of the push numbers with what the peer says of pushes.
Only a push holds them over several slices (`Pushing`); what else is done under a lock is one slice. A slice sees all
that was done in the slices before it. To open a stream for the peer is one slice, too: nobody else knows the stream
before the executor has its task. -/

namespace Multiplex.Session

open Relation (ReflTransGen)

/-! ### Moments -/

/-- What new streams and handlers see of the limits of the peer. -/
inductive Copy where
  | window
  | pieceLimit
  | mayPush
  deriving DecidableEq

/-- What the thread of a session is in the middle of. -/
inductive Phase where
  | free
  /-- A frame is about to go into the outbox. -/
  | queueing (f : Outgoing) (priority : Nat)
  /-- A stream went on when it was looked up, and is about to take in a part of the peer's message. -/
  | accepting (id : Nat) (part : Inbound)
  /-- A stream went on when it was looked up, and is about to take in a grant. -/
  | granting (id increment : Nat)
  | resetting (id : Nat) (code : ErrorCode)
  /-- New limits of the peer are accepted, and `copies` are still to follow them. -/
  | adopting (peer : PeerSettings) (copies : List Copy)
  /-- The run is over, and no push is allowed any more. -/
  | draining
  /-- The outbox has been closed. -/
  | closing
  /-- The session looks after no stream any more, and the streams of `rest` are yet to be aborted. -/
  | aborting (rest : List Nat)
  /-- The executor has stopped, and the tasks of `rest` are yet to be cancelled. -/
  | cancelling (rest : List Nat)
  /-- The run has returned. -/
  | returned
  deriving DecidableEq

namespace Phase

/-- How far the end of the run has come. -/
def stage : Phase → Nat
  | .draining => 1
  | .closing => 2
  | .aborting _ => 3
  | .cancelling _ => 4
  | .returned => 5
  | _ => 0

/-- The streams that are yet to be aborted. -/
def aborts : Phase → List Nat
  | .aborting rest => rest
  | _ => []

/-- The tasks that are yet to be cancelled. -/
def cancels : Phase → List Nat
  | .cancelling rest => rest
  | _ => []

end Phase

/-- A push that has passed its checks and has taken a number for its stream. Until it has added that stream or has
    failed, it holds the locks of the table, of the stream that it goes with, and of the push numbers. -/
structure Pushing where
  parent : Nat
  /-- The number of the new stream. -/
  id : Nat
  list : List Header
  priority : Nat
  /-- The priority of the stream that the push goes with. -/
  rank : Nat
  /-- Whether the promise is in the outbox. -/
  promised : Bool := false
  deriving DecidableEq

/-- A session among threads. -/
structure Moment where
  session : Session
  phase : Phase := .free
  pushing : Option Pushing := none
  /-- The pushed streams that were added and whose tasks the executor has not got yet. -/
  unsubmitted : List Nat := []
  /-- The streams whose handlers have returned and that were found going on then, each with whether it was found
      without its last frame, too. -/
  returning : List (Nat × Bool) := []

/-! ### What the session does in parts -/

/-- A frame of the peer is taken up, and its header block is looked at. -/
def takeUp (s : Session) (frame : Frame) (reader : Frame.Reader) : Session :=
  { { s with reader }.note (.dispatched frame) with receiveTable := { s with reader }.tableAfter frame }

/-- What a frame that was taken up makes the session do next, when its header block was read as `decoded`. -/
inductive Decides (s : Session) (decoded : Except Hpack.Fault (List Header)) : Frame → Session → Phase → Prop
  | answer (payload : Vector UInt8 8) :
      Decides s decoded (.ping false payload) s (.queueing (.frame (.ping true payload)) 0)
  | adopt {params : List Setting} {peer : PeerSettings} (allowed : s.peer.applyAll s.version params = .ok peer) :
      Decides s decoded (.settings false params) s (.adopting peer [.window, .pieceLimit, .mayPush])
  | trailers {id : Nat} {block : Bytes} {priority : Option Dependency} {flags : UInt8} {stream : Stream}
      (found : s.listed? id = some stream) (active : stream.isActive) (going : stream.peerClosed = false)
      {list : List Header} (read : decoded = .ok list) :
      Decides s decoded (.headers id block true priority flags) s (.accepting id (.headers list true))
  | turnAway {id : Nat} {block : Bytes} {final : Bool} {priority : Option Dependency} {flags : UInt8}
      (new : s.listed? id = none) (staying : s.goAwaySent = false) (odd : id % 2 ≠ 0) (later : s.lastPeer < id)
      (full : s.config.maxStreams.toNat ≤ s.peerCount) (rank : Nat) :
      Decides s decoded (.headers id block final priority flags) { s with lastPeer := id }
        (.queueing (.frame (.reset id ErrorCode.refusedStream)) rank)
  | data {id : Nat} {bytes : Bytes} {final : Bool} {stream : Stream} (found : s.active? id = some stream)
      (going : stream.peerClosed = false) :
      Decides s decoded (.data id bytes final) s (.accepting id (.data bytes final))
  | lateData {id : Nat} {bytes : Bytes} {final : Bool} {stream : Stream} (found : s.active? id = some stream)
      (closed : stream.peerClosed = true) :
      Decides s decoded (.data id bytes final) s (.resetting id ErrorCode.streamClosed)
  | grant {id increment : Nat} {stream : Stream} (flow : s.version.hasFlowControl) (found : s.active? id = some stream)
      (positive : 0 < increment) : Decides s decoded (.windowUpdate id increment) s (.granting id increment)

/-- A stream takes in a part of the peer's message, unless it was aborted; if the part breaks its flow control, it is
    to be reset. -/
def accept (s : Session) (stream : Stream) (part : Inbound) : Session × Phase :=
  if stream.aborted then (s, .free)
  else
    match part with
    | .headers list final =>
      ((s.setStream (stream.acceptHeaders list final)).note (.accepted stream.id (.headers list final)), .free)
    | .data bytes final =>
      match stream.acceptData bytes final with
      | .ok stream => ((s.setStream stream).note (.accepted stream.id (.data bytes final)), .free)
      | .error _ => (s, .resetting stream.id ErrorCode.flowControlError)

/-- A stream takes in a grant, unless it was aborted; if its window grows too large, it is to be reset. -/
def takeGrant (s : Session) (stream : Stream) (increment : Nat) : Session × Phase :=
  if stream.aborted then (s, .free)
  else
    match stream.grant increment with
    | .ok (stream, frames) => ((s.note (.granted stream.id increment)).update stream frames, .free)
    | .error _ => (s, .resetting stream.id ErrorCode.flowControlError)

/-- New streams and handlers see one of the new limits. -/
def store (s : Session) (peer : PeerSettings) : Copy → Session
  | .window => { s with newWindow := peer.window }
  | .pieceLimit => { s with pieceLimit := peer.maxFrame }
  | .mayPush => { s with mayPush := peer.enablePush }

/-- A push adds its stream, whose only input is the promised request. -/
def addPushed (s : Session) (p : Pushing) : Session :=
  s.addStream (s.newStream p.id p.parent (min p.priority Priority.lowest)) p.list true

def abort (s : Session) (id : Nat) : Session :=
  match s.stream? id with
  | some stream => s.setStream stream.abort
  | none => s

/-- What needs none of the locks that a push holds: the table, the streams, their numbers and what is said of pushes stay
    as they are. -/
structure Lockless (s t : Session) : Prop where
  streams : t.streams = s.streams
  listed : t.listed = s.listed
  numbers : t.lastPeer = s.lastPeer ∧ t.nextPush = s.nextPush
  pushes : t.mayPush = s.mayPush ∧ t.peerLeaving = s.peerLeaving

/-! ### Slices -/

/-- What one of the threads does undisturbed. -/
inductive Slice : Moment → Moment → Prop
  /-- A whole step, which nothing comes between. -/
  | advanced {m : Moment} {t : Session} (free : m.phase = .free) (hopen : t.outbox.closed = false)
      (h : Advance m.session t) (held : m.pushing.isSome → Lockless m.session t) : Slice m { m with session := t }
  /-- A handler takes a step other than a push, on a stream whose lock is free. -/
  | moved {m : Moment} {t : Session} (h : Move m.session t) (numbers : t.nextPush = m.session.nextPush)
      (apart : ∀ p ∈ m.pushing, t.stream? p.parent = m.session.stream? p.parent) : Slice m { m with session := t }
  -- Pushes.
  | claimed {m : Moment} {id : Nat} {stream : Stream} (list : List Header) (priority : Nat) (unlocked : m.pushing = none)
      (found : m.session.stream? id = some stream) (early : m.phase.stage = 0)
      (allowed : m.session.pushError? stream = none) :
      Slice m { m with
        session := { m.session with nextPush := m.session.nextPush + 2 },
        pushing := some { parent := id, id := m.session.nextPush, list, priority, rank := stream.priority } }
  /-- The run is over, even if the outbox is still open. -/
  | declined {m : Moment} {id : Nat} {stream : Stream} (list : List Header) (priority index : Nat)
      (found : m.session.stream? id = some stream) (unpushed : stream.isPushed = false) (late : 0 < m.phase.stage) :
      Slice m { m with
        session := m.session.note (.stepped id index (.act (.push list priority)) (.refused .pushRefused)) }
  | promised {m : Moment} {p : Pushing} (now : m.pushing = some p) (first : p.promised = false)
      (hopen : m.session.outbox.closed = false) :
      Slice m { m with
        session := m.session.queue (.pushPromise p.parent p.id p.list) p.rank,
        pushing := some { p with promised := true } }
  /-- The outbox was closed when the promise came. The number of the push is gone. -/
  | lost {m : Moment} {p : Pushing} (index : Nat) (now : m.pushing = some p) (first : p.promised = false)
      (closed : m.session.outbox.closed) :
      Slice m { m with
        session := m.session.note (.stepped p.parent index (.act (.push p.list p.priority)) (.refused .aborted)),
        pushing := none }
  | inserted {m : Moment} {p : Pushing} (now : m.pushing = some p) (done : p.promised = true) :
      Slice m { m with session := m.session.addPushed p, pushing := none, unsubmitted := m.unsubmitted ++ [p.id] }
  | submitted {m : Moment} {id : Nat} (waits : id ∈ m.unsubmitted) :
      Slice m { m with session := addTask id m.session, unsubmitted := m.unsubmitted.erase id }
  -- The end of a handler.
  /-- A handler has returned, and its stream is looked at for the first time. -/
  | ended {m : Moment} {id : Nat} {stream : Stream} (found : m.session.stream? id = some stream) :
      Slice m { m with
        session := m.session.note (.ended id),
        returning := if stream.isActive then (id, false) :: m.returning else m.returning }
  /-- It is looked at for the second time. -/
  | reviewed {m : Moment} {id : Nat} {stream : Stream} (waits : (id, false) ∈ m.returning)
      (found : m.session.stream? id = some stream) :
      Slice m { m with returning := if stream.finalSent then m.returning.erase (id, false)
                                   else (id, true) :: m.returning.erase (id, false) }
  /-- A handler has broken down. -/
  | failed {m : Moment} (id : Nat) :
      Slice m { m with session := m.session.note (.failed id), returning := (id, true) :: m.returning }
  | finished {m : Moment} {id : Nat} {stream : Stream} (waits : (id, true) ∈ m.returning)
      (found : m.session.stream? id = some stream) (apart : ∀ p ∈ m.pushing, p.parent ≠ id) :
      Slice m { m with
        session := m.session.reset stream ErrorCode.internalError,
        returning := m.returning.erase (id, true) }
  -- The thread of the session.
  /-- GOAWAY is decided on, and pushes are refused from here on. -/
  | left {m : Moment} (free : m.phase = .free) (running : m.session.status = .running)
      (staying : m.session.goAwaySent = false) (code : ErrorCode) :
      Slice m { m with
        session := { m.session with goAwaySent := true },
        phase := .queueing (.frame (.goAway m.session.lastPeer code)) 0 }
  | queued {m : Moment} {f : Outgoing} {priority : Nat} (now : m.phase = .queueing f priority) :
      Slice m { m with session := m.session.queue f priority, phase := .free }
  | decided {m : Moment} {frame : Frame} {reader : Frame.Reader} {t : Session} {phase : Phase} (free : m.phase = .free)
      (unlocked : m.pushing = none) (running : m.session.status = .running)
      (next : m.session.reader.next? = some (frame, reader))
      (h : Decides (m.session.takeUp frame reader) ({ m.session with reader }.decodedIn frame) frame t phase) :
      Slice m { m with session := t, phase }
  | accepted {m : Moment} {id : Nat} {part : Inbound} {stream : Stream} (now : m.phase = .accepting id part)
      (found : m.session.stream? id = some stream) (apart : ∀ p ∈ m.pushing, p.parent ≠ id) :
      Slice m { m with session := (m.session.accept stream part).1, phase := (m.session.accept stream part).2 }
  | granted {m : Moment} {id increment : Nat} {stream : Stream} (now : m.phase = .granting id increment)
      (found : m.session.stream? id = some stream) (apart : ∀ p ∈ m.pushing, p.parent ≠ id) :
      Slice m { m with
        session := (m.session.takeGrant stream increment).1,
        phase := (m.session.takeGrant stream increment).2 }
  | reset {m : Moment} {id : Nat} {code : ErrorCode} {stream : Stream} (now : m.phase = .resetting id code)
      (found : m.session.stream? id = some stream) (apart : ∀ p ∈ m.pushing, p.parent ≠ id) :
      Slice m { m with session := m.session.reset stream code, phase := .free }
  | stored {m : Moment} {peer : PeerSettings} {copy : Copy} {rest : List Copy}
      (now : m.phase = .adopting peer (copy :: rest)) (unlocked : copy = .mayPush → m.pushing = none) :
      Slice m { m with session := m.session.store peer copy, phase := .adopting peer rest }
  | adopted {m : Moment} {peer : PeerSettings} (now : m.phase = .adopting peer []) :
      Slice m { m with session := { m.session with peer }, phase := .queueing (.frame (.settings true [])) 0 }
  -- The end of the run.
  | drained {m : Moment} {reason : StopReason} (free : m.phase = .free) (stopped : m.session.status = .stopped reason) :
      Slice m { m with phase := .draining }
  | closed {m : Moment} (now : m.phase = .draining) :
      Slice m { m with session := { m.session with outbox := m.session.outbox.close }, phase := .closing }
  | emptied {m : Moment} (now : m.phase = .closing) (unlocked : m.pushing = none) :
      Slice m { m with session := { m.session with listed := [] }, phase := .aborting m.session.listed }
  | aborted {m : Moment} {id : Nat} {rest : List Nat} (now : m.phase = .aborting (id :: rest)) :
      Slice m { m with session := m.session.abort id, phase := .aborting rest }
  | halted {m : Moment} (now : m.phase = .aborting []) :
      Slice m { m with
        session := { m.session with executor := m.session.executor.stop.1 },
        phase := .cancelling m.session.executor.stop.2 }
  | cancelled {m : Moment} {id : Nat} {rest : List Nat} (now : m.phase = .cancelling (id :: rest)) :
      Slice m { m with session := m.session.cancel id, phase := .cancelling rest }
  | returned {m : Moment} (now : m.phase = .cancelling []) : Slice m { m with phase := .returned }

/-- A chain of slices. What a session reaches by it is a moment of one of its runs among threads. -/
def Slices : Moment → Moment → Prop := ReflTransGen Slice

namespace Slices
variable {m n o : Moment}

theorem refl (m : Moment) : Slices m m := ReflTransGen.refl

theorem trans (first : Slices m n) (second : Slices n o) : Slices m o := ReflTransGen.trans first second

theorem single (h : Slice m n) : Slices m n := ReflTransGen.single h

/-- What holds at first and is kept by each slice holds at every moment. -/
theorem keeps {P : Moment → Prop} (h : Slices m n) (first : P m) (step : ∀ {m n}, Slice m n → P m → P n) : P n := by
  induction h with
  | refl => exact first
  | tail _ last ih => exact step last ih

end Slices

/-! ### Steps that nothing comes between -/

/-- A closed outbox stays closed. -/
theorem Advance.closed_of_closed {s t : Session} (h : Advance s t) (closed : s.outbox.closed) : t.outbox.closed := by
  have popped {f : Outgoing} {outbox : Outbox} (next : s.outbox.pop? = some (f, outbox)) : outbox.closed := by
    obtain ⟨⟨f, queue⟩, -, same⟩ := Option.map_eq_some_iff.mp next
    cases same
    exact closed
  cases h with
  | moved h => exact h.kept.closed.trans closed
  | began =>
    unfold write
    split <;> exact closed
  | @dispatched running frame reader next => exact (Kept.closed (effect_dispatch { s with reader } frame).limited).trans closed
  | wentAway => exact (Kept.closed (limited_sendGoAway s _)).trans closed
  | @wrote running f outbox next => exact (outbox_writeOutgoing { s with outbox } f).symm ▸ popped next
  | closed => rfl
  | halted => exact (Kept.foldl_cancel _ _).closed.trans closed
  | _ => exact closed

theorem Limited.stopped {s t : Session} (limited : Limited s t) : t.executor.stopped = s.executor.stopped := by
  unfold Limited at limited
  exact limited.stopped

/-- The executor does not stop before the outbox is closed. -/
theorem Advance.stopped_of_open {s t : Session} (h : Advance s t) (hopen : t.outbox.closed = false) :
    t.executor.stopped = s.executor.stopped := by
  cases h with
  | moved h => exact h.kept.stopped
  | began =>
    unfold write
    split <;> rfl
  | @dispatched running frame reader next => exact (effect_dispatch { s with reader } frame).limited.stopped
  | wentAway => exact (limited_sendGoAway s _).stopped
  | @wrote running f outbox next =>
    unfold writeOutgoing
    dsimp only
    rw [(sent_writeAll _ _).rest]
    rfl
  | closed => cases hopen
  | halted closed =>
    have shut := (Kept.foldl_cancel s.executor.stop.2 { s with executor := s.executor.stop.1 }).closed.trans closed
    simp [shut] at hopen
  | _ => rfl

/-- A chain of steps that does not close the outbox is a run among threads in which nothing comes between the parts of
    a step. -/
theorem slices_of_reaches {s t : Session} (h : Reaches s t) (hopen : t.outbox.closed = false) :
    Slices { session := s } { session := t } := by
  induction h with
  | refl => exact .refl _
  | @tail u v earlier last ih =>
    have before : u.outbox.closed = false :=
      Bool.eq_false_iff.mpr fun closed => Bool.eq_false_iff.mp hopen (last.closed_of_closed closed)
    exact (ih before).trans (.single (.advanced (m := { session := u }) rfl hopen last nofun))

end Multiplex.Session
