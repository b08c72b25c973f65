import Multiplex.Executor.Basic
import Multiplex.Frame.Reader
import Multiplex.Handler
import Multiplex.Transport

/-! # Sessions

A session serves one connection: it reads frames, hands the streams that the peer opens to handlers,
and writes what the handlers send. This file holds the state of a session, its journal, and the
elementary changes that everything a session does is made of. -/

namespace Multiplex

/-- Why a session ended. -/
inductive StopReason where
  /-- The first SETTINGS frame could not be written. -/
  | initialWriteFailed
  | peerGone
  | writeFailed
  /-- GOAWAY was sent and every stream is over. -/
  | finished
  deriving DecidableEq

/-- How far a session has come. -/
inductive Status where
  | ready
  | running
  | stopped (reason : StopReason)
  /-- A header block crashed its reader. -/
  | crashed
  deriving DecidableEq

/-- When the tasks of a session run. -/
inductive Schedule where
  /-- As soon as they are added. -/
  | atOnce
  /-- All of them at each poll. -/
  | eachPoll
  /-- One of them at each poll. -/
  | oneEachPoll
  | never
  deriving DecidableEq

/-- What happens in a session. -/
inductive Event where
  | polled
  | read (wait : Bool) (status : ReadStatus) (failure : Option DecodeError)
  | dispatched (frame : Frame)
  | opened (stream parent priority : Nat) (pushed : Bool)
  /-- A stream took in a part of the peer's message. -/
  | accepted (stream : Nat) (part : Inbound)
  /-- A stream took in a grant of the peer. -/
  | granted (stream increment : Nat)
  /-- A frame went into the outbox. -/
  | queued (frame : Outgoing)
  /-- A frame was taken out of the outbox. -/
  | taken (frame : Outgoing)
  | wrote (bytes : Bytes)
  | writeFailed
  | started (stream : Nat)
  /-- A handler took the step at `index`. -/
  | stepped (stream index : Nat) (step : Step) (reply : Reply)
  | ended (stream : Nat)
  | failed (stream : Nat)
  | cancelled (stream : Nat)
  deriving DecidableEq

/-- A session between two operations. -/
structure Session where
  version : Version
  config : Config
  handlers : Handlers
  schedule : Schedule
  transport : Transport
  reader : Frame.Reader
  /-- The header table of the blocks that arrive. -/
  receiveTable : Hpack.Table := {}
  /-- The header table of the blocks that are written. -/
  sendTable : Hpack.Table := {}
  /-- The limits of the peer, as the session goes by them. -/
  peer : PeerSettings := {}
  /-- The window that the peer grants new streams, as these see it. -/
  newWindow : Nat := ({} : PeerSettings).window
  /-- The largest frame that the peer takes, as handlers see it. -/
  pieceLimit : Nat := ({} : PeerSettings).maxFrame
  /-- Whether the peer takes pushes, as handlers see it. -/
  mayPush : Bool := ({} : PeerSettings).enablePush
  outbox : Outbox := {}
  /-- All streams that were ever opened, the oldest first. -/
  streams : List Stream := []
  /-- The streams that the session still looks after. -/
  listed : List Nat := []
  /-- The greatest stream that the peer opened or tried to open. -/
  lastPeer : Nat := 0
  /-- The stream of the next push. -/
  nextPush : Nat := 2
  goAwaySent : Bool := false
  /-- The peer has sent GOAWAY. -/
  peerLeaving : Bool := false
  /-- The tasks that wait, each for one stream. -/
  executor : Executor Nat
  /-- The suspended handlers, the one suspended longest first. -/
  parked : List Parked := []
  /-- Whether the session has not been dropped. -/
  alive : Bool := true
  status : Status := .ready
  /-- What has happened, in order. -/
  journal : List Event := []

namespace Session

def start (version : Version) (config : Config) (handlers : Handlers) (schedule : Schedule)
    (transport : Transport) : Session :=
  { version, config, handlers, schedule, transport,
    reader := { decoder := .start config.maxFrame.toNat },
    executor := { runsOnAdd := schedule = .atOnce } }

/-! ### The journal -/

def note (s : Session) (e : Event) : Session := { s with journal := s.journal ++ [e] }

def isRunning (s : Session) : Bool := s.status = .running

def stop (s : Session) (reason : StopReason) : Session := { s with status := .stopped reason }

/-! ### The outbox -/

/-- Puts a frame into the outbox, if it is open. -/
def queue (s : Session) (f : Outgoing) (priority : Nat) : Session :=
  if s.outbox.closed then s
  else { s with outbox := s.outbox.push f priority }.note (.queued f)

def queueAll (s : Session) (frames : List Outgoing) (priority : Nat) : Session :=
  frames.foldl (fun s f => s.queue f priority) s

@[simp] theorem streams_queue (s : Session) (f : Outgoing) (priority : Nat) :
    (s.queue f priority).streams = s.streams := by
  unfold queue
  split <;> rfl

@[simp] theorem streams_queueAll (s : Session) (frames : List Outgoing) (priority : Nat) :
    (s.queueAll frames priority).streams = s.streams := by
  unfold queueAll
  induction frames generalizing s with
  | nil => rfl
  | cons f rest ih => rw [List.foldl_cons, ih, streams_queue]

/-! ### Streams -/

/-- The stream of an identifier, if there ever was one. -/
def stream? (s : Session) (id : Nat) : Option Stream := s.streams.find? (·.id == id)

/-- Puts a stream in the place of the one with its identifier. -/
def setStream (s : Session) (stream : Stream) : Session :=
  { s with streams := s.streams.map fun old => if old.id = stream.id then stream else old }

/-- Putting a stream in its place leaves the others alone. -/
theorem stream?_setStream_ne (s : Session) {stream : Stream} {id : Nat} (other : id ≠ stream.id) :
    (s.setStream stream).stream? id = s.stream? id := by
  simp only [stream?, setStream]
  induction s.streams with
  | nil => rfl
  | cons first rest ih =>
    rw [List.map_cons, List.find?_cons, List.find?_cons, ih]
    by_cases same : first.id = stream.id
    · simp [same, beq_eq_false_iff_ne.mpr (Ne.symm other)]
    · simp [same]

/-- A stream that was put in its place is found there. -/
theorem stream?_setStream (s : Session) {stream : Stream}
    (present : (s.stream? stream.id).isSome) :
    (s.setStream stream).stream? stream.id = some stream := by
  simp only [stream?, setStream] at present ⊢
  generalize s.streams = streams at present
  induction streams with
  | nil => simp at present
  | cons first rest ih =>
    rw [List.map_cons, List.find?_cons]
    by_cases same : first.id = stream.id
    · simp [same]
    · rw [List.find?_cons, beq_eq_false_iff_ne.mpr same] at present
      rw [if_neg same, beq_eq_false_iff_ne.mpr same]
      exact ih present

/-- Puts a stream in its place and its frames into the outbox. -/
def update (s : Session) (stream : Stream) (frames : List Outgoing) : Session :=
  (s.setStream stream).queueAll frames stream.priority

/-- Resets a stream, unless it is over. -/
def reset (s : Session) (stream : Stream) (code : ErrorCode) : Session :=
  let (stream, frames) := stream.reset code
  s.update stream frames

def newStream (s : Session) (id parent priority : Nat) : Stream :=
  let flowControl := s.version.hasFlowControl
  { id, parent, priority,
    receive := if flowControl then some { room := s.config.window.toNat } else none,
    send := .start s.newWindow flowControl }

/-- Adds a stream whose first input is `list`. -/
def addStream (s : Session) (stream : Stream) (list : List Header) (final : Bool) : Session :=
  { s with streams := s.streams ++ [stream.acceptHeaders list final],
           listed := s.listed ++ [stream.id] }.note (.accepted stream.id (.headers list final))

/-- The streams that the session looks after. -/
def listedStreams (s : Session) : List Stream := s.streams.filter (s.listed.contains ·.id)

/-- The stream of an identifier, if the session looks after it. -/
def listed? (s : Session) (id : Nat) : Option Stream :=
  if s.listed.contains id then s.stream? id else none

/-- The stream of an identifier, if it goes on. -/
def active? (s : Session) (id : Nat) : Option Stream := (s.listed? id).filter (·.isActive)

def activeCount (s : Session) : Nat := s.listedStreams.countP (·.isActive)

/-- The number of streams that the peer opened and that go on. -/
def peerCount (s : Session) : Nat := s.listedStreams.countP fun stream =>
  stream.isActive && !stream.isPushed

/-- Lets go of the streams that are over. -/
def prune (s : Session) : Session :=
  { s with listed := (s.listedStreams.filter (·.isActive)).map (·.id) }

/-- Whether no stream goes on and nothing waits to be written. -/
def isIdle (s : Session) : Bool := s.listedStreams.all (!·.isActive) && s.outbox.queue.isEmpty

/-- Whether no more streams are started. -/
def isDraining (s : Session) : Bool := s.goAwaySent || s.outbox.closed

/-! ### The limits of the peer -/

/-- The limits of the peer as new streams and handlers see them. -/
def copies (s : Session) : PeerSettings :=
  { enablePush := s.mayPush, window := s.newWindow, maxFrame := s.pieceLimit }

/-- Goes by new limits of the peer from now on, and lets new streams and handlers see them. -/
def adopt (s : Session) (peer : PeerSettings) : Session :=
  { s with newWindow := peer.window, pieceLimit := peer.maxFrame, mayPush := peer.enablePush, peer }

/-! ### Going away -/

/-- Announces the end of the connection, once. -/
def sendGoAway (s : Session) (code : ErrorCode) : Session :=
  if s.goAwaySent then s
  else { s with goAwaySent := true }.queue (.frame (.goAway s.lastPeer code)) 0

/-- Answers a breach of the protocol. -/
def protocolError (s : Session) : Session := s.sendGoAway ErrorCode.protocolError

end Session

end Multiplex
