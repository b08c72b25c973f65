import Multiplex.Session.Dispatch

/-! # Running a session

A session announces its limits and then goes round: it polls the transport, reads and takes what has
arrived, and writes what waits, until the peer is gone, a write fails, or nothing is left to do after
GOAWAY. At the end it closes the outbox, aborts the streams that go on, cancels the tasks that wait and
lets the suspended handlers run out. -/

namespace Multiplex.Session

/-! ### Input and output -/

/-- Polls the transport. Handlers go on here, and tasks run as scheduled. -/
def poll (s : Session) : Session :=
  let s := (s.note .polled).resumePolled.runScheduled
  { s with transport := s.transport.poll }

/-- Reads what arrives next, and tells how that went. After an error all further bytes are refused; a read
    that brings none goes well even then. -/
def readMore (s : Session) (wait : Bool) : Session × ReadStatus :=
  match s.transport.arrivals with
  | [] => (s.note (.read wait .closed s.reader.decoder.failure), .closed)
  | a :: arrivals =>
    let s := { s with transport := { s.transport with arrivals } }
    -- Handlers go on while the read blocks, so before its bytes are looked at.
    let s := a.resumes.elim s s.resumeReader
    let reader := if a.bytes.isEmpty then s.reader else s.reader.feed a.bytes
    let refused := !a.bytes.isEmpty && reader.decoder.failure.isSome
    let status := if a.closed then .closed else if refused then .error else .success
    ({ s with reader }.note (.read wait status reader.decoder.failure), status)

/-- Writes a wire frame. If that fails, the session ends for the given reason. -/
def write (s : Session) (bytes : Bytes) (reason : StopReason) : Session :=
  match s.transport.write bytes with
  | some transport => { s with transport }.note (.wrote bytes)
  | none => (s.note .writeFailed).stop reason

/-- Writes wire frames in order until one fails. -/
def writeAll : List Bytes → Session → Session
  | [], s => s
  | bytes :: rest, s =>
    let s := s.write bytes .writeFailed
    if s.isRunning then writeAll rest s else s

/-- Writes a frame that was taken out of the outbox. -/
def writeOutgoing (s : Session) (f : Outgoing) : Session :=
  let (sendTable, frames) := f.wire s.peer.maxFrame s.sendTable
  writeAll frames ({ s with sendTable }.note (.taken f))

/-- Takes up to `count` frames out of the outbox and writes them, until a write fails. -/
def flushUpTo : (count : Nat) → Session → Session
  | 0, s => s
  | count + 1, s =>
    match s.outbox.pop? with
    | none => s
    | some (f, outbox) =>
      let s := { s with outbox }.writeOutgoing f
      if s.isRunning then flushUpTo count s else s

def flush (s : Session) : Session := flushUpTo s.outbox.queue.size s

/-! ### Rounds -/

/-- Takes what a read brought, and goes away if the peer is through or out of step. -/
def takeInput (s : Session) (status : ReadStatus) : Session :=
  let s := s.dispatchReady
  if !s.isRunning then s
  else
    match status with
    | .success => s
    | .error => s.protocolError
    | .closed =>
      -- Streams that are over must not hold GOAWAY up, so they are let go before the look.
      let s := s.prune
      if s.isIdle then s.sendGoAway ErrorCode.noError else s

def round (s : Session) : Session :=
  let s := s.poll
  if s.transport.isGone then s.stop .peerGone
  else
    let s := s.prune
    let idle := s.isIdle
    if idle && s.goAwaySent then s.stop .finished
    else
      let (s, status) := s.readMore idle
      let s := s.takeInput status
      if !s.isRunning then s
      else
        let s := s.flush
        if !s.isRunning then s
        else
          let s := s.prune
          if s.goAwaySent && s.isIdle then s.stop .finished else s

/-- Goes round up to `count` times. -/
def rounds : (count : Nat) → Session → Session
  | 0, s => s
  | count + 1, s =>
    let s := s.round
    if s.isRunning then rounds count s else s

/-! ### The end -/

/-- Aborts the streams that the session looks after, and lets go of them. -/
def abortListed (s : Session) : Session :=
  { s with streams := s.streams.map fun stream =>
             if s.listed.contains stream.id then stream.abort else stream,
           listed := [] }

/-- Stops the executor: cancels the tasks that wait and lets the suspended handlers run out. -/
def stopExecutor (s : Session) : Session :=
  let (executor, cancelled) := s.executor.stop
  let s := cancelled.foldl cancel { s with executor }
  resumeAll s.resumptions s

/-- Closes the session down. -/
def shutDown (s : Session) : Session := { s with outbox := s.outbox.close }.abortListed.stopExecutor

/-- Writes the first frame, and goes round until the session ends: at the latest when the peer has been
    polled once more than it outlives. -/
def serve (s : Session) : Session :=
  let first := (Frame.settings false (s.config.params s.version)).encode 0
  let s := { s with status := .running }.write first .initialWriteFailed
  if s.isRunning then rounds (s.transport.patience + 1) s else s

/-- Runs a session from its beginning to its end. A session that has run stays as it is. -/
def runToEnd (s : Session) : Session :=
  if s.status = .ready then
    let s := s.serve
    if s.status = .crashed then s else s.shutDown
  else s

/-! ### After the end -/

/-- Takes an action on a stream from outside its handler, if there is such a stream. -/
def use (s : Session) (id : Nat) (action : Action) : Session × Option Reply :=
  match s.stream? id with
  | none => (s, none)
  | some stream => (perform launchPushed s stream action).map (·) some

/-- Drops the session; handles on its streams stay. -/
def drop (s : Session) : Session := { s with alive := false }

end Multiplex.Session
