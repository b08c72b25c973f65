import Multiplex.Priority
import Multiplex.Session.Basic

/-! # Running handlers

Handlers act on their streams, start pushed streams, suspend, and end. A task is the run of a handler from
its first action to its suspension or its end; a task that is added while another runs may run inside
it. -/

namespace Multiplex.Session

def maxStream : Nat := 0x7fffffff

/-! ### Actions -/

/-- Reads the next part of the peer's message on a stream. -/
def readPart (s : Session) (stream : Stream) : Session × Option Inbound :=
  let (stream, part, frames) := stream.read
  (s.update stream frames, part)

/-- Reads all parts of the peer's message that are there. -/
def readParts (s : Session) (stream : Stream) : Session × List Inbound :=
  let (stream, parts, frames) := stream.readUpTo stream.input.length
  (s.update stream frames, parts)

/-- Sends what a stream lets its handler send. -/
def send (s : Session) : Except StreamError (Stream × List Outgoing) → Session × Reply
  | .ok (stream, frames) => (s.update stream frames, .sent)
  | .error e => (s, .refused e)

/-- Why a stream may not start a push. -/
def pushError? (s : Session) (stream : Stream) : Option StreamError :=
  if stream.isPushed then some .notPushCapable
  else if !s.alive then some .aborted
  else if s.isDraining then some .pushRefused
  else if stream.aborted then some .aborted
  else if stream.finalSent || !s.mayPush || s.peerLeaving || maxStream < s.nextPush then
    some .pushRefused
  else none

/-- Promises the peer a stream that goes with `stream`, and adds it. -/
def promise (s : Session) (stream : Stream) (list : List Header) (priority : Nat) : Session :=
  let id := s.nextPush
  let s := { s with nextPush := id + 2 }.queue (.pushPromise stream.id id list) stream.priority
  s.addStream (s.newStream id stream.id (min priority Priority.lowest)) list true

/-- Takes an action on a stream. The task of a stream that it pushes is handed to `launch`. -/
def perform (launch : Nat → Session → Session) (s : Session) (stream : Stream) :
    Action → Session × Reply
  | .info => (s, .info stream.id stream.parent stream.priority stream.isPushed)
  | .read _ => (s.readPart stream).map id .input
  | .readAll => (s.readParts stream).map id .inputs
  | .headers list final => s.send (stream.sendHeaders list final)
  | .data bytes final => s.send (stream.sendData bytes final s.pieceLimit)
  | .push list priority =>
    match s.pushError? stream with
    | some e => (s, .refused e)
    | none =>
      -- The number is taken before the outbox is asked, and is gone if that refuses the promise.
      if s.outbox.closed then ({ s with nextPush := s.nextPush + 2 }, .refused .aborted)
      else (launch s.nextPush (s.promise stream list priority), .pushed s.nextPush)

/-! ### Runs -/

/-- Suspends a handler in a step. -/
def park (s : Session) (id index : Nat) (step : Step) (rest : List Step) : Session :=
  { s with parked := s.parked ++ [{ stream := id, index, step, rest }] }

/-- Cancels the task of a stream. -/
def cancel (s : Session) (id : Nat) : Session :=
  let s := s.note (.cancelled id)
  match s.stream? id with
  | some stream => s.setStream stream.abort
  | none => s

/-- Sees to the stream of a handler that has returned: one that is not finished is reset. -/
def returned (s : Session) (id : Nat) : Session :=
  let s := s.note (.ended id)
  match s.stream? id with
  | some stream => if stream.finalSent then s else s.reset stream ErrorCode.internalError
  | none => s

/-- Sees to the stream of a handler that has broken down. -/
def brokeDown (s : Session) (id : Nat) : Session :=
  let s := s.note (.failed id)
  match s.stream? id with
  | some stream => s.reset stream ErrorCode.internalError
  | none => s

/-- Whether a handler suspends in a step on its stream. -/
def suspends (stream : Stream) : Step → Bool
  | .yield | .await => true
  | .act (.read true) => stream.mustWait
  | .act _ | .fail => false

/-- Runs a handler from the step at `index` on until it suspends or ends. The task of a stream that it
    pushes is handed to `launch`. -/
def runFrom (launch : Nat → Session → Session) (id index : Nat) : List Step → Session → Session
  | [], s => s.returned id
  | step :: rest, s =>
    match s.stream? id, step with
    | none, _ => s
    | some _, .fail => s.brokeDown id
    | some stream, .act action =>
      if suspends stream step then s.park id index step rest
      else
        let (s, reply) := perform launch s stream action
        runFrom launch id (index + 1) rest (s.note (.stepped id index step reply))
    | some _, .yield | some _, .await => s.park id index step rest

/-! ### Tasks -/

def script (s : Session) (id : Nat) : List Step :=
  s.handlers.script id ((s.stream? id).any (·.isPushed))

/-- A bound on the tasks that can run before none waits: each step of a waiting task may add one. -/
def backlog (s : Session) : Nat :=
  s.executor.queue.toList.foldl (fun n id => n + 1 + (s.script id).length) 0

/-- Runs up to `count` of the tasks that wait. -/
def drain (run : Nat → Session → Session) : (count : Nat) → Session → Session
  | 0, s => s
  | count + 1, s =>
    match s.executor.next? with
    | none => s
    | some (id, executor) => drain run count (run id { s with executor })

/-- Lets the task of a new stream wait, or cancels it. -/
def addTask (id : Nat) (s : Session) : Session :=
  match s.stream? id with
  | none => s
  | some stream =>
    let s := s.note (.opened id stream.parent stream.priority stream.isPushed)
    if s.executor.stopped then s.cancel id
    else { s with executor := s.executor.enqueue stream.priority id }

/-- Runs a task. The tasks that it adds are handed to `launch`. -/
def runTask (launch : Nat → Session → Session) (id : Nat) (s : Session) : Session :=
  runFrom launch id 0 (s.script id) (s.note (.started id))

/-- Adds the task of a new stream, and if the executor is set to, runs all tasks that wait. The tasks
    that these add are handed to `inner`. -/
def launch (inner : Nat → Session → Session) (id : Nat) (s : Session) : Session :=
  let s := addTask id s
  if s.executor.runsOnAdd then drain (runTask inner) s.backlog s else s

/-- Adds the task of a pushed stream. Pushed streams push no further, so the tasks that run here add
    none that would have to run inside them. -/
def launchPushed (id : Nat) (s : Session) : Session := launch addTask id s

/-- Adds the task of a stream that the peer opened. -/
def spawn (id : Nat) (s : Session) : Session := launch launchPushed id s

/-! ### Suspended handlers -/

/-- Lets a suspended handler go on. One that waits for input reads what there is. -/
def resume (p : Parked) (s : Session) : Session :=
  match s.stream? p.stream with
  | none => s
  | some stream =>
    let (s, reply) :=
      if p.waitsForPoll then (s, .resumed) else (s.readPart stream).map id .input
    runFrom launchPushed p.stream (p.index + 1) p.rest
      (s.note (.stepped p.stream p.index p.step reply))

/-- Lets the handler of a stream go on, if it is suspended in a read that need not wait. -/
def resumeReader (s : Session) (id : Nat) : Session :=
  let waits (p : Parked) := p.stream == id && !p.waitsForPoll
  match s.parked.find? waits, s.stream? id with
  | some p, some stream =>
    if stream.mustWait then s else resume p { s with parked := s.parked.eraseP waits }
  | _, _ => s

/-- Lets all handlers go on that wait for a poll. -/
def resumePolled (s : Session) : Session :=
  let (polled, others) := s.parked.partition (·.waitsForPoll)
  polled.foldl (fun s p => resume p s) { s with parked := others }

/-- Runs tasks as the schedule has it at a poll. -/
def runScheduled (s : Session) : Session :=
  match s.schedule with
  | .eachPoll => drain (runTask launchPushed) s.backlog s
  | .oneEachPoll => drain (runTask launchPushed) 1 s
  | .atOnce | .never => s

/-- Lets suspended handlers go on, the one suspended longest first, up to `count` times. -/
def resumeAll : (count : Nat) → Session → Session
  | 0, s => s
  | count + 1, s =>
    match s.parked with
    | [] => s
    | p :: parked => resumeAll count (resume p { s with parked })

/-- A bound on the times that handlers can go on after the end: each time takes a step. -/
def resumptions (s : Session) : Nat := s.parked.foldl (fun n p => n + 1 + p.rest.length) 0

end Multiplex.Session
