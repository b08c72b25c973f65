import Multiplex.Proofs.Session.Moves
import Multiplex.Session.Run

/-! # The steps of a session

A run of a session is a chain of steps: those of its tasks, and those that the session takes itself
(`Advance`). The tasks take turns with the session: they come in between any two steps, but not into
the middle of one, such as a frame of the peer with all it changes, or a frame taken out of the outbox
with all its wire frames. What holds after every chain of steps holds at every moment of every run,
because a run is such a chain (`reaches_runToEnd`).

Handlers on threads of their own may do things in the middle of a step. The parts into which the steps
then fall are those of `Multiplex.Proofs.Session.Threads`. -/

namespace Multiplex.Session

open Relation (ReflTransGen)

/-! ### What frames do -/

/-- The header table after a frame has been looked at. -/
def tableAfter (s : Session) : Frame → Hpack.Table
  | .headers _ block .. => (Header.decodeBlock s.receiveTable block).1
  | _ => s.receiveTable

/-- What the header block of a frame is read as. -/
def decodedIn (s : Session) : Frame → Except Hpack.Fault (List Header)
  | .headers _ block .. => (Header.decodeBlock s.receiveTable block).2
  | _ => .ok []

/-- What a frame may do to a session that has noted it and has read its header block as `decoded`. -/
inductive Effect (s : Session) (decoded : Except Hpack.Fault (List Header)) : Frame → Session → Prop
  | passed (frame : Frame) : Effect s decoded frame s
  | breach (frame : Frame) : Effect s decoded frame s.protocolError
  | answered (payload : Vector UInt8 8) :
      Effect s decoded (.ping false payload) (s.queue (.frame (.ping true payload)) 0)
  | adopted {params : List Setting} {peer : PeerSettings}
      (allowed : s.peer.applyAll s.version params = .ok peer) :
      Effect s decoded (.settings false params) ((s.adopt peer).queue (.frame (.settings true [])) 0)
  | left (last : Nat) (code : ErrorCode) : Effect s decoded (.goAway last code) { s with peerLeaving := true }
  | crashed {id : Nat} {block : Bytes} {final : Bool} {priority : Option Dependency} {flags : UInt8} :
      Effect s decoded (.headers id block final priority flags) { s with status := .crashed }
  | trailed {id : Nat} {block : Bytes} {priority : Option Dependency} {flags : UInt8} {stream : Stream}
      (found : s.listed? id = some stream) (active : stream.isActive) (going : stream.peerClosed = false)
      {list : List Header} (read : decoded = .ok list) :
      Effect s decoded (.headers id block true priority flags)
        ((s.setStream (stream.acceptHeaders list true)).note (.accepted stream.id (.headers list true)))
  | turnedAway {id : Nat} {block : Bytes} {final : Bool} {priority : Option Dependency} {flags : UInt8}
      (staying : s.goAwaySent = false) (odd : id % 2 ≠ 0) (new : s.lastPeer < id) (rank : Nat) :
      Effect s decoded (.headers id block final priority flags)
        ({ s with lastPeer := id }.queue (.frame (.reset id ErrorCode.refusedStream)) rank)
  | opened {id : Nat} {block : Bytes} {final : Bool} {priority : Option Dependency} {flags : UInt8}
      (staying : s.goAwaySent = false) (odd : id % 2 ≠ 0) (new : s.lastPeer < id)
      (room : s.peerCount < s.config.maxStreams.toNat) (rank : Nat) {list : List Header} (read : decoded = .ok list) :
      Effect s decoded (.headers id block final priority flags)
        (addTask id ({ s with lastPeer := id }.addStream (s.newStream id 0 rank) list final))
  | received {id : Nat} {bytes : Bytes} {final : Bool} {stream stream' : Stream}
      (found : s.active? id = some stream) (going : stream.peerClosed = false)
      (fits : stream.acceptData bytes final = .ok stream') :
      Effect s decoded (.data id bytes final) ((s.setStream stream').note (.accepted id (.data bytes final)))
  | granted {id increment : Nat} {stream stream' : Stream} {frames : List Outgoing}
      (found : s.active? id = some stream) (positive : 0 < increment)
      (fits : stream.grant increment = .ok (stream', frames)) :
      Effect s decoded (.windowUpdate id increment) ((s.note (.granted id increment)).update stream' frames)
  | offended {frame : Frame} {stream : Stream} (found : s.active? frame.stream = some stream)
      {code : ErrorCode} (other : code ≠ ErrorCode.refusedStream) : Effect s decoded frame (s.reset stream code)
  | hungUp {id : Nat} {stream : Stream} (found : s.listed? id = some stream) (code : ErrorCode) :
      Effect s decoded (.reset id code) (s.setStream stream.abort)

theorem effect_onTrailers (s : Session) {id : Nat} {block : Bytes} {final : Bool}
    {priority : Option Dependency} {flags : UInt8} {stream : Stream} (found : s.listed? id = some stream)
    (decoded : Except Hpack.Fault (List Header)) :
    Effect s decoded (.headers id block final priority flags) (s.onTrailers stream decoded final) := by
  unfold onTrailers
  split
  · exact .breach _
  · next allowed =>
    obtain ⟨⟨rfl, active⟩, going⟩ : (final = true ∧ stream.isActive = true) ∧ stream.peerClosed = false := by
      simpa using allowed
    split
    · exact .trailed found active going rfl
    · exact .breach _

theorem effect_onDecoded (s : Session) (id : Nat) (block : Bytes) (final : Bool)
    (priority : Option Dependency) (flags : UInt8) (decoded : Except Hpack.Fault (List Header)) :
    Effect s decoded (.headers id block final priority flags)
      (onDecoded addTask s id decoded final priority flags) := by
  unfold onDecoded
  split
  · next found => exact effect_onTrailers s found decoded
  · split
    · exact .passed _
    · next staying =>
      split
      · exact .breach _
      · next allowed =>
        obtain ⟨odd, new, -⟩ : ¬ id % 2 = 0 ∧ ¬ id ≤ s.lastPeer ∧ ¬ flags &&& ~~~Flag.allowedOnHeaders ≠ 0 := by
          simpa only [not_or] using allowed
        split
        · exact .breach _
        · unfold openStream
          dsimp only
          split
          · exact .turnedAway (by simpa using staying) odd (Nat.lt_of_not_le new) _
          · next room => exact .opened (by simpa using staying) odd (Nat.lt_of_not_le new) (Nat.lt_of_not_le room) _ rfl

theorem effect_onData (s : Session) (decoded : Except Hpack.Fault (List Header)) (id : Nat) (bytes : Bytes) (final : Bool) :
    Effect s decoded (.data id bytes final) (s.onData id bytes final) := by
  unfold onData
  split
  · exact .breach _
  · next found =>
    split
    · exact .offended found (by decide)
    · next going =>
      split
      · next fits => exact .received found (by simpa using going) fits
      · exact .offended found (by decide)

theorem effect_onWindowUpdate (s : Session) (decoded : Except Hpack.Fault (List Header)) (id increment : Nat) :
    Effect s decoded (.windowUpdate id increment) (s.onWindowUpdate id increment) := by
  unfold onWindowUpdate
  split
  · exact .breach _
  split
  · exact .passed _
  split
  · exact .breach _
  next positive =>
  split
  · exact .passed _
  · next found =>
    split
    · next fits => exact .granted found (Nat.pos_of_ne_zero positive) fits
    · exact .offended found (by decide)

/-- A frame has one of the effects, once it has been noted and its header block has been looked at. -/
theorem effect_dispatch (s : Session) (frame : Frame) :
    Effect { s.note (.dispatched frame) with receiveTable := s.tableAfter frame } (s.decodedIn frame) frame
      (dispatch addTask s frame) := by
  unfold dispatch
  dsimp only
  cases frame with
  | ping ack payload =>
    cases ack with
    | false => exact .answered payload
    | true => exact .passed _
  | settings ack params =>
    cases ack with
    | false =>
      unfold onSettings
      dsimp only
      split
      · next allowed => exact .adopted allowed
      · exact .breach _
    | true => exact .passed _
  | headers id block final priority flags =>
    unfold onHeaders
    dsimp only
    split
    · exact .crashed
    · exact effect_onDecoded _ id block final priority flags _
  | data id bytes final => exact effect_onData _ _ id bytes final
  | windowUpdate id increment => exact effect_onWindowUpdate _ _ id increment
  | reset id code =>
    unfold onReset
    dsimp only
    split
    · next found => exact .hungUp found code
    · exact .passed _
  | goAway last code => exact .left last code
  | pushPromise => exact .breach _

/-- All that depends on what becomes of new tasks is the end of a frame that opens a stream. -/
theorem dispatch_launch (launch : Nat → Session → Session) (s : Session) (frame : Frame) :
    dispatch launch s frame = dispatch addTask s frame ∨
      ∃ id u, dispatch addTask s frame = addTask id u ∧ dispatch launch s frame = launch id u := by
  -- Only HEADERS can open a stream, and only on the last of the ways that they may go.
  cases frame with
  | headers id block final priority flags =>
    unfold dispatch onHeaders
    dsimp only
    split
    · exact .inl rfl
    · unfold onDecoded
      split
      · exact .inl rfl
      · split
        · exact .inl rfl
        · split
          · exact .inl rfl
          · split
            · exact .inl rfl
            · unfold openStream
              dsimp only
              split
              · exact .inl rfl
              · exact .inr ⟨_, _, rfl, rfl⟩
  | ping ack => cases ack <;> exact .inl rfl
  | settings ack => cases ack <;> exact .inl rfl
  | _ => exact .inl rfl

/-- The task of a stream that a frame opens takes its steps after the frame has had its effect. -/
theorem moves_dispatch {launch : Nat → Session → Session} (launches : Launches launch) (s : Session)
    (frame : Frame) : Moves (dispatch addTask s frame) (dispatch launch s frame) := by
  rcases dispatch_launch launch s frame with same | ⟨id, u, added, launched⟩
  · exact same ▸ .refl
  · rw [added, launched]
    exact launches id u

/-- What a frame changes beside what tasks may touch. -/
def Limited (s t : Session) : Prop :=
  Kept { s with peer := t.peer, newWindow := t.newWindow, pieceLimit := t.pieceLimit, mayPush := t.mayPush,
                lastPeer := t.lastPeer, goAwaySent := t.goAwaySent, peerLeaving := t.peerLeaving,
                status := t.status } t

theorem Kept.limited {s u t : Session} (kept : Kept u t)
    (near : u = { s with peer := u.peer, newWindow := u.newWindow, pieceLimit := u.pieceLimit, mayPush := u.mayPush,
                         lastPeer := u.lastPeer, goAwaySent := u.goAwaySent, peerLeaving := u.peerLeaving,
                         status := u.status }) : Limited s t := by
  have peer : t.peer = u.peer := by rw [kept.rest]
  have newWindow : t.newWindow = u.newWindow := by rw [kept.rest]
  have pieceLimit : t.pieceLimit = u.pieceLimit := by rw [kept.rest]
  have mayPush : t.mayPush = u.mayPush := by rw [kept.rest]
  have lastPeer : t.lastPeer = u.lastPeer := by rw [kept.rest]
  have goAwaySent : t.goAwaySent = u.goAwaySent := by rw [kept.rest]
  have peerLeaving : t.peerLeaving = u.peerLeaving := by rw [kept.rest]
  have status : t.status = u.status := kept.status
  rw [Limited, peer, newWindow, pieceLimit, mayPush, lastPeer, goAwaySent, peerLeaving, status, ← near]
  exact kept

theorem limited_sendGoAway (s : Session) (code : ErrorCode) : Limited s (s.sendGoAway code) := by
  unfold sendGoAway
  split
  · exact (Kept.refl s).limited rfl
  · exact (Kept.queue _ _).limited rfl

theorem Effect.limited {s t : Session} {decoded : Except Hpack.Fault (List Header)} {frame : Frame}
    (h : Effect s decoded frame t) : Limited s t := by
  cases h with
  | passed => exact (Kept.refl s).limited rfl
  | breach => exact limited_sendGoAway s _
  | answered | adopted | turnedAway => exact (Kept.queue _ _).limited rfl
  | left | crashed => exact (Kept.refl _).limited rfl
  | trailed => exact ((Kept.setStream _).trans (.note rfl)).limited rfl
  | opened => exact ((Kept.addStream ..).trans (.addTask _)).limited rfl
  | received => exact ((Kept.setStream _).trans (.note rfl)).limited rfl
  | granted => exact ((Kept.note rfl).trans (.update ..)).limited rfl
  | offended => exact (Kept.reset ..).limited rfl
  | hungUp => exact (Kept.setStream _).limited rfl

/-! ### Steps -/

/-- A step of a session or of one of its tasks. -/
inductive Advance : Session → Session → Prop
  | moved {s t : Session} (h : Move s t) : Advance s t
  | began {s : Session} (ready : s.status = .ready) :
      Advance s ({ s with status := .running }.write
        ((Frame.settings false (s.config.params s.version)).encode 0) .initialWriteFailed)
  | polled {s : Session} (running : s.status = .running) : Advance s (s.note .polled)
  | counted {s : Session} (running : s.status = .running) :
      Advance s { s with transport := s.transport.poll }
  | arrived {s : Session} (running : s.status = .running) {arrival : Arrival} {arrivals : List Arrival}
      (next : s.transport.arrivals = arrival :: arrivals) :
      Advance s { s with transport := { s.transport with arrivals } }
  | read {s : Session} (running : s.status = .running) (wait : Bool) (status : ReadStatus)
      {reader : Frame.Reader} (fed : reader = s.reader ∨ ∃ bytes, reader = s.reader.feed bytes) :
      Advance s ({ s with reader }.note (.read wait status reader.decoder.failure))
  | dispatched {s : Session} (running : s.status = .running) {frame : Frame} {reader : Frame.Reader}
      (next : s.reader.next? = some (frame, reader)) :
      Advance s (dispatch addTask { s with reader } frame)
  | wentAway {s : Session} (running : s.status = .running) (code : ErrorCode) :
      Advance s (s.sendGoAway code)
  | pruned {s : Session} (running : s.status = .running) : Advance s s.prune
  | wrote {s : Session} (running : s.status = .running) {f : Outgoing} {outbox : Outbox}
      (next : s.outbox.pop? = some (f, outbox)) :
      Advance s ({ s with outbox }.writeOutgoing f)
  | gone {s : Session} (running : s.status = .running) (gone : s.transport.isGone) :
      Advance s (s.stop .peerGone)
  | finished {s : Session} (running : s.status = .running) (announced : s.goAwaySent) (idle : s.isIdle) :
      Advance s (s.stop .finished)
  | closed {s : Session} {reason : StopReason} (stopped : s.status = .stopped reason) :
      Advance s { s with outbox := s.outbox.close }.abortListed
  /-- The executor stops, and cancels the tasks that wait. -/
  | halted {s : Session} (closed : s.outbox.closed) :
      Advance s (s.executor.stop.2.foldl cancel { s with executor := s.executor.stop.1 })

/-- A chain of steps. What a session reaches is a moment of one of its runs. -/
def Reaches : Session → Session → Prop := ReflTransGen Advance

namespace Reaches
variable {s t u : Session}

theorem refl (s : Session) : Reaches s s := ReflTransGen.refl

theorem trans (first : Reaches s t) (second : Reaches t u) : Reaches s u := ReflTransGen.trans first second

theorem single (h : Advance s t) : Reaches s t := ReflTransGen.single h

theorem of_moves (h : Moves s t) : Reaches s t := by
  induction h with
  | refl => exact .refl s
  | tail _ last ih => exact ih.trans (.single (.moved last))

/-- What holds at first and is kept by each step from a moment holds at every moment. -/
theorem keeps_from {P : Session → Prop} (h : Reaches s t) (first : P s)
    (step : ∀ {u v}, Reaches s u → Advance u v → P u → P v) : P t := by
  induction h with
  | refl => exact first
  | tail earlier last ih => exact step earlier last ih

/-- What holds at first and is kept by each step holds at every moment. -/
theorem keeps {P : Session → Prop} (h : Reaches s t) (first : P s)
    (step : ∀ {s t}, Advance s t → P s → P t) : P t :=
  h.keeps_from first fun _ last => step last

end Reaches

/-! ### Rounds -/

theorem isRunning_iff {s : Session} : s.isRunning ↔ s.status = .running := by simp [isRunning]

/-- The tasks that take their steps when the transport is polled. -/
theorem moves_poll (s : Session) : Moves (s.note .polled) (s.note .polled).resumePolled.runScheduled :=
  (moves_resumePolled _).trans (moves_runScheduled _)

theorem reaches_poll {s : Session} (running : s.status = .running) :
    Reaches s s.poll ∧ s.poll.status = .running := by
  -- The steps of tasks leave the status alone, so the poll is still that of a running session.
  have moves := moves_poll s
  have still : (s.note .polled).resumePolled.runScheduled.status = .running :=
    moves.kept.status.trans running
  exact ⟨(Reaches.single (.polled running)).trans ((Reaches.of_moves moves).trans (.single (.counted still))),
    still⟩

theorem moves_elim_resumeReader (s : Session) (resumes : Option Nat) :
    Moves s (resumes.elim s s.resumeReader) := by
  cases resumes with
  | none => exact .refl
  | some id => exact moves_resumeReader s id

theorem reaches_readMore {s : Session} (running : s.status = .running) (wait : Bool) :
    Reaches s (s.readMore wait).1 ∧ (s.readMore wait).1.status = .running := by
  unfold readMore
  split
  · exact ⟨.single (.read running wait .closed (.inl rfl)), running⟩
  · next a arrivals first =>
    have moves := moves_elim_resumeReader { s with transport := { s.transport with arrivals } } a.resumes
    have still := moves.kept.status.trans running
    refine ⟨((Reaches.single (.arrived running first)).trans (.of_moves moves)).trans
      (.single (.read still wait _ ?_)), still⟩
    split
    · exact .inl rfl
    · exact .inr ⟨a.bytes, rfl⟩

theorem reaches_dispatch {s : Session} (running : s.status = .running) {frame : Frame} {reader : Frame.Reader}
    (next : s.reader.next? = some (frame, reader)) : Reaches s (dispatch spawn { s with reader } frame) :=
  (Reaches.single (.dispatched running next)).trans (.of_moves (moves_dispatch launches_spawn _ frame))

theorem reaches_dispatchUpTo (count : Nat) {s : Session} (running : s.status = .running) :
    Reaches s (dispatchUpTo count s) := by
  induction count generalizing s with
  | zero => exact .refl s
  | succ count ih =>
    unfold dispatchUpTo
    split
    · exact .refl s
    · next frame reader next =>
      have taken := reaches_dispatch running next
      dsimp only
      split
      · next still => exact taken.trans (ih (by simpa [isRunning] using still))
      · exact taken

theorem reaches_sendGoAway {s : Session} (running : s.status = .running) (code : ErrorCode) :
    Reaches s (s.sendGoAway code) := .single (.wentAway running code)

theorem reaches_takeInput {s : Session} (running : s.status = .running) (status : ReadStatus) :
    Reaches s (s.takeInput status) := by
  have taken : Reaches s s.dispatchReady := reaches_dispatchUpTo _ running
  unfold takeInput
  dsimp only
  split
  · exact taken
  · next still =>
    replace still : s.dispatchReady.status = .running := by simpa [isRunning] using still
    cases status with
    | success => exact taken
    | error => exact taken.trans (reaches_sendGoAway still _)
    | closed =>
      have pruned : Reaches s s.dispatchReady.prune := taken.trans (.single (.pruned still))
      dsimp only
      split
      · exact pruned.trans (reaches_sendGoAway (s := s.dispatchReady.prune) still _)
      · exact pruned

theorem reaches_flushUpTo (count : Nat) {s : Session} (running : s.status = .running) :
    Reaches s (flushUpTo count s) := by
  induction count generalizing s with
  | zero => exact .refl s
  | succ count ih =>
    unfold flushUpTo
    split
    · exact .refl s
    · next f outbox next =>
      have written : Reaches s ({ s with outbox }.writeOutgoing f) := .single (.wrote running next)
      dsimp only
      split
      · next still => exact written.trans (ih (by simpa [isRunning] using still))
      · exact written

theorem reaches_flush {s : Session} (running : s.status = .running) : Reaches s s.flush :=
  reaches_flushUpTo _ running

theorem reaches_round {s : Session} (running : s.status = .running) : Reaches s.poll s.round := by
  obtain ⟨-, polled⟩ := reaches_poll running
  unfold round
  dsimp only
  split
  · next gone => exact .single (.gone polled gone)
  have pruned : Reaches s.poll s.poll.prune := .single (.pruned polled)
  split
  · next done =>
    obtain ⟨idle, announced⟩ : s.poll.prune.isIdle = true ∧ s.poll.prune.goAwaySent = true := by
      simpa using done
    exact pruned.trans (.single (.finished (s := s.poll.prune) polled announced idle))
  obtain ⟨read, still⟩ := reaches_readMore (s := s.poll.prune) polled s.poll.prune.isIdle
  have taken := (pruned.trans read).trans (reaches_takeInput still (s.poll.prune.readMore s.poll.prune.isIdle).2)
  split
  · exact taken
  next going =>
  have flushed := taken.trans (reaches_flush (by simpa [isRunning] using going))
  split
  · exact flushed
  next going =>
  replace going := by simpa [isRunning] using going
  -- The round ends as it began, with the streams that are over taken from the list.
  have pruned := flushed.trans (.single (.pruned going))
  split
  · next done =>
    obtain ⟨announced, idle⟩ := Bool.and_eq_true_iff.mp done
    exact pruned.trans (.single (.finished going announced idle))
  · exact pruned

/-! ### The end of the rounds -/

/-- The polls that a session has made do not go down, and how many its peer outlives stays the same. -/
def Clock (s t : Session) : Prop :=
  s.transport.polls ≤ t.transport.polls ∧ t.transport.patience = s.transport.patience

theorem Clock.refl (s : Session) : Clock s s := ⟨Nat.le_refl _, rfl⟩

theorem Clock.trans {s t u : Session} (first : Clock s t) (second : Clock t u) : Clock s u :=
  ⟨Nat.le_trans first.1 second.1, second.2.trans first.2⟩

theorem Clock.of_transport {s t : Session} (same : t.transport = s.transport) : Clock s t := by
  simp [Clock, same]

theorem clock_write (s : Session) (bytes : Bytes) (reason : StopReason) :
    Clock s (s.write bytes reason) := by
  unfold write Transport.write
  split
  · next transport written =>
    split at written
    · cases written
    · cases written
      exact ⟨Nat.le_refl _, rfl⟩
  · exact .refl s

theorem clock_writeAll (frames : List Bytes) (s : Session) : Clock s (writeAll frames s) := by
  induction frames generalizing s with
  | nil => exact .refl s
  | cons bytes rest ih =>
    unfold writeAll
    dsimp only
    split
    · exact (clock_write ..).trans (ih _)
    · exact clock_write ..

theorem clock_writeOutgoing (s : Session) (f : Outgoing) : Clock s (s.writeOutgoing f) :=
  let table := (f.wire s.peer.maxFrame s.sendTable).1
  clock_writeAll (f.wire s.peer.maxFrame s.sendTable).2 (note { s with sendTable := table } (.taken f))

theorem Kept.foldl_cancel (ids : List Nat) (s : Session) : Kept s (ids.foldl Session.cancel s) := by
  induction ids generalizing s with
  | nil => exact .refl s
  | cons id rest ih => exact (Kept.cancel id).trans (ih _)

theorem Limited.transport {s t : Session} (limited : Limited s t) : t.transport = s.transport :=
  (Kept.transport limited).trans rfl

theorem Advance.clock {s t : Session} (h : Advance s t) : Clock s t := by
  cases h with
  | moved h => exact .of_transport h.kept.transport
  | began => exact clock_write ({ s with status := .running }) _ _
  | counted => exact ⟨Nat.le_succ _, rfl⟩
  | dispatched => exact .of_transport (effect_dispatch _ _).limited.transport
  | wentAway => exact .of_transport (limited_sendGoAway s _).transport
  | @wrote running f outbox next => exact clock_writeOutgoing { s with outbox } f
  | halted => exact .of_transport (Kept.foldl_cancel _ _).transport
  | _ => exact ⟨Nat.le_refl _, rfl⟩

theorem Reaches.clock {s t : Session} (h : Reaches s t) : Clock s t := by
  induction h with
  | refl => exact .refl s
  | tail _ last ih => exact ih.trans last.clock

theorem polls_round {s : Session} (running : s.status = .running) :
    s.transport.polls < s.round.transport.polls ∧ s.round.transport.patience = s.transport.patience := by
  have polled : s.poll.transport = s.transport.poll := congrArg Transport.poll (moves_poll s).kept.transport
  have rest := (reaches_round running).clock
  simp only [Clock, polled, Transport.poll] at rest
  exact rest

/-- A session whose peer is gone stops in the next round. -/
theorem round_of_gone {s : Session} (gone : s.transport.patience ≤ s.transport.polls) :
    s.round.status = .stopped .peerGone := by
  have polled : s.poll.transport = s.transport.poll := congrArg Transport.poll (moves_poll s).kept.transport
  unfold round
  dsimp only
  rw [if_pos]
  · rfl
  · simp only [polled, Transport.isGone, Transport.poll, decide_eq_true_eq]
    omega

/-- Rounds come to an end. -/
theorem rounds_stop (count : Nat) {s : Session} (running : s.status = .running)
    (enough : s.transport.patience ≤ s.transport.polls + count) :
    Reaches s (rounds (count + 1) s) ∧ (rounds (count + 1) s).status ≠ .running := by
  induction count generalizing s with
  | zero =>
    have stopped := round_of_gone enough
    have went : Reaches s s.round := (reaches_poll running).1.trans (reaches_round running)
    simp [rounds, isRunning, stopped, went]
  | succ count ih =>
    have went : Reaches s s.round := (reaches_poll running).1.trans (reaches_round running)
    obtain ⟨later, same⟩ := polls_round running
    rw [rounds]
    split
    · next still =>
      obtain ⟨rest, done⟩ := ih (s := s.round) (by simpa [isRunning] using still) (by omega)
      exact ⟨went.trans rest, done⟩
    · next done => exact ⟨went, by simpa [isRunning] using done⟩

/-! ### Runs -/

theorem status_write (s : Session) (bytes : Bytes) (reason : StopReason) :
    (s.write bytes reason).status = s.status ∨ (s.write bytes reason).status = .stopped reason := by
  unfold write
  split
  · exact .inl rfl
  · exact .inr rfl

theorem status_writeAll (frames : List Bytes) (s : Session) :
    (writeAll frames s).status = s.status ∨ (writeAll frames s).status = .stopped .writeFailed := by
  induction frames generalizing s with
  | nil => exact .inl rfl
  | cons bytes rest ih =>
    unfold writeAll
    dsimp only
    rcases status_write s bytes .writeFailed with same | stopped
    · split
      · exact same ▸ ih _
      · exact .inl same
    · rw [if_neg (by simp [isRunning, stopped])]
      exact .inr stopped

theorem status_sendGoAway (s : Session) (code : ErrorCode) : (s.sendGoAway code).status = s.status := by
  unfold sendGoAway
  split
  · rfl
  · exact (Kept.queue ..).status

theorem streams_sendGoAway (s : Session) (code : ErrorCode) : (s.sendGoAway code).streams = s.streams := by
  unfold sendGoAway
  split
  · rfl
  · exact streams_queue ..

theorem Effect.status {s t : Session} {decoded : Except Hpack.Fault (List Header)} {frame : Frame}
    (h : Effect s decoded frame t) :
    t.status = s.status ∨ t.status = .crashed := by
  cases h with
  | crashed => exact .inr rfl
  | breach => exact .inl (status_sendGoAway s _)
  | passed | left => exact .inl rfl
  | answered | adopted | turnedAway => exact .inl (Kept.queue ..).status
  | trailed | received | hungUp => exact .inl rfl
  | opened => exact .inl ((Kept.addStream ..).trans (.addTask _)).status
  | granted => exact .inl ((Kept.note rfl).trans (.update ..)).status
  | offended => exact .inl (Kept.reset ..).status

theorem status_dispatch (s : Session) (frame : Frame) :
    (dispatch addTask s frame).status = s.status ∨ (dispatch addTask s frame).status = .crashed :=
  (effect_dispatch s frame).status

theorem status_writeOutgoing (s : Session) (f : Outgoing) :
    (s.writeOutgoing f).status = s.status ∨ (s.writeOutgoing f).status = .stopped .writeFailed :=
  let table := (f.wire s.peer.maxFrame s.sendTable).1
  status_writeAll (f.wire s.peer.maxFrame s.sendTable).2 (note { s with sendTable := table } (.taken f))

theorem Advance.begun {s t : Session} (h : Advance s t) (begun : s.status ≠ .ready) : t.status ≠ .ready := by
  cases h with
  | moved h => rwa [h.kept.status]
  | began ready => exact absurd ready begun
  | @dispatched running frame reader next =>
    rcases status_dispatch { s with reader } frame with same | crashed
    · rwa [same]
    · simp [crashed]
  | wentAway => rwa [status_sendGoAway]
  | @wrote running f outbox next =>
    rcases status_writeOutgoing { s with outbox } f with same | stopped
    · rwa [same]
    · simp [stopped]
  | gone | finished => nofun
  | halted => rwa [(Kept.foldl_cancel _ _).status]
  | _ => exact begun

theorem reaches_serve {s : Session} (ready : s.status = .ready) :
    Reaches s s.serve ∧ s.serve.status ≠ .running ∧ s.serve.status ≠ .ready := by
  have began := Reaches.single (.began ready)
  unfold serve
  dsimp only
  split
  · next still =>
    replace still := isRunning_iff.mp still
    obtain ⟨rest, done⟩ := rounds_stop _ still (Nat.le_add_left ..)
    exact ⟨began.trans rest, done, rest.keeps (by simp [still]) Advance.begun⟩
  · next done =>
    have begun (bytes : Bytes) (reason : StopReason) :
        ({ s with status := .running }.write bytes reason).status ≠ .ready := by
      rcases status_write { s with status := .running } bytes reason with same | stopped
      · simp [same]
      · simp [stopped]
    exact ⟨began, mt isRunning_iff.mpr done, begun _ _⟩

theorem reaches_shutDown {s : Session} {reason : StopReason} (stopped : s.status = .stopped reason) :
    Reaches s s.shutDown := by
  have closed : Reaches s { s with outbox := s.outbox.close }.abortListed := .single (.closed stopped)
  exact (closed.trans (.single (.halted rfl))).trans (.of_moves (moves_resumeAll _ _))

/-- Once the executor has stopped, only tasks take steps. -/
theorem kept_shutDown (s : Session) :
    let u := { s with outbox := s.outbox.close }.abortListed
    Kept { u with executor := u.executor.stop.1 } s.shutDown :=
  (Kept.foldl_cancel _ _).trans (moves_resumeAll _ _).kept

/-- A run of a session is a chain of steps. -/
theorem reaches_runToEnd (s : Session) : Reaches s s.runToEnd := by
  unfold runToEnd
  split
  · next ready =>
    obtain ⟨served, done, begun⟩ := reaches_serve ready
    dsimp only
    split
    · exact served
    · next going =>
      obtain ⟨reason, stopped⟩ : ∃ reason, s.serve.status = .stopped reason := by
        cases found : s.serve.status with
        | ready => exact absurd found begun
        | running => exact absurd found done
        | stopped reason => exact ⟨reason, rfl⟩
        | crashed => exact absurd found going
      exact served.trans (reaches_shutDown stopped)
  · exact .refl s

end Multiplex.Session
