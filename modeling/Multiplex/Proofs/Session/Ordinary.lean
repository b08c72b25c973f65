import Mathlib.Data.List.Infix
import Multiplex.Proofs.Session.Lanes
import Multiplex.Proofs.Stream.Ledger

/-! # Ordinary steps

Most steps of a session take in no frame and no part of a message, open no stream and turn none away, and do
not announce the end: they are ordinary. Every other step starts a push, takes in a frame, or announces the end
(`Advance.ordinary`). -/

namespace Multiplex

/-- Whether a frame may go into the outbox in an ordinary step. -/
def Outgoing.isOrdinary : Outgoing → Bool
  | .frame (.goAway ..) | .pushPromise .. => false
  | .frame (.reset _ code) => code != ErrorCode.refusedStream
  | _ => true

/-- Whether an event may happen in an ordinary step. -/
def Event.isOrdinary : Event → Bool
  | .dispatched _ | .opened .. | .accepted .. => false
  | .queued f => f.isOrdinary
  | _ => true

/-- Whether a frame is a part of a reply, or grants the peer what was read of its message. -/
def Outgoing.isSpoken : Outgoing → Bool
  | .frame (.windowUpdate ..) => true
  | f => f.isMessage

theorem Outgoing.isOrdinary_of_isSpoken {f : Outgoing} (spoken : f.isSpoken) : f.isOrdinary := by
  cases f with
  | frame frame => cases frame <;> first | rfl | cases spoken
  | headers => rfl
  | pushPromise => cases spoken

theorem Outgoing.isSpoken_of_isData {f : Outgoing} (data : f.isData) : f.isSpoken := by
  cases f with
  | frame frame => cases frame <;> first | rfl | cases data
  | headers | pushPromise => cases data

/-! ### Journals -/

/-- Each event of a journal is right after those before it. -/
def Chronicle (right : List Event → Event → Prop) (journal : List Event) : Prop :=
  ∀ front e, front ++ [e] <+: journal → right front e

section Chronicle
variable {right : List Event → Event → Prop} {journal : List Event} {e : Event}

theorem chronicle_nil : Chronicle right [] := fun front e early => by
  simpa using List.prefix_nil.mp early

theorem Chronicle.of_prefix {front : List Event} (chronicle : Chronicle right journal) (early : front <+: journal) :
    Chronicle right front := fun front' e' prior => chronicle front' e' (prior.trans early)

theorem Chronicle.concat (chronicle : Chronicle right journal) (last : right journal e) :
    Chronicle right (journal ++ [e]) := by
  intro front e' early
  rcases List.prefix_concat_iff.mp early with whole | before
  · obtain ⟨rfl, single⟩ := List.append_inj' whole rfl
    obtain rfl := List.singleton_inj.mp single
    exact last
  · exact chronicle front e' before

theorem Chronicle.of_mem (chronicle : Chronicle right journal) (member : e ∈ journal) :
    ∃ front, front ++ [e] <+: journal ∧ right front e := by
  obtain ⟨front, back, split⟩ := List.mem_iff_append.mp member
  have early : front ++ [e] <+: journal := ⟨back, split ▸ List.append_assoc ..⟩
  exact ⟨front, early, chronicle front e early⟩

/-- Events that are right after anything may follow. -/
theorem Chronicle.append (chronicle : Chronicle right journal) {events : List Event}
    (all : ∀ e ∈ events, ∀ front, right front e) : Chronicle right (journal ++ events) := by
  induction events generalizing journal with
  | nil => rwa [List.append_nil]
  | cons e rest ih =>
    obtain ⟨first, others⟩ := List.forall_mem_cons.mp all
    rw [List.append_cons]
    exact ih (chronicle.concat (first journal)) others

end Chronicle

namespace Session

variable {s t u : Session}

/-- An action that starts no push changes nothing, or puts the stream in its place with what it sends. -/
theorem perform_update {stream : Stream} {action : Action} (plain : s.pushes stream action = false) :
    (perform addTask s stream action).1 = s ∨ ∃ stream' frames,
      (perform addTask s stream action).1 = s.update stream' frames ∧ stream'.id = stream.id ∧ stream.Ages stream' ∧
        ∀ f ∈ frames, f.isSpoken := by
  cases action with
  | info => exact .inl rfl
  | read =>
    have reads := Stream.reads_read stream
    refine .inr ⟨_, _, rfl, reads.id, reads.ages, fun f member => ?_⟩
    obtain ⟨increment, rfl⟩ := Stream.frames_read stream f member
    rfl
  | readAll =>
    have reads := Stream.reads_readUpTo stream.input.length stream
    refine .inr ⟨_, _, rfl, reads.id, reads.ages, fun f member => ?_⟩
    obtain ⟨increment, rfl⟩ := Stream.frames_readUpTo _ stream f member
    rfl
  | headers list final =>
    unfold perform send
    dsimp only
    split
    · next allowed =>
      have ages := Stream.ages_sendHeaders allowed
      obtain ⟨-, -, -, rfl, rfl⟩ := Stream.of_sendHeaders allowed
      exact .inr ⟨_, _, rfl, rfl, ages, List.forall_mem_singleton.mpr rfl⟩
    · exact .inl rfl
  | data bytes final =>
    unfold perform send
    dsimp only
    split
    · next allowed =>
      have ages := Stream.ages_sendData allowed
      have acts := Stream.acts_sendData allowed
      obtain ⟨-, -, -, released⟩ := Stream.of_sendData allowed
      obtain ⟨-, rfl⟩ := Prod.mk.inj released
      exact .inr ⟨_, _, rfl, acts.id, ages, fun f member => Outgoing.isSpoken_of_isData (Stream.isData_release _ f member)⟩
    · exact .inl rfl
  | push list priority =>
    -- The push is refused, and so changes nothing.
    obtain ⟨e, refused⟩ : ∃ e, s.pushError? stream = some e := by
      simpa [pushes, Option.isSome_iff_exists] using plain
    exact .inl (by simp only [perform, refused])

/-! ### Ordinary changes -/

/-- What an ordinary step changes leaves the numbers of the streams and the receiver's table alone. -/
structure Ordinary (s t : Session) : Prop where
  rest : t.lastPeer = s.lastPeer ∧ t.nextPush = s.nextPush ∧ t.goAwaySent = s.goAwaySent ∧
    t.receiveTable = s.receiveTable
  ids : t.streams.map (·.id) = s.streams.map (·.id)
  journal : ∃ events, t.journal = s.journal ++ events ∧ ∀ e ∈ events, e.isOrdinary

namespace Ordinary

/-- A change that notes nothing. -/
theorem of_journal (rest : t.lastPeer = s.lastPeer ∧ t.nextPush = s.nextPush ∧ t.goAwaySent = s.goAwaySent ∧
      t.receiveTable = s.receiveTable) (ids : t.streams.map (·.id) = s.streams.map (·.id))
    (same : t.journal = s.journal) : Ordinary s t :=
  ⟨rest, ids, [], same.trans (List.append_nil _).symm, nofun⟩

/-- A change beside all that matters here. -/
theorem beside (same : t = { s with
      transport := t.transport, reader := t.reader, sendTable := t.sendTable, peer := t.peer,
      newWindow := t.newWindow, pieceLimit := t.pieceLimit, mayPush := t.mayPush, outbox := t.outbox,
      listed := t.listed, peerLeaving := t.peerLeaving, executor := t.executor, parked := t.parked,
      status := t.status }) : Ordinary s t := by
  rw [same]
  exact of_journal ⟨rfl, rfl, rfl, rfl⟩ rfl rfl

theorem refl (s : Session) : Ordinary s s := beside rfl

theorem trans (first : Ordinary s t) (second : Ordinary t u) : Ordinary s u where
  rest := by
    obtain ⟨lastPeer, nextPush, goAwaySent, table⟩ := first.rest
    obtain ⟨lastPeer', nextPush', goAwaySent', table'⟩ := second.rest
    exact ⟨lastPeer'.trans lastPeer, nextPush'.trans nextPush, goAwaySent'.trans goAwaySent, table'.trans table⟩
  ids := second.ids.trans first.ids
  journal := by
    obtain ⟨early, split, plain⟩ := first.journal
    obtain ⟨late, split', plain'⟩ := second.journal
    refine ⟨early ++ late, by rw [split', split, List.append_assoc], fun e member => ?_⟩
    exact (List.mem_append.mp member).elim (plain e) (plain' e)

theorem note {e : Event} (plain : e.isOrdinary) : Ordinary s (s.note e) :=
  ⟨⟨rfl, rfl, rfl, rfl⟩, rfl, [e], rfl, by simpa using plain⟩

theorem setStream (stream : Stream) : Ordinary s (s.setStream stream) := by
  refine of_journal ⟨rfl, rfl, rfl, rfl⟩ ?_ rfl
  rw [Session.setStream, List.map_map]
  refine List.map_congr_left fun old _ => ?_
  dsimp only [Function.comp_apply]
  split
  · next same => exact same.symm
  · rfl

theorem queue {f : Outgoing} (plain : f.isOrdinary) (priority : Nat) :
    Ordinary s (s.queue f priority) := by
  unfold Session.queue
  split
  · exact refl s
  · exact (beside (s := s) (t := { s with outbox := s.outbox.push f priority }) rfl).trans (note plain)

theorem queueAll {frames : List Outgoing} (plain : ∀ f ∈ frames, f.isOrdinary) (priority : Nat) :
    Ordinary s (s.queueAll frames priority) := by
  unfold Session.queueAll
  induction frames generalizing s with
  | nil => exact refl s
  | cons f rest ih =>
    obtain ⟨first, others⟩ := List.forall_mem_cons.mp plain
    exact (queue first priority).trans (ih others)

theorem update (stream : Stream) {frames : List Outgoing} (plain : ∀ f ∈ frames, f.isOrdinary) :
    Ordinary s (s.update stream frames) := (setStream stream).trans (queueAll plain stream.priority)

theorem reset (stream : Stream) {code : ErrorCode} (other : code ≠ ErrorCode.refusedStream) :
    Ordinary s (s.reset stream code) := by
  have plain : ∀ f ∈ (stream.reset code).2, f.isOrdinary := by
    unfold Stream.reset
    split
    · simpa [Outgoing.isOrdinary] using other
    · nofun
  exact update _ plain

theorem cancel (id : Nat) : Ordinary s (s.cancel id) := by
  unfold Session.cancel
  dsimp only
  split
  · exact (note rfl).trans (setStream _)
  · exact note rfl

theorem returned (id : Nat) : Ordinary s (s.returned id) := by
  have noted : Ordinary s (s.note (.ended id)) := .note rfl
  unfold Session.returned
  dsimp only
  split
  · split
    · exact noted
    · exact noted.trans (reset _ (by decide))
  · exact noted

theorem brokeDown (id : Nat) : Ordinary s (s.brokeDown id) := by
  have noted : Ordinary s (s.note (.failed id)) := .note rfl
  unfold Session.brokeDown
  dsimp only
  split
  · exact noted.trans (reset _ (by decide))
  · exact noted

theorem readPart (stream : Stream) : Ordinary s (s.readPart stream).1 :=
  update _ fun f member => by
    obtain ⟨increment, rfl⟩ := Stream.frames_read stream f member
    rfl

theorem perform (stream : Stream) {action : Action} (plain : s.pushes stream action = false) :
    Ordinary s (perform addTask s stream action).1 := by
  rcases perform_update plain with same | ⟨stream', frames, same, -, -, spoken⟩
  · rw [same]
    exact refl s
  · rw [same]
    exact update _ fun f member => Outgoing.isOrdinary_of_isSpoken (spoken f member)

theorem write (bytes : Bytes) (reason : StopReason) : Ordinary s (s.write bytes reason) := by
  unfold Session.write
  split
  · next transport _ =>
    exact (beside (s := s) (t := { s with transport }) rfl).trans (note rfl)
  · exact (note rfl).trans (beside rfl)

theorem writeAll (frames : List Bytes) (s : Session) : Ordinary s (writeAll frames s) := by
  induction frames generalizing s with
  | nil => exact refl s
  | cons bytes rest ih =>
    unfold Session.writeAll
    dsimp only
    split
    · exact (write ..).trans (ih _)
    · exact write ..

theorem writeOutgoing (s : Session) (f : Outgoing) : Ordinary s (s.writeOutgoing f) :=
  let table := (f.wire s.peer.maxFrame s.sendTable).1
  have set : Ordinary s { s with sendTable := table } := beside rfl
  (set.trans (note rfl)).trans (writeAll _ _)

theorem foldl_cancel (ids : List Nat) (s : Session) : Ordinary s (ids.foldl Session.cancel s) := by
  induction ids generalizing s with
  | nil => exact refl s
  | cons id rest ih => exact (cancel id).trans (ih _)

theorem abortListed (s : Session) : Ordinary s s.abortListed := by
  refine of_journal ⟨rfl, rfl, rfl, rfl⟩ ?_ rfl
  rw [Session.abortListed, List.map_map]
  refine List.map_congr_left fun stream _ => ?_
  dsimp only [Function.comp_apply]
  split
  · exact (Stream.acts_abort stream).id
  · rfl

theorem grant {id increment : Nat} {stream stream' : Stream} {frames : List Outgoing}
    (found : s.active? id = some stream) (fits : stream.grant increment = .ok (stream', frames)) :
    Ordinary s ((s.note (.granted id increment)).update stream' frames) := by
  obtain ⟨-, active⟩ := of_active? found
  obtain ⟨-, released⟩ := Stream.of_grant (Stream.isActive_iff.mp active).2 fits
  obtain ⟨-, rfl⟩ := Prod.mk.inj released
  refine (note rfl).trans (update _ fun f member => ?_)
  exact Outgoing.isOrdinary_of_isSpoken (Outgoing.isSpoken_of_isData (Stream.isData_release _ f member))

end Ordinary

/-! ### Steps -/

/-- The steps that are not ordinary. -/
inductive Special (s : Session) : Session → Prop
  | promised {i : Nat} {stream : Stream} (list : List Header) (priority : Nat) (found : s.stream? i = some stream)
      (allowed : s.pushError? stream = none) : Special s (addTask s.nextPush (s.promise stream list priority))
  | dispatched (running : s.status = .running) {frame : Frame} {reader : Frame.Reader}
      (next : s.reader.next? = some (frame, reader)) : Special s (dispatch addTask { s with reader } frame)
  | wentAway (running : s.status = .running) (code : ErrorCode) : Special s (s.sendGoAway code)

theorem Move.ordinary (h : Move s t) : Ordinary s t ∨ Special s t := by
  cases h with
  | promised list priority found allowed => exact .inr (.promised list priority found allowed)
  | @started id executor next =>
    have taken : Ordinary s { s with executor } := .beside rfl
    exact .inl (taken.trans (.note rfl))
  | acted index found plain => exact .inl ((Ordinary.perform _ plain).trans (.note rfl))
  | pushed | resumed => exact .inl (.note rfl)
  | parked | unparked => exact .inl (.beside rfl)
  | woken p found => exact .inl ((Ordinary.readPart _).trans (.note rfl))
  | returned id => exact .inl (.returned id)
  | brokeDown id => exact .inl (.brokeDown id)

/-- A step is ordinary, or it starts a push, takes in a frame, or announces the end. -/
theorem Advance.ordinary (h : Advance s t) : Ordinary s t ∨ Special s t := by
  have besides {t : Session} (same : t = { s with
      transport := t.transport, reader := t.reader, sendTable := t.sendTable, peer := t.peer,
      newWindow := t.newWindow, pieceLimit := t.pieceLimit, mayPush := t.mayPush, outbox := t.outbox,
      listed := t.listed, peerLeaving := t.peerLeaving, executor := t.executor, parked := t.parked,
      status := t.status }) : Ordinary s t := .beside same
  cases h with
  | moved h => exact h.ordinary
  | dispatched running next => exact .inr (.dispatched running next)
  | wentAway running code => exact .inr (.wentAway running code)
  | began => exact .inl ((besides (t := { s with status := .running }) rfl).trans (.write ..))
  | polled => exact .inl (.note rfl)
  | counted | arrived | pruned | gone | finished => exact .inl (.beside rfl)
  | @read running wait status reader fed => exact .inl ((besides (t := { s with reader }) rfl).trans (.note rfl))
  | @wrote running f outbox next => exact .inl ((besides (t := { s with outbox }) rfl).trans (.writeOutgoing _ f))
  | closed => exact .inl ((besides (t := { s with outbox := s.outbox.close }) rfl).trans (.abortListed _))
  | halted => exact .inl ((besides (t := { s with executor := s.executor.stop.1 }) rfl).trans (.foldl_cancel ..))

/-! ### Streams that are reset or opened -/

theorem queue_of_open (hopen : s.outbox.closed = false) (f : Outgoing) (priority : Nat) :
    s.queue f priority =
      { s with outbox := s.outbox.push f priority, journal := s.journal ++ [.queued f] } :=
  if_neg (Bool.eq_false_iff.mp hopen)

theorem stream?_update (s : Session) {stream : Stream} (present : (s.stream? stream.id).isSome)
    (frames : List Outgoing) : (s.update stream frames).stream? stream.id = some stream := by
  rw [stream?, update, streams_queueAll]
  exact stream?_setStream s present

/-- A reset goes out just if the stream goes on. -/
theorem of_reset {id : Nat} {stream : Stream} (found : s.stream? id = some stream)
    (hopen : stream.isActive → s.outbox.closed = false) (code : ErrorCode) :
    (s.reset stream code).journal = s.journal ++ (if stream.isActive then [.queued (.frame (.reset id code))] else []) ∧
      (s.reset stream code).stream? id = some (stream.reset code).1 := by
  have own := id_of_stream? found
  have same : (stream.reset code).1.id = id := (Stream.acts_reset stream code).id.trans own
  refine ⟨?_, ?_⟩
  · unfold reset Stream.reset update queueAll
    by_cases active : stream.isActive
    · simp [active, setStream, queue, hopen active, note, own]
    · simp [active, setStream]
  · have present : (s.stream? (stream.reset code).1.id).isSome := by simp [same, found]
    have set := stream?_update s present (stream.reset code).2
    rwa [same] at set

/-- Opening a stream notes what it took in and that it was opened. -/
theorem addTask_addStream {id : Nat} {stream : Stream} (new : s.stream? id = none) (own : stream.id = id)
    (going : s.executor.stopped = false) (list : List Header) (final : Bool) :
    addTask id (s.addStream stream list final) =
      { s with
        streams := s.streams ++ [stream.acceptHeaders list final], listed := s.listed ++ [id],
        executor := s.executor.enqueue stream.priority id,
        journal := s.journal ++ [.accepted id (.headers list final),
          .opened id stream.parent stream.priority stream.isPushed] } := by
  have acts := (Stream.reads_acceptHeaders stream list final).silent
  unfold addTask
  rw [stream?_addStream new own]
  dsimp only
  rw [if_neg (by simpa [addStream, Session.note] using going), Stream.isPushed, acts.parent, acts.priority]
  simp [addStream, Session.note, own, Stream.isPushed]

/-- A push that is allowed finds the executor going on and its number unused. -/
theorem Stable.unused (stable : s.Stable) (fresh : s.Fresh) {stream : Stream} (allowed : s.pushError? stream = none) :
    s.executor.stopped = false ∧ s.stream? s.nextPush = none := by
  obtain ⟨-, hopen, -⟩ := of_pushError? allowed
  exact ⟨stable.idle hopen, (fresh s.nextPush (by simp [isFresh, stable.pushes.1])).stream⟩

/-- Starting a push notes the promise, the request that goes with it, and that the stream was opened. -/
theorem addTask_promise {stream : Stream} (allowed : s.pushError? stream = none) (idle : s.executor.stopped = false)
    (unused : s.stream? s.nextPush = none) (list : List Header) (priority : Nat) :
    ∃ new : Stream, new.id = s.nextPush ∧ new.pending = [] ∧ addTask s.nextPush (s.promise stream list priority) =
      { s with
        nextPush := s.nextPush + 2,
        outbox := s.outbox.push (.pushPromise stream.id s.nextPush list) stream.priority,
        streams := s.streams ++ [new], listed := s.listed ++ [s.nextPush],
        executor := s.executor.enqueue new.priority s.nextPush,
        journal := s.journal ++ [.queued (.pushPromise stream.id s.nextPush list),
          .accepted s.nextPush (.headers list true),
          .opened s.nextPush stream.id new.priority (stream.id != 0)] } := by
  obtain ⟨-, hopen, -⟩ := of_pushError? allowed
  let f : Outgoing := .pushPromise stream.id s.nextPush list
  let q : Session := { s with nextPush := s.nextPush + 2, outbox := s.outbox.push f stream.priority,
                              journal := s.journal ++ [.queued f] }
  let new := q.newStream s.nextPush stream.id (min priority Priority.lowest)
  have reads := Stream.reads_acceptHeaders new list true
  have acts := reads.silent
  have added : s.promise stream list priority = q.addStream new list true := by
    unfold promise
    dsimp only
    rw [queue_of_open (s := { s with nextPush := s.nextPush + 2 }) hopen]
  refine ⟨new.acceptHeaders list true, acts.id, by rw [reads.rest]; rfl, ?_⟩
  rw [added, addTask_addStream (s := q) unused (show new.id = s.nextPush from rfl) idle, acts.priority]
  simp [q, f, new, newStream, Stream.isPushed]

end Session

end Multiplex
