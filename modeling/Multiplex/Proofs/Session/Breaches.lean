import Multiplex.Proofs.Session.Numbers

/-! # What frames leave alone

As long as no task runs, a frame of the peer concerns the stream that it is addressed to and no other (`Spares`). One
that breaks the protocol (`Session.Breaks`) concerns no stream at all: all that comes of it is that the end of the
connection is announced (`streams_undisturbed`). -/

namespace Multiplex.Session

variable {s t u : Session}

/-! ### Other streams -/

/-- A change that spares all streams but `id`. Those that there are stay as they are and no other comes up; the session
    looks after the same ones; the same handlers are suspended; and the same tasks and frames of theirs wait, in the
    same order. -/
structure Spares (id : Nat) (s t : Session) : Prop where
  streams : t.streams.filter (·.id != id) = s.streams.filter (·.id != id)
  listed : t.listed.filter (· != id) = s.listed.filter (· != id)
  tasks : (t.executor.queue.filter (· != id)).entries = (s.executor.queue.filter (· != id)).entries
  mode : t.executor.runsOnAdd = s.executor.runsOnAdd ∧ t.executor.stopped = s.executor.stopped
  parked : t.parked = s.parked
  frames : (t.outbox.queue.filter fun f => f.stream != id && f.stream != 0).entries =
    (s.outbox.queue.filter fun f => f.stream != id && f.stream != 0).entries

namespace Spares
variable {id : Nat}

theorem refl (id : Nat) (s : Session) : Spares id s s := ⟨rfl, rfl, rfl, ⟨rfl, rfl⟩, rfl, rfl⟩

theorem trans (first : Spares id s t) (second : Spares id t u) : Spares id s u :=
  ⟨second.streams.trans first.streams, second.listed.trans first.listed, second.tasks.trans first.tasks,
    ⟨second.mode.1.trans first.mode.1, second.mode.2.trans first.mode.2⟩, second.parked.trans first.parked, second.frames.trans first.frames⟩

/-- The other streams are found as they were. -/
theorem stream? (spares : Spares id s t) {other : Nat} (apart : other ≠ id) : t.stream? other = s.stream? other := by
  have beyond (u : Session) : u.stream? other = (u.streams.filter (·.id != id)).find? (·.id == other) := by
    rw [List.find?_filter, Session.stream?]
    congr 1
    funext stream
    by_cases here : stream.id = other <;> simp [here, apart]
  rw [beyond, beyond, spares.streams]

theorem note (id : Nat) (s : Session) (e : Event) : Spares id s (s.note e) := ⟨rfl, rfl, rfl, ⟨rfl, rfl⟩, rfl, rfl⟩

theorem queue (s : Session) {f : Outgoing} (own : f.stream = id ∨ f.stream = 0) (priority : Nat) :
    Spares id s (s.queue f priority) := by
  unfold Session.queue
  split
  · exact refl id s
  · next hopen =>
    refine ⟨rfl, rfl, rfl, ⟨rfl, rfl⟩, rfl, ?_⟩
    have put := Outbox.entries_push (Bool.eq_false_iff.mpr hopen) f priority
    rw [Queue.entries_filter, Queue.entries_filter]
    exact put ▸ Queue.filter_insert_other (fun f => f.stream != id && f.stream != 0) _ f
      (by rcases own with own | own <;> simp [own]) _

theorem queueAll (s : Session) {frames : List Outgoing} (own : ∀ f ∈ frames, f.stream = id) (priority : Nat) :
    Spares id s (s.queueAll frames priority) := by
  unfold Session.queueAll
  induction frames generalizing s with
  | nil => exact refl id s
  | cons f rest ih =>
    obtain ⟨first, others⟩ := List.forall_mem_cons.mp own
    exact (queue s (.inl first) priority).trans (ih _ others)

theorem setStream (s : Session) {stream : Stream} (own : stream.id = id) : Spares id s (s.setStream stream) := by
  have others (streams : List Stream) :
      (streams.map fun old => if old.id = stream.id then stream else old).filter (·.id != id) =
        streams.filter (·.id != id) := by
    induction streams with
    | nil => rfl
    | cons first rest ih =>
      rw [List.map_cons, List.filter_cons, List.filter_cons, ih]
      by_cases same : first.id = id
      · simp [same, own]
      · simp [same, own]
  exact ⟨others s.streams, rfl, rfl, ⟨rfl, rfl⟩, rfl, rfl⟩

theorem update (s : Session) {stream : Stream} {frames : List Outgoing} (own : stream.id = id)
    (frames_own : ∀ f ∈ frames, f.stream = id) : Spares id s (s.update stream frames) :=
  (setStream s own).trans (queueAll _ frames_own _)

theorem reset (s : Session) {stream : Stream} (own : stream.id = id) (code : ErrorCode) :
    Spares id s (s.reset stream code) := by
  have acts := Stream.acts_reset stream code
  exact update s (acts.id.trans own) fun f member => (acts.own f member).trans own

theorem addStream (s : Session) {stream : Stream} (own : stream.id = id) (list : List Header) (final : Bool) :
    Spares id s (s.addStream stream list final) := by
  have same : (stream.acceptHeaders list final).id = id := (Stream.reads_acceptHeaders stream list final).id.trans own
  refine ⟨?_, ?_, rfl, ⟨rfl, rfl⟩, rfl, rfl⟩
  · simp [Session.addStream, Session.note, same]
  · simp [Session.addStream, Session.note, own]

theorem cancel (s : Session) (id : Nat) : Spares id s (s.cancel id) := by
  unfold Session.cancel
  dsimp only
  split
  · next stream found =>
    have own : stream.abort.id = id := (Stream.acts_abort stream).id.trans (id_of_stream? found)
    exact (note id s _).trans (setStream _ own)
  · exact note id s _

theorem addTask (s : Session) (id : Nat) : Spares id s (addTask id s) := by
  unfold Session.addTask
  split
  · exact refl id s
  · next stream found =>
    dsimp only
    split
    · exact (note id s _).trans (cancel _ id)
    · refine ⟨rfl, rfl, ?_, ⟨rfl, rfl⟩, rfl, rfl⟩
      rw [Queue.entries_filter, Queue.entries_filter]
      exact Queue.entries_push .. ▸ Queue.filter_insert_other (· != id) _ _ (by simp) _

end Spares

/-- What a frame does concerns no other streams. -/
theorem Effect.spares {decoded : Except Hpack.Fault (List Header)} {frame : Frame} (h : Effect s decoded frame t) :
    Spares frame.stream s t := by
  -- The state of the connection is no matter of the streams.
  have beside (id last : Nat) (goAwaySent : Bool) : Spares id s { s with lastPeer := last, goAwaySent } :=
    ⟨rfl, rfl, rfl, ⟨rfl, rfl⟩, rfl, rfl⟩
  cases h with
  | passed => exact .refl _ s
  | breach =>
    unfold protocolError sendGoAway
    split
    · exact .refl _ s
    · exact (beside _ s.lastPeer true).trans (.queue _ (f := .frame (.goAway s.lastPeer _)) (.inr rfl) 0)
  | answered payload => exact .queue s (f := .frame (.ping true payload)) (.inr rfl) 0
  | @adopted params peer =>
    have set : Spares (Frame.settings false params).stream s (s.adopt peer) := ⟨rfl, rfl, rfl, ⟨rfl, rfl⟩, rfl, rfl⟩
    exact set.trans (.queue _ (f := .frame (.settings true [])) (.inr rfl) 0)
  | left | crashed => exact ⟨rfl, rfl, rfl, ⟨rfl, rfl⟩, rfl, rfl⟩
  | @trailed id block priority flags stream found =>
    have own : stream.id = id := id_of_stream? (of_listed? found)
    exact (Spares.setStream s ((Stream.reads_acceptHeaders stream _ true).id.trans own)).trans (.note _ _ _)
  | @turnedAway id =>
    have refused : (Outgoing.frame (.reset id ErrorCode.refusedStream)).stream = id := rfl
    exact (beside id id s.goAwaySent).trans (.queue _ (.inl refused) _)
  | @opened id block final priority flags staying odd new room rank list =>
    have added := Spares.addStream { s with lastPeer := id } (show (s.newStream id 0 rank).id = id from rfl) list final
    exact ((beside id id s.goAwaySent).trans added).trans (.addTask _ id)
  | @received id bytes final stream stream' found going fits =>
    have own : stream.id = id := id_of_stream? (of_active? found).1
    exact (Spares.setStream s ((Stream.reads_acceptData fits).id.trans own)).trans (.note _ _ _)
  | @granted id increment stream stream' frames found positive fits =>
    have own : stream.id = id := id_of_stream? (of_active? found).1
    have acts := Stream.acts_grant fits
    exact (Spares.note _ s _).trans (.update _ (acts.id.trans own) fun f member => (acts.own f member).trans own)
  | offended found => exact .reset s (id_of_stream? (of_active? found).1) _
  | @hungUp id stream found =>
    exact .setStream s ((Stream.acts_abort stream).id.trans (id_of_stream? (of_listed? found)))

/-- With an executor that only holds tasks, a frame has its effect and no task runs. -/
theorem dispatch_spawn (waits : s.executor.runsOnAdd = false) (frame : Frame) :
    dispatch spawn s frame = dispatch addTask s frame := by
  rcases dispatch_launch spawn s frame with same | ⟨id, u, added, launched⟩
  · exact same
  · have still : (addTask id u).executor.runsOnAdd = false := by
      rw [← added, (effect_dispatch s frame).spares.mode.1]
      exact waits
    rw [launched, added]
    exact if_neg (by simp [still])

/-! ### Breaches -/

/-- A session that has noted a frame and has looked at its header block. -/
def noted (s : Session) (frame : Frame) : Session :=
  { s.note (.dispatched frame) with receiveTable := s.tableAfter frame }

/-- Whether headers that are read as `decoded` break the protocol: those of a stream that is there have to end the
    message of a peer that has not ended it yet, and a new stream needs a new odd number and no strange flags. Once the
    end has been announced, new streams are no matter any more. -/
def HeadersBreak (s : Session) (id : Nat) (decoded : Except Hpack.Fault (List Header)) (final : Bool) (flags : UInt8) :
    Prop :=
  match s.listed? id with
  | some stream => final = false ∨ stream.isActive = false ∨ stream.peerClosed = true ∨ ∃ fault, decoded = .error fault
  | none => s.goAwaySent = false ∧
      (id % 2 = 0 ∨ id ≤ s.lastPeer ∨ flags &&& ~~~Flag.allowedOnHeaders ≠ 0 ∨ ∃ fault, decoded = .error fault)

/-- Whether a frame breaks the protocol. A header block that crashes its reader is another matter. -/
def Breaks (s : Session) (frame : Frame) : Prop :=
  match frame with
  | .settings false params => ∃ refusal, s.peer.applyAll s.version params = .error refusal
  | .headers id _ final _ flags =>
    s.decodedIn frame ≠ .error .crash ∧ s.HeadersBreak id (s.decodedIn frame) final flags
  | .data id .. => s.active? id = none
  | .windowUpdate id increment => s.version.hasFlowControl = false ∨ id ≠ 0 ∧ increment = 0
  | .pushPromise .. => True
  | _ => False

theorem onDecoded_breaks (launch : Nat → Session → Session) {id : Nat} {decoded : Except Hpack.Fault (List Header)}
    {final : Bool} {flags : UInt8} (priority : Option Dependency) (breaks : s.HeadersBreak id decoded final flags) :
    onDecoded launch s id decoded final priority flags = s.protocolError := by
  unfold onDecoded
  unfold HeadersBreak at breaks
  cases found : s.listed? id with
  | some stream =>
    rw [found] at breaks
    dsimp only [onTrailers]
    split
    · rfl
    · next allowed =>
      obtain ⟨⟨ends, active⟩, going⟩ : (final = true ∧ stream.isActive = true) ∧ stream.peerClosed = false := by
        simpa using allowed
      obtain ⟨fault, rfl⟩ : ∃ fault, decoded = .error fault := by simpa [ends, active, going] using breaks
      rfl
  | none =>
    rw [found] at breaks
    obtain ⟨staying, broken⟩ := breaks
    dsimp only
    rw [if_neg (by simp [staying])]
    split
    · rfl
    · next allowed =>
      obtain ⟨fault, rfl⟩ : ∃ fault, decoded = .error fault := by
        -- The number and the flags are in order, so it is the block that cannot be read.
        rcases broken with even | reused | flagged | bad
        · exact absurd (.inl even) allowed
        · exact absurd (.inr (.inl reused)) allowed
        · exact absurd (.inr (.inr flagged)) allowed
        · exact bad
      rfl

/-- A header block that does not crash its reader goes on to be looked at. -/
theorem dispatch_headers (launch : Nat → Session → Session) {id : Nat} {block : Bytes} {final : Bool}
    {priority : Option Dependency} {flags : UInt8}
    (sound : s.decodedIn (.headers id block final priority flags) ≠ .error .crash) :
    dispatch launch s (.headers id block final priority flags) =
      onDecoded launch (s.noted (.headers id block final priority flags)) id
        (s.decodedIn (.headers id block final priority flags)) final priority flags := by
  unfold dispatch onHeaders
  dsimp only
  split
  · next crash => exact absurd crash sound
  · rfl

/-- All that comes of a breach is that the end of the connection is announced. -/
theorem dispatch_breaks (launch : Nat → Session → Session) {frame : Frame} (breaks : s.Breaks frame) :
    dispatch launch s frame = (s.noted frame).protocolError := by
  cases frame with
  | settings ack params =>
    cases ack with
    | false =>
      obtain ⟨refusal, refused⟩ := breaks
      have same : (s.noted (.settings false params)).peer.applyAll (s.noted (.settings false params)).version params =
          .error refusal := refused
      show (s.noted (.settings false params)).onSettings params = _
      rw [onSettings, same]
    | true => cases breaks
  | headers id block final priority flags =>
    obtain ⟨sound, broken⟩ := breaks
    rw [dispatch_headers launch sound]
    exact onDecoded_breaks (s := s.noted _) launch priority broken
  | data id bytes final =>
    have unknown : (s.noted (.data id bytes final)).active? id = none := breaks
    show (s.noted (.data id bytes final)).onData id bytes final = _
    rw [onData, unknown]
  | windowUpdate id increment =>
    show (s.noted (.windowUpdate id increment)).onWindowUpdate id increment = _
    unfold onWindowUpdate
    rcases breaks with without | ⟨stream, zero⟩
    · exact if_pos (by simp [noted, note, without])
    · rw [if_neg stream, if_pos zero]
      exact ite_self _
  | pushPromise => rfl
  -- No content of these frames is a breach.
  | ping | reset | goAway => cases breaks

/-! ### Frames that break nothing -/

/-- A change in which the end of the connection is not announced. -/
def Silent (s t : Session) : Prop := ∃ events, t.journal = s.journal ++ events ∧ ∀ e ∈ events, e.farewell? = none

namespace Silent

theorem of_journal (same : t.journal = s.journal) : Silent s t := ⟨[], same.trans (List.append_nil _).symm, nofun⟩

theorem refl (s : Session) : Silent s s := of_journal rfl

theorem trans (first : Silent s t) (second : Silent t u) : Silent s u := by
  obtain ⟨early, split, silent⟩ := first
  obtain ⟨late, split', silent'⟩ := second
  refine ⟨early ++ late, by rw [split', split, List.append_assoc], fun e member => ?_⟩
  exact (List.mem_append.mp member).elim (silent e) (silent' e)

theorem note (s : Session) {e : Event} (other : e.farewell? = none) : Silent s (s.note e) :=
  ⟨[e], rfl, List.forall_mem_singleton.mpr other⟩

theorem ordinary (change : Ordinary s t) : Silent s t := by
  obtain ⟨events, split, plain⟩ := change.journal
  exact ⟨events, split, fun e member => (Event.isPlain_of_isOrdinary (plain e member)).farewell⟩

theorem queue (s : Session) {f : Outgoing} (other : Event.farewell? (.queued f) = none) (priority : Nat) :
    Silent s (s.queue f priority) := by
  unfold Session.queue
  split
  · exact refl s
  · exact note s other

theorem addTask (s : Session) (id : Nat) : Silent s (addTask id s) := by
  unfold Session.addTask
  split
  · exact refl s
  · have opened (stream : Stream) : Silent s (s.note (.opened id stream.parent stream.priority stream.isPushed)) :=
      note s rfl
    dsimp only
    split
    · exact (opened _).trans (ordinary (.cancel id))
    · exact opened _

theorem openStream (s : Session) (id priority : Nat) (list : List Header) (final : Bool) :
    Silent s (openStream Session.addTask s id priority list final) := by
  unfold Session.openStream
  dsimp only
  split
  · exact queue { s with lastPeer := id } rfl priority
  · have added (stream : Stream) : Silent s (Session.addStream { s with lastPeer := id } stream list final) :=
      ⟨[.accepted stream.id (.headers list final)], rfl, List.forall_mem_singleton.mpr rfl⟩
    exact (added _).trans (addTask _ id)

end Silent

theorem silent_onDecoded {id : Nat} {decoded : Except Hpack.Fault (List Header)} {final : Bool} {flags : UInt8}
    (priority : Option Dependency) (fair : ¬ s.HeadersBreak id decoded final flags) :
    Silent s (onDecoded addTask s id decoded final priority flags) := by
  unfold onDecoded
  unfold HeadersBreak at fair
  cases found : s.listed? id with
  | some stream =>
    rw [found] at fair
    simp only [not_or, not_exists] at fair
    obtain ⟨ends, active, going, readable⟩ := fair
    cases decoded with
    | error fault => exact absurd rfl (readable fault)
    | ok list =>
      dsimp only [onTrailers]
      rw [if_neg (by simp [ends, active, going])]
      exact .note (s.setStream _) rfl
  | none =>
    rw [found] at fair
    dsimp only
    split
    · exact .refl s
    · next staying =>
      have proper := fun broken => fair ⟨by simpa using staying, broken⟩
      simp only [imp_false, not_or, not_exists] at proper
      -- All checks are passed, so the headers open a stream, or the stream is refused on its own.
      obtain ⟨odd, new, plain, readable⟩ := proper
      rw [if_neg (not_or.mpr ⟨odd, not_or.mpr ⟨new, plain⟩⟩)]
      cases decoded with
      | error fault => exact absurd rfl (readable fault)
      | ok list => exact .openStream s id _ list final

/-- Nothing but a breach makes the session announce the end. -/
theorem silent_dispatch {frame : Frame} (fair : ¬ s.Breaks frame) : Silent (s.noted frame) (dispatch addTask s frame) := by
  cases frame with
  | ping ack payload =>
    cases ack with
    | false => exact .queue _ rfl 0
    | true => exact .refl _
  | settings ack params =>
    cases ack with
    | false =>
      cases taken : s.peer.applyAll s.version params with
      | error refusal => exact absurd ⟨refusal, taken⟩ fair
      | ok peer =>
        have same : (s.noted (.settings false params)).peer.applyAll (s.noted (.settings false params)).version params =
            .ok peer := taken
        show Silent _ ((s.noted (.settings false params)).onSettings params)
        rw [onSettings, same]
        exact .queue ((s.noted (.settings false params)).adopt peer) rfl 0
    | true => exact .refl _
  | headers id block final priority flags =>
    -- A block that trips the decoder ends the run at once, and nothing is sent.
    by_cases crash : s.decodedIn (.headers id block final priority flags) = .error .crash
    · unfold dispatch onHeaders
      dsimp only
      split
      · exact .of_journal rfl
      · next sound => exact absurd crash sound
    · rw [dispatch_headers addTask crash]
      exact silent_onDecoded (s := s.noted _) priority fun broken => fair ⟨crash, broken⟩
  | data id bytes final =>
    obtain ⟨stream, found⟩ := Option.ne_none_iff_exists'.mp fair
    show Silent _ ((s.noted (.data id bytes final)).onData id bytes final)
    rw [onData, show (s.noted (.data id bytes final)).active? id = some stream from found]
    dsimp only
    split
    · exact .ordinary (.reset stream (by decide))
    · split
      · exact .note (Session.setStream _ _) rfl
      · exact .ordinary (.reset stream (by decide))
  | windowUpdate id increment =>
    obtain ⟨flow, positive⟩ := not_or.mp fair
    show Silent _ ((s.noted (.windowUpdate id increment)).onWindowUpdate id increment)
    unfold onWindowUpdate
    rw [if_neg (by simpa [noted, Session.note] using flow)]
    split
    · exact .refl _
    · next stream =>
      rw [if_neg fun zero => positive ⟨stream, zero⟩]
      split
      · exact .refl _
      · next found =>
        split
        · next fits => exact .ordinary (.grant found fits)
        · exact .ordinary (.reset _ (by decide))
  | reset id code =>
    show Silent _ ((s.noted (.reset id code)).onReset id)
    unfold onReset
    split
    · exact .of_journal rfl
    · exact .refl _
  | goAway => exact .of_journal rfl
  | pushPromise => exact absurd trivial fair

/-- The end is announced unless that has been done or the outbox is closed. Nothing else happens. -/
theorem protocolError_eq (s : Session) :
    s.protocolError =
      if s.goAwaySent ∨ s.outbox.closed then { s with goAwaySent := true }
      else { s with
        goAwaySent := true, outbox := s.outbox.push (.frame (.goAway s.lastPeer ErrorCode.protocolError)) 0,
        journal := s.journal ++ [.queued (.frame (.goAway s.lastPeer ErrorCode.protocolError))] } := by
  unfold protocolError sendGoAway
  cases announced : s.goAwaySent with
  | true =>
    rw [if_pos rfl, if_pos (.inl rfl), ← announced]
  | false =>
    rw [if_neg (by simp)]
    cases shut : s.outbox.closed with
    | true =>
      rw [if_pos (.inr rfl)]
      exact if_pos shut
    | false =>
      rw [if_neg (by simp)]
      exact queue_of_open (s := { s with goAwaySent := true }) shut _ 0

/-- With an executor that only holds tasks, no frame of the peer disturbs a stream that it is not addressed to. GOAWAY
    goes into the outbox just if the frame breaks the protocol, unless it has done so before or the outbox is closed. A
    frame that breaks the protocol leaves all the rest as it is, but for the table of the header blocks: no stream is
    opened, aborted or changed, not even the one that the frame is addressed to, and no frame but that GOAWAY goes into
    the outbox. -/
theorem streams_undisturbed (frame : Frame) (waits : s.executor.runsOnAdd = false) :
    let t := dispatch spawn s frame
    (Spares frame.stream s t ∧ ∀ id, id ≠ frame.stream → t.stream? id = s.stream? id) ∧
    ∃ events, t.journal = s.journal ++ .dispatched frame :: events ∧
      ((∃ last code, .queued (.frame (.goAway last code)) ∈ events) ↔
        s.Breaks frame ∧ s.goAwaySent = false ∧ s.outbox.closed = false) ∧
      (s.Breaks frame →
        t = { s with
          receiveTable := s.tableAfter frame, goAwaySent := true, outbox := t.outbox, journal := t.journal }) ∧
      ∀ last code, .queued (.frame (.goAway last code)) ∈ events →
        last = s.lastPeer ∧ code = ErrorCode.protocolError ∧ events = [.queued (.frame (.goAway last code))] ∧
        t.outbox = s.outbox.push (.frame (.goAway last code)) 0 := by
  intro t
  have first : Spares frame.stream s (s.noted frame) := ⟨rfl, rfl, rfl, ⟨rfl, rfl⟩, rfl, rfl⟩
  have here : t = dispatch addTask s frame := dispatch_spawn waits frame
  have spares : Spares frame.stream s t := here ▸ first.trans (effect_dispatch s frame).spares
  refine ⟨⟨spares, fun id other => spares.stream? other⟩, ?_⟩
  -- Either the frame breaks the rules, and GOAWAY is all it does, or nothing it does is a farewell.
  by_cases breaks : s.Breaks frame
  · have broken : t = (s.noted frame).protocolError := dispatch_breaks spawn breaks
    rw [protocolError_eq] at broken
    split at broken
    · next settled =>
      refine ⟨[], by rw [broken]; rfl, ⟨by simp, ?_⟩, fun _ => by rw [broken]; rfl, by simp⟩
      rintro ⟨-, staying, hopen⟩
      exact absurd settled (by simp [noted, Session.note, staying, hopen])
    · next fresh =>
      obtain ⟨staying, hopen⟩ : s.goAwaySent = false ∧ s.outbox.closed = false := by
        simpa [noted, Session.note] using fresh
      refine ⟨[.queued (.frame (.goAway s.lastPeer ErrorCode.protocolError))], ?_, ?_, fun _ => by rw [broken]; rfl, ?_⟩
      · rw [broken]
        exact List.append_assoc ..
      · exact ⟨fun _ => ⟨breaks, staying, hopen⟩, fun _ => ⟨_, _, List.mem_singleton_self _⟩⟩
      · intro last code member
        obtain ⟨rfl, rfl⟩ : last = s.lastPeer ∧ code = ErrorCode.protocolError := by simpa using member
        exact ⟨rfl, rfl, rfl, by rw [broken]; rfl⟩
  · obtain ⟨events, journal, silent⟩ := silent_dispatch breaks
    have none (last : Nat) (code : ErrorCode) : .queued (.frame (.goAway last code)) ∉ events := fun member =>
      absurd (silent _ member) (by simp [Event.farewell?])
    refine ⟨events, ?_, ⟨?_, ?_⟩, fun broken => absurd broken breaks, fun last code member => absurd member (none last code)⟩
    · rw [here, journal]
      exact List.append_assoc ..
    · rintro ⟨last, code, member⟩
      exact absurd member (none last code)
    · rintro ⟨broken, -⟩
      exact absurd broken breaks

/-- A session whose peer opens two streams. Their handlers never get to run. -/
def visited : Session :=
  let request (id : Nat) := (Frame.headers id [] false none 0).encode 1
  start .spdy3 {} {} .never { arrivals := [{ bytes := request 1 ++ request 3 }] }

/-- The peer opens a stream again that it has opened. -/
theorem streams_undisturbed_repeated :
    ∃ s, Reaches visited s ∧ s.status = .running ∧ s.streams.map (·.id) = [1, 3] ∧
      let t := dispatch spawn s (.headers 1 [] false none 0)
      t.streams = s.streams ∧ t.stream? 3 = s.stream? 3 ∧
        t.outbox = s.outbox.push (.frame (.goAway 3 ErrorCode.protocolError)) 0 := by
  have began : Reaches visited _ := .single (.began rfl)
  set s := { visited with status := .running }.write _ .initialWriteFailed
  have running : s.status = .running := by decide +kernel
  have went : Reaches s s.round := (reaches_poll running).1.trans (reaches_round running)
  have breaks : s.round.Breaks (.headers 1 [] false none 0) := by
    obtain ⟨stream, found⟩ : ∃ stream, s.round.listed? 1 = some stream :=
      Option.isSome_iff_exists.mp (by decide +kernel)
    refine ⟨by decide +kernel, ?_⟩
    rw [HeadersBreak, found]
    exact .inl rfl
  obtain ⟨⟨-, others⟩, events, -, announced, unchanged, whole⟩ :=
    streams_undisturbed (s := s.round) (.headers 1 [] false none 0) (by decide +kernel)
  obtain ⟨last, code, member⟩ := announced.mpr ⟨breaks, by decide +kernel, by decide +kernel⟩
  obtain ⟨rfl, rfl, -, outbox⟩ := whole last code member
  have newest : s.round.lastPeer = 3 := by decide +kernel
  refine ⟨s.round, began.trans went, by decide +kernel, by decide +kernel, ?_, others 3 (by decide), newest ▸ outbox⟩
  rw [unchanged breaks]

end Multiplex.Session
