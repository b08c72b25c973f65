import Multiplex.Proofs.Frame.Streams
import Multiplex.Proofs.Session.Lane
import Multiplex.Proofs.Session.Steps
import Multiplex.Proofs.Stream.Identity

/-! # The steps of a lane

Each step of a session is, seen on one lane, a chain of few steps that look at that lane alone
(`Lane.Step`). So what such steps keep, every session keeps of every one of its streams, in whatever order
its handlers run and its peer sends (`Reaches.lanes`). -/

namespace Multiplex

open Relation (ReflTransGen)

/-- Whether an event about a stream tells of nothing that was sent on it, released, granted or read. -/
def Event.isQuiet : Event → Bool
  | .dispatched _ | .started _ | .ended _ | .failed _ | .cancelled _ => true
  | .stepped _ _ _ reply =>
    match reply with
    | .info .. | .pushed _ | .refused _ | .resumed => true
    | .input _ | .inputs _ | .sent => false
  | _ => false

/-- Whether an event is the cancelling of a task. -/
def Event.cancels : Event → Bool
  | .cancelled _ => true
  | _ => false

/-- Whether a frame tells the peer about the connection. -/
def Outgoing.isAnnouncement : Outgoing → Bool
  | .frame (.ping ..) | .frame (.settings ..) | .frame (.goAway ..) => true
  | _ => false

/-- A new stream, when the peer grants new streams `window`. -/
def Stream.new (version : Version) (config : Config) (window id parent priority : Nat) : Stream :=
  { id, parent, priority,
    receive := if version.hasFlowControl then some { room := config.window.toNat } else none,
    send := .start window version.hasFlowControl }

namespace Lane

section Steps
variable (version : Version) (config : Config) (id : Nat)

/-- A step on the lane of a stream. -/
inductive Step : Lane → Lane → Prop
  | noted {l : Lane} {e : Event} (about : e.about = some id) (quiet : e.isQuiet) (going : e.cancels = false) :
      Step l (l.note e)
  /-- The peer has opened a later stream. -/
  | outdated {l : Lane} : Step l { l with fresh := false }
  /-- GOAWAY is about to be sent. -/
  | left {l : Lane} : Step l { l with leaving := true }
  | announced {l : Lane} {f : Outgoing} (zero : id = 0) (used : l.fresh = false) (kind : f.isAnnouncement) :
      Step l (l.queue f 0)
  | opened {l : Lane} (fresh : l.fresh) (going : l.closed = false) (staying : l.leaving = false) (proper : id ≠ 0)
      (small : id < Frame.idBound) (parent priority : Nat) {window : Nat} (bounded : window ≤ maxWindow)
      (list : List Header) {final : Bool} (whole : parent ≠ 0 → final) :
      Step l { l with stream := some ((Stream.new version config window id parent priority).acceptHeaders
                                        list final),
                      listed := true, fresh := false, window := some window,
                      past := l.past ++ [.accepted id (.headers list final),
                                         .opened id parent priority (parent != 0)] }
  /-- The session turns the stream away. -/
  | refused {l : Lane} (fresh : l.fresh) (proper : id ≠ 0) (small : id < Frame.idBound) (priority : Nat) :
      Step l ({ l with fresh := false }.queue (.frame (.reset id ErrorCode.refusedStream)) priority)
  | promised {l : Lane} {stream : Stream} (found : l.stream = some stream) (going : stream.aborted = false)
      (unended : stream.finalSent = false) (unpushed : stream.isPushed = false) (child : Nat)
      (list : List Header) : Step l (l.queue (.pushPromise id child list) stream.priority)
  | trailed {l : Lane} {stream : Stream} (found : l.stream = some stream) (active : stream.isActive)
      (going : stream.peerClosed = false) (list : List Header) :
      Step l ({ l with stream := some (stream.acceptHeaders list true) }.note (.accepted id (.headers list true)))
  | received {l : Lane} {stream stream' : Stream} (found : l.stream = some stream) (active : stream.isActive)
      (going : stream.peerClosed = false) {bytes : Bytes} {final : Bool}
      (fits : stream.acceptData bytes final = .ok stream') :
      Step l ({ l with stream := some stream' }.note (.accepted id (.data bytes final)))
  | granted {l : Lane} {stream stream' : Stream} {frames : List Outgoing} (found : l.stream = some stream)
      (active : stream.isActive) {increment : Nat} (positive : 0 < increment)
      (fits : stream.grant increment = .ok (stream', frames)) :
      Step l ((l.note (.granted id increment)).put stream' frames)
  | reset {l : Lane} {stream : Stream} (found : l.stream = some stream) (code : ErrorCode) :
      Step l (l.put (stream.reset code).1 (stream.reset code).2)
  | hungUp {l : Lane} {stream : Stream} (found : l.stream = some stream) {code : ErrorCode}
      (heard : l.past.getLast? = some (.dispatched (.reset id code))) :
      Step l { l with stream := some stream.abort }
  | read {l : Lane} {stream : Stream} (found : l.stream = some stream) (index : Nat) (step : Multiplex.Step) :
      Step l ((l.put stream.read.1 stream.read.2.2).note (.stepped id index step (.input stream.read.2.1)))
  | readAll {l : Lane} {stream : Stream} (found : l.stream = some stream) (index : Nat) :
      Step l ((l.put (stream.readUpTo stream.input.length).1 (stream.readUpTo stream.input.length).2.2).note
        (.stepped id index (.act .readAll) (.inputs (stream.readUpTo stream.input.length).2.1)))
  | sentHeaders {l : Lane} {stream stream' : Stream} {frames : List Outgoing} (found : l.stream = some stream)
      (index : Nat) {list : List Header} {final : Bool}
      (allowed : stream.sendHeaders list final = .ok (stream', frames)) :
      Step l ((l.put stream' frames).note (.stepped id index (.act (.headers list final)) .sent))
  | sentData {l : Lane} {stream stream' : Stream} {frames : List Outgoing} (found : l.stream = some stream)
      (index : Nat) {bytes : Bytes} {final : Bool} {limit : Nat}
      (allowed : stream.sendData bytes final limit = .ok (stream', frames)) :
      Step l ((l.put stream' frames).note (.stepped id index (.act (.data bytes final)) .sent))
  | cancelled {l : Lane} (closed : l.closed) :
      Step l { l.note (.cancelled id) with stream := l.stream.map Stream.abort }
  | taken {l : Lane} {rank : Nat} {f : Outgoing} {rest : List (Nat × Outgoing)}
      (next : l.waiting = (rank, f) :: rest) : Step l ({ l with waiting := rest }.note (.taken f))
  | pruned {l : Lane} (inactive : ∀ stream, l.stream = some stream → stream.isActive = false) :
      Step l { l with listed := false }
  | closed {l : Lane} :
      Step l { l with stream := if l.listed then l.stream.map Stream.abort else l.stream,
                      listed := false, waiting := [], closed := true }

/-- A chain of steps on a lane. -/
def Steps : Lane → Lane → Prop := ReflTransGen (Step version config id)

variable {version config id} in
/-- What holds of a lane and is kept by each step from there on holds after every chain of steps. -/
theorem Steps.keeps {P : Lane → Prop} {l l' : Lane} (h : Steps version config id l l') (first : P l)
    (step : ∀ {u v}, Steps version config id l u → Step version config id u v → P u → P v) : P l' := by
  induction h with
  | refl => exact first
  | tail earlier last ih => exact step earlier last ih

end Steps

/-- Nothing has been made of a fresh identifier. -/
structure Blank (l : Lane) : Prop where
  stream : l.stream = none
  window : l.window = none
  waiting : l.waiting = []
  past : ∀ e ∈ l.past, e.isQuiet

end Lane

namespace Session

/-- What every session keeps beside its lanes. -/
structure Stable (s : Session) : Prop where
  pushes : s.nextPush % 2 = 0 ∧ 0 < s.nextPush
  halted : s.executor.stopped → s.outbox.closed
  closed : s.outbox.closed → ∃ reason, s.status = .stopped reason
  limits : s.peer = limitsAfter s.version s.journal
  copies : s.copies = s.peer
  reader : s.reader.Bounded

/-- What new streams and handlers see of the limits of the peer are those of the SETTINGS that were accepted. -/
theorem Stable.agreed {s : Session} (stable : s.Stable) : s.copies = limitsAfter s.version s.journal :=
  stable.copies.trans stable.limits

/-- The executor goes on as long as the outbox is open. -/
theorem Stable.idle {s : Session} (stable : s.Stable) (hopen : s.outbox.closed = false) : s.executor.stopped = false :=
  Bool.eq_false_iff.mpr fun stopped => Bool.eq_false_iff.mp hopen (stable.halted stopped)

/-- The identifiers that nothing was made of have blank lanes. -/
def Fresh (s : Session) : Prop := ∀ id, s.isFresh id → (s.lane id).Blank

/-! ### Limits of the peer -/

theorem limitsAfter_inner (version : Version) (journal : List Event) {events : List Event}
    (inner : ∀ e ∈ events, e.isExchange = false) :
    limitsAfter version (journal ++ events) = limitsAfter version journal := by
  induction events generalizing journal with
  | nil => rw [List.append_nil]
  | cons e rest ih =>
    obtain ⟨first, others⟩ := List.forall_mem_cons.mp inner
    have same : e.adjust version (limitsAfter version journal) = limitsAfter version journal := by
      cases e with
      | dispatched => cases first
      | _ => rfl
    rw [List.append_cons, ih _ others, limitsAfter_append, same]

theorem Kept.limitsAfter {s t : Session} (kept : Kept s t) :
    limitsAfter t.version t.journal = limitsAfter s.version s.journal := by
  obtain ⟨events, split, inner⟩ := kept.journal
  rw [kept.version, split, limitsAfter_inner s.version s.journal inner]

end Session

namespace PeerSettings

/-- The limits of a peer are in their ranges. -/
structure Legal (s : PeerSettings) : Prop where
  window : s.window ≤ maxWindow
  frame : Frame.Decoder.leastLimit ≤ s.maxFrame ∧ s.maxFrame ≤ Frame.Decoder.greatestLimit

theorem Legal.apply {limits after : PeerSettings} {version : Version} {p : Setting} (legal : limits.Legal)
    (applied : limits.apply version p = .ok after) : after.Legal := by
  unfold PeerSettings.apply at applied
  split at applied
  · split at applied
    · cases applied
    split at applied
    · cases applied
    next inside =>
    cases applied
    exact ⟨Nat.le_of_not_lt fun exceeds => inside (.inr exceeds), legal.frame⟩
  split at applied
  · split at applied <;> cases applied
    exact ⟨legal.window, legal.frame⟩
  split at applied
  · split at applied
    · cases applied
    next inside =>
    cases applied
    exact ⟨legal.window, Nat.le_of_not_lt fun less => inside (.inl less),
      Nat.le_of_not_lt fun exceeds => inside (.inr exceeds)⟩
  cases applied
  exact legal

theorem Legal.applyAll {limits after : PeerSettings} {version : Version} {params : List Setting}
    (legal : limits.Legal) (applied : limits.applyAll version params = .ok after) : after.Legal := by
  induction params generalizing limits with
  | nil =>
    cases applied
    exact legal
  | cons p rest ih =>
    unfold PeerSettings.applyAll at applied
    split at applied
    · next went => exact ih (legal.apply went) applied
    · cases applied

end PeerSettings

namespace Session

theorem legal_limitsAfter (version : Version) (journal : List Event) : (limitsAfter version journal).Legal := by
  unfold limitsAfter
  -- Later SETTINGS start from what earlier ones left, so the induction is over any legal start.
  generalize start : ({} : PeerSettings) = limits
  have legal : limits.Legal := start ▸ ⟨by decide, by decide, by decide⟩
  clear start
  induction journal generalizing limits with
  | nil => exact legal
  | cons e rest ih =>
    refine ih _ ?_
    unfold Event.adjust
    split
    · split
      · next went => exact legal.applyAll went
      · exact legal
    · exact legal

/-! ### Elementary changes -/

section Changes
variable {s : Session} {version : Version} {config : Config}

theorem lane_acts {i : Nat} {stream stream' : Stream} {frames : List Outgoing}
    (found : s.stream? i = some stream) (acts : stream.Acts stream' frames) :
    (s.update stream' frames).lane i = (s.lane i).put stream' frames := by
  obtain rfl : stream'.id = i := acts.id.trans (id_of_stream? found)
  exact lane_update (by simp [found]) fun f member => (acts.own f member).trans acts.id.symm

theorem lane_acts_other {i id : Nat} {stream stream' : Stream} {frames : List Outgoing}
    (found : s.stream? i = some stream) (acts : stream.Acts stream' frames) (other : i ≠ id) :
    (s.update stream' frames).lane id = s.lane id := by
  obtain rfl : stream'.id = i := acts.id.trans (id_of_stream? found)
  exact lane_update_other other fun f member => (acts.own f member).trans acts.id.symm

/-- A stream acts and the reply is noted: a step on its own lane. -/
theorem steps_acts {i : Nat} {stream stream' : Stream} {frames : List Outgoing} {index : Nat}
    {step : Multiplex.Step} {reply : Reply} (found : s.stream? i = some stream)
    (acts : stream.Acts stream' frames)
    (own : Lane.Step version config i (s.lane i)
      (((s.lane i).put stream' frames).note (.stepped i index step reply))) (id : Nat) :
    Lane.Steps version config id (s.lane id)
      (((s.update stream' frames).note (.stepped i index step reply)).lane id) := by
  -- One step on its own lane; the lanes of other streams hold neither the stream nor its frames.
  by_cases same : i = id
  · subst same
    rw [lane_note rfl rfl, lane_acts found acts]
    exact .single own
  · rw [lane_note_other (by simp [Event.about, same]), lane_acts_other found acts same]
    exact .refl

theorem steps_noted {i : Nat} {e : Event} (about : e.about = some i) (quiet : e.isQuiet)
    (going : e.cancels = false) (id : Nat) :
    Lane.Steps version config id (s.lane id) ((s.note e).lane id) := by
  by_cases same : i = id
  · subst same
    have inner : e.opens i = false := by
      cases e with
      | opened => cases quiet
      | _ => rfl
    rw [lane_note about inner]
    exact .single (.noted about quiet going)
  · rw [lane_note_other (by simp [about, same])]
    exact .refl

theorem steps_reset {i : Nat} {stream : Stream} (found : s.stream? i = some stream) (code : ErrorCode)
    (id : Nat) : Lane.Steps version config id (s.lane id) ((s.reset stream code).lane id) := by
  by_cases same : i = id
  · subst same
    rw [reset, lane_acts found (Stream.acts_reset stream code)]
    exact .single (.reset found code)
  · rw [reset, lane_acts_other found (Stream.acts_reset stream code) same]
    exact .refl

/-! ### New streams -/

theorem stream?_addStream {id : Nat} {stream : Stream} (new : s.stream? id = none) (own : stream.id = id)
    (list : List Header) (final : Bool) :
    (s.addStream stream list final).stream? id = some (stream.acceptHeaders list final) := by
  have same : (stream.acceptHeaders list final).id = id :=
    (Stream.reads_acceptHeaders stream list final).id.trans own
  have earlier : s.streams.find? (·.id == id) = none := new
  simp [stream?, addStream, note, List.find?_append, earlier, same]

theorem lane_addStream {id : Nat} {stream : Stream} (new : s.stream? id = none) (own : stream.id = id)
    (list : List Header) (final : Bool) :
    (s.addStream stream list final).lane id =
      { (s.lane id).note (.accepted id (.headers list final)) with
        stream := some (stream.acceptHeaders list final), listed := true } := by
  have found := stream?_addStream new own list final
  rw [addStream, own, lane_note rfl rfl]
  refine Lane.ext ?_ ?_ rfl rfl rfl rfl rfl rfl
  · rwa [addStream, own] at found
  · simp [lane, Lane.note]

theorem lane_addStream_other {id : Nat} {stream : Stream} (other : stream.id ≠ id)
    (list : List Header) (final : Bool) : (s.addStream stream list final).lane id = s.lane id := by
  have apart : (stream.acceptHeaders list final).id ≠ id :=
    fun same => other ((Stream.reads_acceptHeaders stream list final).id.symm.trans same)
  rw [addStream, lane_note_other (by simp [Event.about, other])]
  refine Lane.ext ?_ ?_ rfl rfl rfl rfl rfl rfl
  · simp [lane, stream?, List.find?_append, apart]
  · simp [lane, Ne.symm other]

theorem lane_addTask_other {i id : Nat} (other : i ≠ id) : (addTask i s).lane id = s.lane id := by
  unfold addTask
  split
  · rfl
  · dsimp only
    split
    · unfold cancel
      dsimp only
      split
      · next stream found =>
        have own : stream.id = i := id_of_stream? found
        rw [lane_setStream_other (by rw [(Stream.acts_abort stream).id, own]; exact other),
          lane_note_other (by simp [Event.about, other]), lane_note_other (by simp [Event.about, other])]
      · rw [lane_note_other (by simp [Event.about, other]), lane_note_other (by simp [Event.about, other])]
    · exact lane_note_other (s := s) (e := .opened i _ _ _) (by simp [Event.about, other])

theorem lane_added {id : Nat} {stream : Stream} (blank : (s.lane id).Blank) (own : stream.id = id)
    (going : s.executor.stopped = false) (list : List Header) (final : Bool) :
    (addTask id (s.addStream stream list final)).lane id =
      { s.lane id with
        stream := some (stream.acceptHeaders list final), listed := true,
        window := some (limitsAfter s.version s.journal).window,
        past := (s.lane id).past ++ [.accepted id (.headers list final),
          .opened id stream.parent stream.priority (stream.parent != 0)] } := by
  have acts := (Stream.reads_acceptHeaders stream list final).silent
  unfold addTask
  rw [stream?_addStream blank.stream own]
  dsimp only
  rw [if_neg (by simpa [addStream, note] using going), acts.parent, acts.priority, Stream.isPushed, acts.parent]
  have added := lane_addStream blank.stream own list final
  -- The window of the ledger is read off the journal, in which the new headers change no limit.
  have limits : limitsAfter s.version (s.addStream stream list final).journal = limitsAfter s.version s.journal :=
    (Kept.addStream stream list final).limitsAfter
  have opens : (Event.opened id stream.parent stream.priority (stream.parent != 0)).opens id := by
    simp [Event.opens]
  have new : ((s.addStream stream list final).lane id).window = none := by
    rw [added]
    exact blank.window
  refine (lane_note_opened opens new).trans ?_
  rw [added, show (s.addStream stream list final).version = s.version from rfl, limits]
  simp [Lane.note]

/-! ### Tasks -/

theorem steps_promised (stable : s.Stable) (fresh : s.Fresh) {i : Nat} {stream : Stream}
    (list : List Header) (priority : Nat) (found : s.stream? i = some stream)
    (allowed : s.pushError? stream = none) (id : Nat) :
    Lane.Steps s.version s.config id (s.lane id)
      ((addTask s.nextPush (s.promise stream list priority)).lane id) := by
  obtain ⟨unpushed, hopen, staying, going, unended, bounded⟩ := of_pushError? allowed
  have own : stream.id = i := id_of_stream? found
  have unused : s.isFresh s.nextPush := by simp [isFresh, stable.pushes.1]
  have blank := fresh s.nextPush unused
  have apart : i ≠ s.nextPush := by
    rintro rfl
    have none : s.stream? s.nextPush = none := blank.stream
    rw [found] at none
    cases none
  -- The identifier is taken first, then the promise goes out, then the stream is added.
  let u : Session := { s with nextPush := s.nextPush + 2 }
  let f : Outgoing := .pushPromise stream.id s.nextPush list
  let q := u.queue f stream.priority
  have kept : Kept u q := Kept.queue f stream.priority
  have others {id : Nat} (other : s.nextPush ≠ id) : u.lane id = s.lane id := by
    refine Lane.ext rfl rfl ?_ rfl rfl rfl rfl rfl
    have even := stable.pushes.1
    simp only [lane, isFresh, u]
    split
    · rw [decide_eq_decide]
      omega
    · rfl
  let new := q.newStream s.nextPush stream.id (min priority Priority.lowest)
  change Lane.Steps s.version s.config id (s.lane id) ((addTask s.nextPush (q.addStream new list true)).lane id)
  -- The promise shows on two lanes: the new stream is opened on one, the frame goes out on the other.
  by_cases child : s.nextPush = id
  · subst child
    have taken : q.lane s.nextPush = { s.lane s.nextPush with fresh := false } := by
      rw [lane_queue_other (by simpa [f, Outgoing.stream, own] using apart)]
      refine Lane.ext rfl rfl ?_ rfl rfl rfl rfl rfl
      simp [lane, isFresh, u, stable.pushes.1]
    have limits : limitsAfter q.version q.journal = s.peer := kept.limitsAfter.trans stable.limits.symm
    have window : q.newWindow = s.peer.window :=
      congrArg PeerSettings.window (kept.copies.trans stable.copies)
    have idle : q.executor.stopped = false := by
      rw [kept.stopped]
      exact stable.idle hopen
    have same : new = Stream.new s.version s.config s.peer.window s.nextPush stream.id
        (min priority Priority.lowest) := by
      simp only [new, newStream, Stream.new, kept.version, kept.config, window]
      rfl
    have unopened : (q.lane s.nextPush).Blank := by
      rw [taken]
      exact ⟨blank.stream, blank.window, blank.waiting, blank.past⟩
    have own : new.id = s.nextPush := rfl
    rw [lane_added unopened own idle list true, taken, limits, same]
    exact .single (.opened unused hopen staying (by have := stable.pushes.2; omega)
      (Nat.lt_of_le_of_lt bounded (by decide)) stream.id _
      (by rw [stable.limits]; exact (legal_limitsAfter ..).window) list fun _ => rfl)
  · rw [lane_addTask_other child, lane_addStream_other child]
    by_cases parent : i = id
    · subst parent
      rw [lane_queue (by exact own), others child]
      rw [show f = .pushPromise i s.nextPush list from own ▸ rfl]
      exact .single (.promised found going unended unpushed s.nextPush list)
    · rw [lane_queue_other (by simpa [f, Outgoing.stream, own] using parent), others child]
      exact .refl

theorem steps_returned (i id : Nat) : Lane.Steps version config id (s.lane id) ((s.returned i).lane id) := by
  have noted : Lane.Steps version config id (s.lane id) ((s.note (.ended i)).lane id) :=
    steps_noted rfl rfl rfl id
  unfold returned
  dsimp only
  split
  · next found =>
    split
    · exact noted
    · exact noted.trans (steps_reset found _ id)
  · exact noted

theorem steps_brokeDown (i id : Nat) : Lane.Steps version config id (s.lane id) ((s.brokeDown i).lane id) := by
  have noted : Lane.Steps version config id (s.lane id) ((s.note (.failed i)).lane id) :=
    steps_noted rfl rfl rfl id
  unfold brokeDown
  dsimp only
  split
  · next found => exact noted.trans (steps_reset found _ id)
  · exact noted

theorem steps_acted {i : Nat} {stream : Stream} (index : Nat) {action : Action}
    (found : s.stream? i = some stream) (plain : s.pushes stream action = false) (id : Nat) :
    Lane.Steps version config id (s.lane id) (((perform addTask s stream action).1.note
      (.stepped i index (.act action) (perform addTask s stream action).2)).lane id) := by
  cases action with
  | info => exact steps_noted rfl rfl rfl id
  | read wait => exact steps_acts found (Stream.acts_read stream) (.read found index _) id
  | readAll => exact steps_acts found (Stream.acts_readUpTo _ stream) (.readAll found index) id
  | headers list final =>
    cases allowed : stream.sendHeaders list final with
    | error e =>
      simp only [perform, send, allowed]
      exact steps_noted rfl rfl rfl id
    | ok sent =>
      simp only [perform, send, allowed]
      exact steps_acts found (Stream.acts_sendHeaders allowed) (.sentHeaders found index allowed) id
  | data bytes final =>
    cases allowed : stream.sendData bytes final s.pieceLimit with
    | error e =>
      simp only [perform, send, allowed]
      exact steps_noted rfl rfl rfl id
    | ok sent =>
      simp only [perform, send, allowed]
      exact steps_acts found (Stream.acts_sendData allowed) (.sentData found index allowed) id
  | push list priority =>
    -- This push is refused, and nothing is sent.
    obtain ⟨e, refused⟩ : ∃ e, s.pushError? stream = some e := by
      simpa [pushes, Option.isSome_iff_exists] using plain
    simp only [perform, refused]
    exact steps_noted rfl rfl rfl id

/-- A step of a task is a chain of steps on each lane. -/
theorem Move.lanes {t : Session} (h : Move s t) (stable : s.Stable) (fresh : s.Fresh) (id : Nat) :
    Lane.Steps s.version s.config id (s.lane id) (t.lane id) := by
  cases h with
  | @started i executor next => exact steps_noted (s := { s with executor }) rfl rfl rfl id
  | acted index found plain => exact steps_acted index found plain id
  | promised list priority found allowed => exact steps_promised stable fresh list priority found allowed id
  | pushed | resumed => exact steps_noted rfl rfl rfl id
  | parked | unparked => exact .refl
  | woken p found => exact steps_acts found (Stream.acts_read _) (.read found p.index _) id
  | returned i => exact steps_returned i id
  | brokeDown i => exact steps_brokeDown i id

/-! ### Frames of the peer -/

theorem of_listed? {id : Nat} {stream : Stream} (found : s.listed? id = some stream) :
    s.stream? id = some stream := by
  unfold listed? at found
  split at found
  · exact found
  · cases found

theorem of_active? {id : Nat} {stream : Stream} (found : s.active? id = some stream) :
    s.stream? id = some stream ∧ stream.isActive := by
  obtain ⟨listed, active⟩ := Option.filter_eq_some_iff.mp found
  exact ⟨of_listed? listed, active⟩

theorem steps_announced (pushes : 0 < s.nextPush) {f : Outgoing} (kind : f.isAnnouncement) (id : Nat) :
    Lane.Steps version config id (s.lane id) ((s.queue f 0).lane id) := by
  have zero : f.stream = 0 := by
    cases f with
    | frame frame => cases frame <;> first | rfl | cases kind
    | headers | pushPromise => cases kind
  by_cases same : id = 0
  · have used : (s.lane id).fresh = false := by
      simp [lane, isFresh, same, Nat.ne_of_gt pushes]
    rw [lane_queue (zero.trans same.symm)]
    exact .single (.announced same used kind)
  · rw [lane_queue_other (zero ▸ Ne.symm same)]
    exact .refl

theorem steps_sendGoAway (pushes : 0 < s.nextPush) (code : ErrorCode) (id : Nat) :
    Lane.Steps version config id (s.lane id) ((s.sendGoAway code).lane id) := by
  unfold sendGoAway
  split
  · exact .refl
  · exact (ReflTransGen.single .left).trans (steps_announced (s := { s with goAwaySent := true }) pushes
      (f := .frame (.goAway s.lastPeer code)) rfl id)

theorem steps_lastPeer {i : Nat} (new : s.lastPeer < i) (id : Nat) :
    Lane.Steps version config id (s.lane id) (({ s with lastPeer := i } : Session).lane id) := by
  -- All that a lane holds of this number is whether its own identifier is still unused.
  by_cases same : ({ s with lastPeer := i } : Session).isFresh id = s.isFresh id
  · rw [show ({ s with lastPeer := i } : Session).lane id = s.lane id from
      Lane.ext rfl rfl same rfl rfl rfl rfl rfl]
    exact .refl
  · have past : ({ s with lastPeer := i } : Session).isFresh id = false := by
      simp only [isFresh] at same ⊢
      split
      · next even => simp [even] at same
      · next odd =>
        simp only [odd] at same
        simp at same ⊢
        omega
    rw [show ({ s with lastPeer := i } : Session).lane id = { s.lane id with fresh := false } from
      Lane.ext rfl rfl past rfl rfl rfl rfl rfl]
    exact .single .outdated

theorem isFresh_of_odd {i : Nat} (odd : i % 2 ≠ 0) (new : s.lastPeer < i) : s.isFresh i := by
  simp [isFresh, odd, new]

theorem lane_lastPeer {i : Nat} (odd : i % 2 ≠ 0) :
    ({ s with lastPeer := i } : Session).lane i = { s.lane i with fresh := false } :=
  Lane.ext rfl rfl (by simp [lane, isFresh, odd]) rfl rfl rfl rfl rfl

theorem steps_setStream {i : Nat} {stream stream' : Stream} (found : s.stream? i = some stream)
    (acts : stream.Acts stream' [])
    (own : Lane.Step version config i (s.lane i) { s.lane i with stream := some stream' }) (id : Nat) :
    Lane.Steps version config id (s.lane id) ((s.setStream stream').lane id) := by
  obtain rfl : stream'.id = i := acts.id.trans (id_of_stream? found)
  by_cases same : stream'.id = id
  · subst same
    rw [lane_setStream (by simp [found])]
    exact .single own
  · rw [lane_setStream_other same]
    exact .refl

theorem steps_accepted {i : Nat} {stream stream' : Stream} {part : Inbound}
    (found : s.stream? i = some stream) (acts : stream.Acts stream' [])
    (own : Lane.Step version config i (s.lane i)
      ({ s.lane i with stream := some stream' }.note (.accepted i part))) (id : Nat) :
    Lane.Steps version config id (s.lane id) (((s.setStream stream').note (.accepted i part)).lane id) := by
  obtain rfl : stream'.id = i := acts.id.trans (id_of_stream? found)
  by_cases same : stream'.id = id
  · subst same
    rw [lane_note rfl rfl, lane_setStream (by simp [found])]
    exact .single own
  · rw [lane_note_other (by simp [Event.about, same]), lane_setStream_other same]
    exact .refl

/-- What a frame does is a chain of steps on each lane. -/
theorem Effect.lanes {t : Session} {decoded : Except Hpack.Fault (List Header)} {frame : Frame}
    (h : Effect s decoded frame t)
    (pushes : 0 < s.nextPush) (fresh : s.Fresh) (hopen : s.outbox.closed = false)
    (idle : s.executor.stopped = false) (small : frame.stream < Frame.idBound)
    (limits : (∀ params, frame ≠ .settings false params) → s.peer = limitsAfter s.version s.journal)
    (copies : s.copies = s.peer)
    (heard : (s.lane frame.stream).past.getLast? = some (.dispatched frame)) (id : Nat) :
    Lane.Steps s.version s.config id (s.lane id) (t.lane id) := by
  have proper {i : Nat} (odd : i % 2 ≠ 0) : i ≠ 0 := by
    rintro rfl
    exact odd rfl
  cases h with
  | passed | left | crashed => exact .refl
  | breach => exact steps_sendGoAway pushes _ id
  | answered payload => exact steps_announced pushes (f := .frame (.ping true payload)) rfl id
  | @adopted params peer allowed =>
    exact steps_announced (s := s.adopt peer) pushes (f := .frame (.settings true [])) rfl id
  | @trailed i block priority flags stream found active going list read =>
    have found := of_listed? found
    rw [id_of_stream? found]
    exact steps_accepted found (Stream.reads_acceptHeaders stream list true).silent (.trailed found active going list) id
  -- Other lanes than that of the stream see only that its identifier, and those before it, are used up.
  | @turnedAway i block final priority flags staying odd new rank =>
    by_cases same : i = id
    · subst same
      rw [lane_queue (by rfl), lane_lastPeer odd]
      exact .single (.refused (isFresh_of_odd odd new) (proper odd) small rank)
    · rw [lane_queue_other (by exact same)]
      exact steps_lastPeer new id
  | @opened i block final priority flags staying odd new room rank list read =>
    by_cases same : i = id
    · subst same
      have unused := isFresh_of_odd odd new
      have blank := fresh i unused
      let u : Session := { s with lastPeer := i }
      have unopened : (u.lane i).Blank := by
        rw [lane_lastPeer odd]
        exact ⟨blank.stream, blank.window, blank.waiting, blank.past⟩
      have own : (s.newStream i 0 rank).id = i := rfl
      have limits : s.peer = limitsAfter u.version u.journal := limits nofun
      have new : s.newStream i 0 rank = Stream.new s.version s.config s.peer.window i 0 rank := by
        rw [← show s.newWindow = s.peer.window from congrArg PeerSettings.window copies]
        rfl
      rw [lane_added unopened own idle list final, lane_lastPeer odd, ← limits, new]
      exact .single (.opened unused hopen staying (proper odd) small 0 rank
        (limits ▸ (legal_limitsAfter ..).window) list (absurd rfl))
    · rw [lane_addTask_other same, lane_addStream_other same]
      exact steps_lastPeer new id
  | @received i bytes final stream stream' found going fits =>
    obtain ⟨found, active⟩ := of_active? found
    exact steps_accepted found (Stream.reads_acceptData fits).silent (.received found active going fits) id
  | @granted i increment stream stream' frames found positive fits =>
    obtain ⟨found, active⟩ := of_active? found
    have acts := Stream.acts_grant fits
    by_cases same : i = id
    · subst same
      rw [lane_acts (s := s.note _) found acts, lane_note rfl rfl]
      exact .single (.granted found active positive fits)
    · rw [lane_acts_other (s := s.note _) found acts same, lane_note_other (by simp [Event.about, same])]
      exact .refl
  | offended found => exact steps_reset (of_active? found).1 _ id
  | @hungUp i stream found code =>
    have found := of_listed? found
    exact steps_setStream found (Stream.acts_abort stream) (.hungUp found heard) id

end Changes

end Session

end Multiplex
