import Multiplex.Proofs.Queue
import Multiplex.Session.Handlers

/-! # Lanes

A lane is what a session holds of one stream: the stream itself, the frames on it that wait in the
outbox, and the part of the journal that is about it. The elementary changes of a session change the lane
of the stream they are about in the same way, and leave the other lanes alone. -/

namespace Multiplex

/-! ### Events of one stream -/

/-- The stream that an event is about. -/
def Event.about : Event → Option Nat
  | .dispatched frame => some frame.stream
  | .queued f | .taken f => some f.stream
  | .opened id .. | .accepted id _ | .granted id _ | .started id | .stepped id .. | .ended id | .failed id
  | .cancelled id => some id
  | .polled | .read .. | .wrote _ | .writeFailed => none

/-- Whether an event opens a stream. -/
def Event.opens (id : Nat) : Event → Bool
  | .opened stream .. => stream == id
  | _ => false

/-- The limits of the peer after an event. -/
def Event.adjust (version : Version) (limits : PeerSettings) : Event → PeerSettings
  | .dispatched (.settings false params) =>
    match limits.applyAll version params with
    | .ok limits => limits
    | .error _ => limits
  | _ => limits

/-- The limits of the peer after all that a journal tells. -/
def limitsAfter (version : Version) (journal : List Event) : PeerSettings :=
  journal.foldl (Event.adjust version) {}

/-- The window that the peer granted new streams when a stream was opened, if it was. -/
def openingWindow (version : Version) (id : Nat) (journal : List Event) : Option Nat :=
  if journal.any (·.opens id) then
    some (limitsAfter version (journal.takeWhile fun e => !e.opens id)).window
  else none

theorem Event.about_of_opens {id : Nat} {e : Event} (opens : e.opens id) : e.about = some id := by
  cases e with
  | opened => simpa [Event.opens, Event.about] using opens
  | _ => cases opens

theorem limitsAfter_append (version : Version) (journal : List Event) (e : Event) :
    limitsAfter version (journal ++ [e]) = e.adjust version (limitsAfter version journal) := by
  simp [limitsAfter]

/-- What comes behind the opening of a stream does not change the window it started with. -/
theorem openingWindow_append {version : Version} {id : Nat} {journal : List Event} {e : Event}
    (other : e.opens id = false) :
    openingWindow version id (journal ++ [e]) = openingWindow version id journal := by
  have early : journal.any (·.opens id) →
      (journal ++ [e]).takeWhile (!·.opens id) = journal.takeWhile (!·.opens id) := by
    intro opened
    induction journal with
    | nil => cases opened
    | cons first rest ih =>
      rw [List.cons_append, List.takeWhile_cons, List.takeWhile_cons]
      cases opens : first.opens id with
      | true => rfl
      | false =>
        have later : rest.any (·.opens id) := by simpa [opens] using opened
        simp [ih later]
  unfold openingWindow
  rw [List.any_append, List.any_cons, other]
  simp only [List.any_nil, Bool.or_false]
  split
  · next opened => rw [early opened]
  · rfl

theorem openingWindow_opened {version : Version} {id : Nat} {journal : List Event} {e : Event}
    (opens : e.opens id) (new : openingWindow version id journal = none) :
    openingWindow version id (journal ++ [e]) = some (limitsAfter version journal).window := by
  have unopened : ∀ e ∈ journal, e.opens id = false := by
    simpa [openingWindow] using new
  have whole : (journal ++ [e]).takeWhile (!·.opens id) = journal := by
    rw [List.takeWhile_append_of_pos (by simpa using unopened)]
    simp [opens]
  rw [openingWindow, if_pos (by simp [opens]), whole]

/-! ### Lanes -/

/-- What a session holds of one stream. -/
@[ext] structure Lane where
  stream : Option Stream
  /-- The session looks after the stream. -/
  listed : Bool
  /-- Nothing has been made of the identifier so far. -/
  fresh : Bool
  /-- What has happened, in order. -/
  past : List Event
  /-- The frames that wait, each with its rank. -/
  waiting : List (Nat × Outgoing)
  /-- The outbox is closed. -/
  closed : Bool
  /-- The window that the peer granted new streams when this one was opened. -/
  window : Option Nat
  /-- GOAWAY was sent. -/
  leaving : Bool

namespace Lane

/-- Notes an event. -/
def note (l : Lane) (e : Event) : Lane := { l with past := l.past ++ [e] }

/-- Puts a frame into the outbox, if it is open. -/
def queue (l : Lane) (f : Outgoing) (priority : Nat) : Lane :=
  if l.closed then l else { l with waiting := Queue.insert (f.rank priority) f l.waiting }.note (.queued f)

/-- Puts frames into the outbox, in order. -/
def queueAll (l : Lane) (frames : List Outgoing) (priority : Nat) : Lane :=
  frames.foldl (fun l f => l.queue f priority) l

/-- Puts the stream in its place and its frames into the outbox. -/
def put (l : Lane) (stream : Stream) (frames : List Outgoing) : Lane :=
  { l with stream := some stream }.queueAll frames stream.priority

theorem queue_rest (l : Lane) (f : Outgoing) (priority : Nat) :
    l.queue f priority =
      { l with waiting := (l.queue f priority).waiting, past := (l.queue f priority).past } := by
  unfold queue
  split <;> rfl

theorem queueAll_rest (l : Lane) (frames : List Outgoing) (priority : Nat) :
    l.queueAll frames priority =
      { l with waiting := (l.queueAll frames priority).waiting,
               past := (l.queueAll frames priority).past } := by
  unfold queueAll
  induction frames generalizing l with
  | nil => rfl
  | cons f rest ih => rw [List.foldl_cons, ih, queue_rest]

section Put
variable (l : Lane) (stream : Stream) (frames : List Outgoing)

theorem put_rest :
    l.put stream frames =
      { l with stream := some stream, waiting := (l.put stream frames).waiting,
               past := (l.put stream frames).past } :=
  queueAll_rest ..

@[simp] theorem stream_put : (l.put stream frames).stream = some stream := by rw [put_rest]

@[simp] theorem fresh_put : (l.put stream frames).fresh = l.fresh := by rw [put_rest]

@[simp] theorem listed_put : (l.put stream frames).listed = l.listed := by rw [put_rest]

@[simp] theorem closed_put : (l.put stream frames).closed = l.closed := by rw [put_rest]

@[simp] theorem window_put : (l.put stream frames).window = l.window := by rw [put_rest]

@[simp] theorem leaving_put : (l.put stream frames).leaving = l.leaving := by rw [put_rest]

theorem queue_of_open {l : Lane} (hopen : l.closed = false) (f : Outgoing) (priority : Nat) :
    l.queue f priority =
      { l with waiting := Queue.insert (f.rank priority) f l.waiting, past := l.past ++ [.queued f] } :=
  if_neg (Bool.eq_false_iff.mp hopen)

theorem past_queueAll {l : Lane} (hopen : l.closed = false) (frames : List Outgoing) (priority : Nat) :
    (l.queueAll frames priority).past = l.past ++ frames.map .queued := by
  unfold queueAll
  induction frames generalizing l with
  | nil => simp
  | cons f rest ih =>
    have first := l.queue_rest f priority
    rw [List.foldl_cons, ih (by rw [first]; exact hopen), queue_of_open hopen]
    simp

theorem past_put (hopen : l.closed = false) :
    (l.put stream frames).past = l.past ++ frames.map .queued :=
  past_queueAll (l := { l with stream := some stream }) hopen frames stream.priority

theorem queueAll_of_closed {l : Lane} (closed : l.closed) (frames : List Outgoing) (priority : Nat) :
    l.queueAll frames priority = l := by
  unfold queueAll
  induction frames with
  | nil => rfl
  | cons f rest ih => rw [List.foldl_cons, queue, if_pos closed, ih]

end Put

end Lane

namespace Session

/-- Whether nothing has been made of an identifier so far. -/
def isFresh (s : Session) (id : Nat) : Bool := if id % 2 = 0 then s.nextPush ≤ id else s.lastPeer < id

/-- The lane of a stream. -/
def lane (s : Session) (id : Nat) : Lane where
  stream := s.stream? id
  listed := s.listed.contains id
  fresh := s.isFresh id
  past := s.journal.filter (·.about == some id)
  waiting := s.outbox.queue.entries.filter (·.2.stream == id)
  closed := s.outbox.closed
  window := openingWindow s.version id s.journal
  leaving := s.goAwaySent

variable {s : Session} {id : Nat}

theorem past_lane (s : Session) (id : Nat) : (s.lane id).past = s.journal.filter (·.about == some id) := rfl

/-! ### Events -/

theorem lane_note {e : Event} (about : e.about = some id) (other : e.opens id = false) :
    (s.note e).lane id = (s.lane id).note e :=
  Lane.ext rfl rfl rfl (by simp [lane, note, Lane.note, about]) rfl rfl (openingWindow_append other) rfl

theorem lane_note_other {e : Event} (other : e.about ≠ some id) : (s.note e).lane id = s.lane id := by
  have closed : e.opens id = false := by
    cases opens : e.opens id with
    | false => rfl
    | true => exact absurd (Event.about_of_opens opens) other
  exact Lane.ext rfl rfl rfl (by simp [lane, note, other]) rfl rfl (openingWindow_append closed) rfl

theorem lane_note_opened {e : Event} (opens : e.opens id) (new : (s.lane id).window = none) :
    (s.note e).lane id =
      { (s.lane id).note e with window := some (limitsAfter s.version s.journal).window } :=
  Lane.ext rfl rfl rfl (by simp [lane, note, Lane.note, Event.about_of_opens opens]) rfl rfl
    (openingWindow_opened opens new) rfl

/-! ### The outbox -/

theorem lane_queue {f : Outgoing} (about : f.stream = id) (priority : Nat) :
    (s.queue f priority).lane id = (s.lane id).queue f priority := by
  unfold queue Lane.queue
  by_cases closed : s.outbox.closed
  · rw [if_pos closed, if_pos (by exact closed)]
  · rw [if_neg closed, if_neg (by exact closed), lane_note (by simp [Event.about, about]) rfl]
    refine congrArg (Lane.note · _) (Lane.ext rfl rfl rfl rfl ?_ ?_ rfl rfl)
    · simp only [lane, Outbox.entries_push (Bool.eq_false_iff.mpr closed)]
      exact Queue.filter_insert (fun f => f.stream == id) _ f (by simp [about]) s.outbox.queue.sorted
    · simp [lane, Outbox.push, closed]

theorem lane_queue_other {f : Outgoing} (other : f.stream ≠ id) (priority : Nat) :
    (s.queue f priority).lane id = s.lane id := by
  unfold queue
  by_cases closed : s.outbox.closed
  · rw [if_pos closed]
  · rw [if_neg closed, lane_note_other (by simp [Event.about, other])]
    refine Lane.ext rfl rfl rfl rfl ?_ ?_ rfl rfl
    · simp only [lane, Outbox.entries_push (Bool.eq_false_iff.mpr closed)]
      exact Queue.filter_insert_other (fun f => f.stream == id) _ f (by simp [other]) _
    · simp [lane, Outbox.push, closed]

theorem lane_queueAll {frames : List Outgoing} (about : ∀ f ∈ frames, f.stream = id) (priority : Nat) :
    (s.queueAll frames priority).lane id = (s.lane id).queueAll frames priority := by
  unfold queueAll Lane.queueAll
  induction frames generalizing s with
  | nil => rfl
  | cons f rest ih =>
    obtain ⟨first, others⟩ := List.forall_mem_cons.mp about
    rw [List.foldl_cons, ih others, lane_queue first, List.foldl_cons]

theorem lane_queueAll_other {frames : List Outgoing} (other : ∀ f ∈ frames, f.stream ≠ id) (priority : Nat) :
    (s.queueAll frames priority).lane id = s.lane id := by
  unfold queueAll
  induction frames generalizing s with
  | nil => rfl
  | cons f rest ih =>
    obtain ⟨first, others⟩ := List.forall_mem_cons.mp other
    rw [List.foldl_cons, ih others, lane_queue_other first]

/-! ### Streams -/

theorem id_of_stream? {stream : Stream} (found : s.stream? id = some stream) : stream.id = id := by
  simpa using List.find?_some found

theorem lane_setStream {stream : Stream} (present : (s.stream? stream.id).isSome) :
    (s.setStream stream).lane stream.id = { s.lane stream.id with stream := some stream } :=
  Lane.ext (stream?_setStream s present) rfl rfl rfl rfl rfl rfl rfl

theorem lane_setStream_other {stream : Stream} (other : stream.id ≠ id) :
    (s.setStream stream).lane id = s.lane id :=
  Lane.ext (stream?_setStream_ne s (Ne.symm other)) rfl rfl rfl rfl rfl rfl rfl

theorem lane_update {stream : Stream} (present : (s.stream? stream.id).isSome) {frames : List Outgoing}
    (about : ∀ f ∈ frames, f.stream = stream.id) :
    (s.update stream frames).lane stream.id = (s.lane stream.id).put stream frames := by
  rw [update, lane_queueAll about, lane_setStream present]
  rfl

theorem lane_update_other {stream : Stream} (other : stream.id ≠ id) {frames : List Outgoing}
    (about : ∀ f ∈ frames, f.stream = stream.id) : (s.update stream frames).lane id = s.lane id := by
  rw [update, lane_queueAll_other (fun f member => about f member ▸ other), lane_setStream_other other]

end Session

end Multiplex
