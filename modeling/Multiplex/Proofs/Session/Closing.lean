import Multiplex.Proofs.Session.Handles
import Multiplex.Proofs.Session.Interleavings
import Multiplex.Proofs.Session.Moments
import Multiplex.Proofs.Session.Staffing
import Multiplex.Proofs.Session.StopReasons

/-! # Sessions that have closed down

When a session closes down, the outbox is emptied and closed and the executor stops (`Shut`). From then on whatever is done
to the session is fruitless (`Hushed`): handlers may go on and handles may be used, but nothing is written or put into the
outbox, no stream is opened and no task is started. -/

namespace Multiplex

/-- Whether an event tells only of a handler: it takes a step, returns, or breaks down. -/
def Event.isIdle : Event → Bool
  | .stepped .. | .ended _ | .failed _ => true
  | _ => false

namespace Session

open Relation (ReflTransGen)

variable {s t u : Session}

/-! ### What is fruitless -/

/-- The outbox is closed and empty, and the executor has stopped and holds no task. -/
structure Shut (s : Session) : Prop where
  closed : s.outbox.closed
  empty : s.outbox.queue.toList = []
  stopped : s.executor.stopped
  waiting : s.executor.queue.toList = []

/-- A change that leaves the wire, the outbox, the executor and the numbers of the streams alone. -/
structure Hushed (s t : Session) : Prop where
  rest : t = { s with streams := t.streams, listed := t.listed, parked := t.parked, alive := t.alive, journal := t.journal }
  ids : t.streams.map (·.id) = s.streams.map (·.id)
  journal : ∃ events, t.journal = s.journal ++ events ∧ ∀ e ∈ events, e.isIdle

namespace Hushed

theorem of_journal (rest : t = { s with streams := t.streams, listed := t.listed, parked := t.parked, alive := t.alive })
    (ids : t.streams.map (·.id) = s.streams.map (·.id)) : Hushed s t := by
  have journal : t.journal = s.journal := by rw [rest]
  exact ⟨by rw [journal]; exact rest, ids, [], journal.trans (List.append_nil _).symm, nofun⟩

theorem refl (s : Session) : Hushed s s := of_journal rfl rfl

theorem trans (first : Hushed s t) (second : Hushed t u) : Hushed s u where
  rest := by rw [second.rest, first.rest]
  ids := second.ids.trans first.ids
  journal := by
    obtain ⟨early, split, idle⟩ := first.journal
    obtain ⟨late, split', idle'⟩ := second.journal
    refine ⟨early ++ late, by rw [split', split, List.append_assoc], fun e member => ?_⟩
    exact (List.mem_append.mp member).elim (idle e) (idle' e)

theorem note {e : Event} (idle : e.isIdle) : Hushed s (s.note e) := ⟨rfl, rfl, [e], rfl, by simpa using idle⟩

theorem setStream (stream : Stream) : Hushed s (s.setStream stream) := of_journal rfl (Ordinary.setStream stream).ids

theorem shut (hushed : Hushed s t) (shut : s.Shut) : t.Shut := by
  have outbox : t.outbox = s.outbox := by rw [hushed.rest]
  have executor : t.executor = s.executor := by rw [hushed.rest]
  exact ⟨outbox ▸ shut.closed, outbox ▸ shut.empty, executor ▸ shut.stopped, executor ▸ shut.waiting⟩

theorem status (hushed : Hushed s t) : t.status = s.status := by rw [hushed.rest]

end Hushed

namespace Shut

theorem queueAll (shut : s.Shut) (frames : List Outgoing) (priority : Nat) : s.queueAll frames priority = s := by
  unfold Session.queueAll
  induction frames with
  | nil => rfl
  | cons f rest ih => rw [List.foldl_cons, queue, if_pos shut.closed, ih]

theorem update (shut : s.Shut) (stream : Stream) (frames : List Outgoing) : Hushed s (s.update stream frames) := by
  have set := Hushed.setStream (s := s) stream
  rw [Session.update, (set.shut shut).queueAll]
  exact set

theorem perform (shut : s.Shut) (launch : Nat → Session → Session) (stream : Stream) (action : Action) :
    Hushed s (perform launch s stream action).1 := by
  rw [perform_plain (pushes_of_closed shut.closed stream action)]
  cases action with
  | info => exact .refl s
  | read | readAll => exact shut.update ..
  | headers list final =>
    unfold Session.perform send
    dsimp only
    split
    · exact shut.update ..
    · exact .refl s
  | data bytes final =>
    unfold Session.perform send
    dsimp only
    split
    · exact shut.update ..
    · exact .refl s
  | push list priority =>
    obtain ⟨e, refused⟩ : ∃ e, s.pushError? stream = some e := by
      simpa [pushes, Option.isSome_iff_exists] using pushes_of_closed shut.closed stream (.push list priority)
    simp only [Session.perform, refused]
    exact .refl s

theorem returned (shut : s.Shut) (id : Nat) : Hushed s (s.returned id) := by
  have noted : Hushed s (s.note (.ended id)) := .note rfl
  unfold Session.returned
  dsimp only
  split
  · split
    · exact noted
    · exact noted.trans ((noted.shut shut).update ..)
  · exact noted

theorem brokeDown (shut : s.Shut) (id : Nat) : Hushed s (s.brokeDown id) := by
  have noted : Hushed s (s.note (.failed id)) := .note rfl
  unfold Session.brokeDown
  dsimp only
  split
  · exact noted.trans ((noted.shut shut).update ..)
  · exact noted

end Shut

theorem Move.hushed (h : Move s t) (shut : s.Shut) : Hushed s t := by
  cases h with
  | started next => simp [Executor.next?, shut.stopped] at next
  | acted index found plain => exact (shut.perform ..).trans (.note rfl)
  | promised list priority found allowed =>
    obtain ⟨-, hopen, -⟩ := of_pushError? allowed
    exact absurd shut.closed (Bool.eq_false_iff.mp hopen)
  | pushed | resumed => exact .note rfl
  | parked | unparked => exact .of_journal rfl rfl
  | woken p found => exact (shut.update ..).trans (.note rfl)
  | returned id => exact shut.returned id
  | brokeDown id => exact shut.brokeDown id

theorem Moves.hushed (h : Moves s t) (shut : s.Shut) : Hushed s t := by
  induction h with
  | refl => exact .refl s
  | tail _ last ih => exact ih.trans (last.hushed (ih.shut shut))

theorem Advance.hushed {reason : StopReason} (h : Advance s t) (shut : s.Shut) (stopped : s.status = .stopped reason) :
    Hushed s t := by
  cases h with
  | moved h => exact h.hushed shut
  | closed =>
    have emptied : s.outbox.close = s.outbox := by
      rw [Outbox.close, Queue.clear_of_toList shut.empty, ← shut.closed]
    exact .of_journal (by rw [emptied]; rfl) (Ordinary.abortListed _).ids
  | halted =>
    have none : s.executor.stop.2 = [] := shut.waiting
    have same : s.executor.stop.1 = s.executor := by
      rw [Executor.stop, Queue.clear_of_toList shut.waiting, ← shut.stopped]
    rw [none, same]
    exact .refl s
  | began ready => simp [stopped] at ready
  | polled running | counted running | arrived running | read running | dispatched running | wentAway running
  | pruned running | wrote running | gone running | finished running => simp [stopped] at running

theorem Touch.hushed {reason : StopReason} (h : Touch s t) (shut : s.Shut) (stopped : s.status = .stopped reason) :
    Hushed s t := by
  cases h with
  | advanced h => exact h.hushed shut stopped
  | dropped => exact .of_journal rfl rfl
  | used id action =>
    unfold use
    split
    · exact .refl s
    · exact shut.perform ..

theorem Outlives.hushed {reason : StopReason} (h : Outlives s t) (shut : s.Shut) (stopped : s.status = .stopped reason) :
    Hushed s t := by
  induction h with
  | refl => exact .refl s
  | tail _ last ih => exact ih.trans (last.hushed (ih.shut shut) (ih.status.trans stopped))

/-! ### The end among threads -/

/-- What may still happen after a run has returned: handlers go on without effect, and the tasks of pushed streams that come
    too late for the executor are cancelled. -/
structure Spent (m n : Moment) : Prop where
  outbox : n.session.outbox = m.session.outbox
  executor : n.session.executor = m.session.executor
  transport : n.session.transport = m.session.transport
  ids : n.session.ids = m.session.ids
  fewer : n.unsubmitted ⊆ m.unsubmitted
  journal : ∃ events, n.session.journal = m.session.journal ++ events ∧
    ∀ e ∈ events, e.isIdle ∨ ∃ id ∈ m.unsubmitted, e.opens id ∨ e = .cancelled id

section Moments
variable {m n o : Moment}

namespace Spent

theorem trans (first : Spent m n) (second : Spent n o) : Spent m o where
  outbox := second.outbox.trans first.outbox
  executor := second.executor.trans first.executor
  transport := second.transport.trans first.transport
  ids := second.ids.trans first.ids
  fewer := List.Subset.trans second.fewer first.fewer
  journal := by
    obtain ⟨early, split, spent⟩ := first.journal
    obtain ⟨late, split', spent'⟩ := second.journal
    refine ⟨early ++ late, by rw [split', split, List.append_assoc], fun e member => ?_⟩
    rcases List.mem_append.mp member with here | there
    · exact spent e here
    · exact (spent' e there).imp_right fun ⟨id, waits, same⟩ => ⟨id, first.fewer waits, same⟩

end Spent

namespace AtRest
variable {reason : StopReason}

end AtRest

end Moments

/-! ### The outbox while the session serves -/

theorem Limited.closed (limited : Limited s t) : t.outbox.closed = s.outbox.closed := by
  unfold Limited at limited
  exact limited.closed

theorem stream?_of_mem (distinct : s.ids.Nodup) {stream : Stream} (member : stream ∈ s.streams) :
    s.stream? stream.id = some stream := by
  obtain ⟨found, same⟩ : ∃ found, s.stream? stream.id = some found :=
    Option.isSome_iff_exists.mp (List.find?_isSome.mpr ⟨stream, member, by simp⟩)
  rw [same]
  exact congrArg some (List.inj_on_of_nodup_map distinct (List.mem_of_find?_eq_some same) member (id_of_stream? same))

theorem Numbered.nodup_ids (numbered : s.Numbered) : s.ids.Nodup := by
  rw [Session.ids, numbered.ids]
  exact numbered.nodup

end Session

end Multiplex
