import Mathlib.Logic.Relation
import Multiplex.Session.Handlers

/-! # The steps of tasks

A task takes its steps one at a time (`Move`): it is started, acts, suspends, goes on, or ends. An action
and its reply are one step, and so is a promise with the stream it opens, but the tasks that run inside a
push take their own steps. Whatever order a schedule gives, the run of tasks is a chain of such steps, and
no chain of them touches more of a session than `Kept` allows. -/

namespace Multiplex

/-- Whether an event is an exchange with the peer. -/
def Event.isExchange : Event → Bool
  | .polled | .read .. | .dispatched _ | .taken _ | .wrote _ | .writeFailed => true
  | _ => false

namespace Session

open Relation (ReflTransGen)

/-! ### Tasks -/

/-- Whether an action starts a push. -/
def pushes (s : Session) (stream : Stream) : Action → Bool
  | .push .. => (s.pushError? stream).isNone
  | _ => false

theorem of_pushError? {s : Session} {stream : Stream} (allowed : s.pushError? stream = none) :
    stream.isPushed = false ∧ s.outbox.closed = false ∧ s.goAwaySent = false ∧ stream.aborted = false ∧
      stream.finalSent = false ∧ s.nextPush ≤ maxStream := by
  unfold pushError? isDraining at allowed
  split at allowed
  · cases allowed
  split at allowed
  · cases allowed
  split at allowed
  · cases allowed
  split at allowed
  · cases allowed
  split at allowed
  · cases allowed
  simp_all

/-- A push that is allowed finds the outbox open, so its promise is not refused. -/
theorem perform_push {s : Session} {stream : Stream} (allowed : s.pushError? stream = none)
    (launch : Nat → Session → Session) (list : List Header) (priority : Nat) :
    perform launch s stream (.push list priority) =
      (launch s.nextPush (s.promise stream list priority), .pushed s.nextPush) := by
  simp [perform, allowed, (of_pushError? allowed).2.1]

/-- A step of a task. -/
inductive Move : Session → Session → Prop
  | started {s : Session} {id : Nat} {executor : Executor Nat}
      (next : s.executor.next? = some (id, executor)) :
      Move s ({ s with executor }.note (.started id))
  | acted {s : Session} {id : Nat} {stream : Stream} (index : Nat) {action : Action}
      (found : s.stream? id = some stream) (plain : s.pushes stream action = false) :
      Move s ((perform addTask s stream action).1.note
        (.stepped id index (.act action) (perform addTask s stream action).2))
  | promised {s : Session} {id : Nat} {stream : Stream} (list : List Header) (priority : Nat)
      (found : s.stream? id = some stream) (allowed : s.pushError? stream = none) :
      Move s (addTask s.nextPush (s.promise stream list priority))
  /-- A push returns. -/
  | pushed {s : Session} (id index : Nat) (list : List Header) (priority promised : Nat) :
      Move s (s.note (.stepped id index (.act (.push list priority)) (.pushed promised)))
  | parked {s : Session} (id index : Nat) (step : Multiplex.Step) (rest : List Multiplex.Step) :
      Move s (s.park id index step rest)
  | unparked {s : Session} {parked : List Parked} (fewer : parked.Sublist s.parked) :
      Move s { s with parked }
  | resumed {s : Session} (p : Parked) (waits : p.waitsForPoll = true) :
      Move s (s.note (.stepped p.stream p.index p.step .resumed))
  | woken {s : Session} {stream : Stream} (p : Parked) (found : s.stream? p.stream = some stream) :
      Move s ((s.readPart stream).1.note
        (.stepped p.stream p.index p.step (.input (s.readPart stream).2)))
  | returned {s : Session} (id : Nat) : Move s (s.returned id)
  | brokeDown {s : Session} (id : Nat) : Move s (s.brokeDown id)

/-- A chain of steps of tasks. -/
def Moves : Session → Session → Prop := ReflTransGen Move

/-! ### What tasks keep -/

/-- Tasks touch the streams, the outbox and their own queue, open and stop neither of the two, and exchange
    nothing with the peer. -/
structure Kept (s t : Session) : Prop where
  rest : t = { s with outbox := t.outbox, streams := t.streams, listed := t.listed, nextPush := t.nextPush,
                      executor := t.executor, parked := t.parked, journal := t.journal }
  closed : t.outbox.closed = s.outbox.closed
  stopped : t.executor.stopped = s.executor.stopped
  pushes : ∃ count, t.nextPush = s.nextPush + 2 * count
  journal : ∃ events, t.journal = s.journal ++ events ∧ ∀ e ∈ events, e.isExchange = false

namespace Kept
variable {s t u : Session}

theorem refl (s : Session) : Kept s s := ⟨rfl, rfl, rfl, ⟨0, rfl⟩, [], (List.append_nil _).symm, nofun⟩

theorem trans (first : Kept s t) (second : Kept t u) : Kept s u where
  rest := by rw [second.rest, first.rest]
  closed := second.closed.trans first.closed
  stopped := second.stopped.trans first.stopped
  pushes := by
    obtain ⟨m, early⟩ := first.pushes
    obtain ⟨n, late⟩ := second.pushes
    exact ⟨m + n, by omega⟩
  journal := by
    obtain ⟨early, split, inner⟩ := first.journal
    obtain ⟨late, split', inner'⟩ := second.journal
    refine ⟨early ++ late, by rw [split', split, List.append_assoc], fun e member => ?_⟩
    exact (List.mem_append.mp member).elim (inner e) (inner' e)

/-- A change that notes nothing and pushes nothing. -/
theorem of_journal (rest : t = { s with outbox := t.outbox, streams := t.streams, listed := t.listed,
                                        nextPush := t.nextPush, executor := t.executor, parked := t.parked,
                                        journal := t.journal })
    (closed : t.outbox.closed = s.outbox.closed) (stopped : t.executor.stopped = s.executor.stopped)
    (pushes : t.nextPush = s.nextPush) (same : t.journal = s.journal) : Kept s t :=
  ⟨rest, closed, stopped, ⟨0, pushes⟩, [], same.trans (List.append_nil _).symm, nofun⟩

theorem note {e : Event} (inner : e.isExchange = false) : Kept s (s.note e) :=
  ⟨rfl, rfl, rfl, ⟨0, rfl⟩, [e], rfl, by simpa using inner⟩

theorem setStream (stream : Stream) : Kept s (s.setStream stream) := .of_journal rfl rfl rfl rfl rfl

theorem queue (f : Outgoing) (priority : Nat) : Kept s (s.queue f priority) := by
  unfold Session.queue
  split
  · exact .refl s
  · next hopen =>
    have pushed : (s.outbox.push f priority).closed = s.outbox.closed := by
      unfold Outbox.push
      split <;> rfl
    exact (Kept.of_journal (s := s) (t := { s with outbox := s.outbox.push f priority }) rfl pushed rfl
      rfl rfl).trans (note rfl)

theorem queueAll (frames : List Outgoing) (priority : Nat) : Kept s (s.queueAll frames priority) := by
  unfold Session.queueAll
  induction frames generalizing s with
  | nil => exact .refl s
  | cons f rest ih => exact (queue f priority).trans ih

theorem update (stream : Stream) (frames : List Outgoing) : Kept s (s.update stream frames) :=
  (setStream stream).trans (queueAll frames stream.priority)

theorem reset (stream : Stream) (code : ErrorCode) : Kept s (s.reset stream code) := update ..

theorem cancel (id : Nat) : Kept s (s.cancel id) := by
  unfold Session.cancel
  dsimp only
  split
  · exact (note rfl).trans (setStream _)
  · exact note rfl

theorem addTask (id : Nat) : Kept s (addTask id s) := by
  unfold Session.addTask
  split
  · exact .refl s
  · dsimp only
    split
    · exact (note rfl).trans (cancel id)
    · exact (note rfl).trans (.of_journal rfl rfl rfl rfl rfl)

theorem addStream (stream : Stream) (list : List Header) (final : Bool) :
    Kept s (s.addStream stream list final) :=
  ⟨rfl, rfl, rfl, ⟨0, rfl⟩, [_], rfl, by simp [Event.isExchange]⟩

theorem readPart (stream : Stream) : Kept s (s.readPart stream).1 := update ..

theorem send (result : Except StreamError (Stream × List Outgoing)) : Kept s (s.send result).1 := by
  cases result with
  | ok sent => exact update sent.1 sent.2
  | error => exact refl s

theorem perform (stream : Stream) {action : Action} (plain : s.pushes stream action = false) :
    Kept s (perform Session.addTask s stream action).1 := by
  cases action with
  | info => exact refl s
  | read => exact readPart stream
  | readAll => exact update ..
  | headers => exact send _
  | data => exact send _
  | push list priority =>
    obtain ⟨e, refused⟩ : ∃ e, s.pushError? stream = some e := by
      simpa [Session.pushes, Option.isSome_iff_exists] using plain
    simp only [Session.perform, refused]
    exact refl s

theorem promise (stream : Stream) (list : List Header) (priority : Nat) :
    Kept s (s.promise stream list priority) :=
  have counted : Kept s { s with nextPush := s.nextPush + 2 } :=
    ⟨rfl, rfl, rfl, ⟨1, rfl⟩, [], (List.append_nil _).symm, nofun⟩
  counted.trans ((queue _ _).trans (addStream ..))

theorem status (kept : Kept s t) : t.status = s.status := by rw [kept.rest]

theorem transport (kept : Kept s t) : t.transport = s.transport := by rw [kept.rest]

theorem reader (kept : Kept s t) : t.reader = s.reader := by rw [kept.rest]

theorem peer (kept : Kept s t) : t.peer = s.peer := by rw [kept.rest]

theorem copies (kept : Kept s t) : t.copies = s.copies := by rw [kept.rest]; rfl

theorem version (kept : Kept s t) : t.version = s.version := by rw [kept.rest]

theorem config (kept : Kept s t) : t.config = s.config := by rw [kept.rest]

end Kept

theorem next?_stopped {τ : Type} {x executor : Executor τ} {task : τ} (next : x.next? = some (task, executor)) :
    executor.stopped = x.stopped := by
  unfold Executor.next? at next
  split at next
  · cases next
  · obtain ⟨item, -, same⟩ := Option.map_eq_some_iff.mp next
    cases same
    rfl

theorem Move.kept {s t : Session} (h : Move s t) : Kept s t := by
  cases h with
  | @started id executor next =>
    have taken : Kept s { s with executor } := .of_journal rfl rfl (next?_stopped next) rfl rfl
    exact taken.trans (.note rfl)
  | pushed | resumed => exact .note rfl
  | parked | unparked => exact .of_journal rfl rfl rfl rfl rfl
  | acted index found plain => exact (Kept.perform _ plain).trans (.note rfl)
  | promised list priority found allowed => exact (Kept.promise _ list priority).trans (.addTask _)
  | woken p found => exact (Kept.readPart _).trans (.note rfl)
  | returned id =>
    unfold Session.returned
    dsimp only
    split
    · split
      · exact .note rfl
      · exact (Kept.note rfl).trans (.reset ..)
    · exact .note rfl
  | brokeDown id =>
    unfold Session.brokeDown
    dsimp only
    split
    · exact (Kept.note rfl).trans (.reset ..)
    · exact .note rfl

theorem Moves.kept {s t : Session} (h : Moves s t) : Kept s t := by
  induction h with
  | refl => exact .refl s
  | tail _ last ih => exact ih.trans last.kept

/-! ### Runs of tasks -/

/-- Handing a new task to `launch` lets tasks take steps, once the task has been added. -/
def Launches (launch : Nat → Session → Session) : Prop :=
  ∀ id s, Moves (addTask id s) (launch id s)

theorem launches_addTask : Launches addTask := fun _ _ => .refl

/-- An action that starts no push does not depend on what becomes of new tasks. -/
theorem perform_plain {s : Session} {stream : Stream} {action : Action}
    (plain : s.pushes stream action = false) (launch : Nat → Session → Session) :
    perform launch s stream action = perform addTask s stream action := by
  cases action with
  | push list priority =>
    obtain ⟨e, refused⟩ : ∃ e, s.pushError? stream = some e := by
      simpa [pushes, Option.isSome_iff_exists] using plain
    simp only [perform, refused]
  | _ => rfl

/-- An action and its reply are a step, or several if it starts a push. -/
theorem moves_perform {launch : Nat → Session → Session} (launches : Launches launch) {s : Session} {id : Nat}
    {stream : Stream} (index : Nat) (action : Action) (found : s.stream? id = some stream) :
    Moves s ((perform launch s stream action).1.note
      (.stepped id index (.act action) (perform launch s stream action).2)) := by
  cases plain : s.pushes stream action with
  | false =>
    rw [perform_plain plain]
    exact .single (.acted index found plain)
  | true =>
    cases action with
    | push list priority =>
      have allowed : s.pushError? stream = none := by simpa [pushes] using plain
      rw [perform_push allowed]
      exact (ReflTransGen.single (.promised list priority found allowed)).trans
        ((launches _ _).tail (.pushed id index list priority s.nextPush))
    | _ => cases plain

/-- Handlers take steps as they run. -/
theorem moves_runFrom {launch : Nat → Session → Session} (launches : Launches launch) (id index : Nat)
    (script : List Multiplex.Step) (s : Session) : Moves s (runFrom launch id index script s) := by
  induction script generalizing index s with
  | nil => exact .single (.returned id)
  | cons step rest ih =>
    unfold runFrom
    cases found : s.stream? id with
    | none => exact .refl
    | some stream =>
      cases step with
      | act action =>
        dsimp only
        split
        · exact .single (.parked id index _ rest)
        · exact (moves_perform launches index action found).trans (ih (index + 1) _)
      | yield => exact .single (.parked id index _ rest)
      | await => exact .single (.parked id index _ rest)
      | fail => exact .single (.brokeDown id)

theorem moves_runTask {launch : Nat → Session → Session} (launches : Launches launch) {s : Session} {id : Nat}
    {executor : Executor Nat} (next : s.executor.next? = some (id, executor)) :
    Moves s (runTask launch id { s with executor }) :=
  (ReflTransGen.single (.started next)).trans (moves_runFrom launches id 0 _ _)

theorem moves_drain {launch : Nat → Session → Session} (launches : Launches launch) (count : Nat)
    (s : Session) : Moves s (drain (runTask launch) count s) := by
  induction count generalizing s with
  | zero => exact .refl
  | succ count ih =>
    unfold drain
    split
    · exact .refl
    · next id executor next => exact (moves_runTask launches next).trans (ih _)

theorem launches_launch {inner : Nat → Session → Session} (launches : Launches inner) :
    Launches (launch inner) := fun id s => by
  unfold launch
  dsimp only
  split
  · exact moves_drain launches _ _
  · exact .refl

theorem launches_launchPushed : Launches launchPushed := launches_launch launches_addTask

theorem launches_spawn : Launches spawn := launches_launch launches_launchPushed

theorem moves_resume (p : Parked) (s : Session) : Moves s (resume p s) := by
  unfold resume
  split
  · exact .refl
  · next stream found =>
    dsimp only
    split
    · next waits =>
      exact (ReflTransGen.single (.resumed p waits)).trans (moves_runFrom launches_launchPushed ..)
    · exact (ReflTransGen.single (.woken p found)).trans (moves_runFrom launches_launchPushed ..)

theorem moves_resumeReader (s : Session) (id : Nat) : Moves s (s.resumeReader id) := by
  unfold resumeReader
  dsimp only
  split
  · split
    · exact .refl
    · exact (ReflTransGen.single (.unparked (List.eraseP_sublist ..))).trans (moves_resume _ _)
  · exact .refl

theorem moves_foldl_resume (list : List Parked) (s : Session) :
    Moves s (list.foldl (fun s p => resume p s) s) := by
  induction list generalizing s with
  | nil => exact .refl
  | cons p rest ih => exact (moves_resume p s).trans (ih _)

theorem moves_resumePolled (s : Session) : Moves s s.resumePolled := by
  unfold resumePolled
  rw [List.partition_eq_filter_filter]
  have fewer : (s.parked.filter (not ∘ (·.waitsForPoll))).Sublist s.parked := List.filter_sublist
  exact (ReflTransGen.single (.unparked fewer)).trans (moves_foldl_resume _ _)

theorem moves_runScheduled (s : Session) : Moves s s.runScheduled := by
  unfold runScheduled
  split
  · exact moves_drain launches_launchPushed _ _
  · exact moves_drain launches_launchPushed _ _
  · exact .refl
  · exact .refl

theorem moves_resumeAll (count : Nat) (s : Session) : Moves s (resumeAll count s) := by
  induction count generalizing s with
  | zero => exact .refl
  | succ count ih =>
    unfold resumeAll
    split
    · exact .refl
    · next p parked first =>
      have fewer : parked.Sublist s.parked := first ▸ List.sublist_cons_self p parked
      exact (ReflTransGen.single (.unparked fewer)).trans ((moves_resume p _).trans (ih _))

end Session

end Multiplex
