import Multiplex.Proofs.Session.Ordinary

/-! # Pushes

A push promises the peer a stream, and tasks may run before it returns. At every moment of a session, each promise
is that of a push that a handler has made at an earlier moment (`pushed_start`). And return it does, with the promised
stream: in a run to the end every push that was made has returned (`returned_runToEnd`). -/

namespace Multiplex

/-- Whether an event is a promise that goes into the outbox. -/
def Event.isPromised : Event → Bool
  | .queued (.pushPromise ..) => true
  | _ => false

/-- Each promise among some events is that of a push that has returned. -/
def Returned (events : List Event) : Prop :=
  ∀ parent promised list, .queued (.pushPromise parent promised list) ∈ events →
    ∃ index priority, .stepped parent index (.act (.push list priority)) (.pushed promised) ∈ events

section Returned
variable {early late events : List Event}

theorem returned_of_plain (plain : ∀ e ∈ events, e.isPromised = false) : Returned events :=
  fun _ _ _ member => nomatch plain _ member

theorem Returned.append (first : Returned early) (second : Returned late) : Returned (early ++ late) := by
  intro parent promised list member
  rcases List.mem_append.mp member with inside | inside
  · obtain ⟨index, priority, step⟩ := first parent promised list inside
    exact ⟨index, priority, List.mem_append_left _ step⟩
  · obtain ⟨index, priority, step⟩ := second parent promised list inside
    exact ⟨index, priority, List.mem_append_right _ step⟩

/-- A promise whose push returns in the end, whatever happens between. -/
theorem Returned.push (inner : Returned events) (parent promised index : Nat) (list : List Header) (priority : Nat) :
    Returned (.queued (.pushPromise parent promised list) :: events ++
      [.stepped parent index (.act (.push list priority)) (.pushed promised)]) := by
  intro parent' promised' list' member
  rcases List.mem_append.mp member with before | last
  · rcases List.mem_cons.mp before with same | inside
    · cases same
      exact ⟨index, priority, List.mem_append_right _ List.mem_cons_self⟩
    · obtain ⟨index', priority', step⟩ := inner parent' promised' list' inside
      exact ⟨index', priority', List.mem_append_left _ (List.mem_cons_of_mem _ step)⟩
  · nomatch List.mem_singleton.mp last

end Returned

namespace Session

/-! ### Changes without promises -/

/-- A change in which nothing is promised. -/
def Promiseless (s t : Session) : Prop := ∃ events, t.journal = s.journal ++ events ∧ ∀ e ∈ events, e.isPromised = false

namespace Promiseless
variable {s t u : Session}

theorem of_journal (same : t.journal = s.journal) : Promiseless s t := ⟨[], same.trans (List.append_nil _).symm, nofun⟩

theorem refl (s : Session) : Promiseless s s := of_journal rfl

theorem trans (first : Promiseless s t) (second : Promiseless t u) : Promiseless s u := by
  obtain ⟨early, split, plain⟩ := first
  obtain ⟨late, split', plain'⟩ := second
  refine ⟨early ++ late, by rw [split', split, List.append_assoc], fun e member => ?_⟩
  exact (List.mem_append.mp member).elim (plain e) (plain' e)

theorem note {e : Event} (plain : e.isPromised = false) : Promiseless s (s.note e) :=
  ⟨[e], rfl, List.forall_mem_singleton.mpr plain⟩

theorem of_ordinary (ordinary : Ordinary s t) : Promiseless s t := by
  obtain ⟨events, split, plain⟩ := ordinary.journal
  refine ⟨events, split, fun e member => ?_⟩
  have usual := plain e member
  cases e with
  | queued f => cases f <;> first | rfl | cases usual
  | _ => rfl

theorem queue {frame : Frame} (priority : Nat) : Promiseless s (s.queue (.frame frame) priority) := by
  unfold Session.queue
  split
  · exact refl s
  · exact note (s := { s with outbox := s.outbox.push (.frame frame) priority }) rfl

theorem sendGoAway (code : ErrorCode) : Promiseless s (s.sendGoAway code) := by
  unfold Session.sendGoAway
  split
  · exact refl s
  · exact queue (s := { s with goAwaySent := true }) 0

theorem addTask (id : Nat) : Promiseless s (addTask id s) := by
  unfold Session.addTask
  split
  · exact refl s
  · dsimp only
    split
    · exact (note rfl).trans (of_ordinary (.cancel id))
    · exact (note rfl).trans (of_journal rfl)

end Promiseless

/-- A frame of the peer promises nothing. -/
theorem Effect.promiseless {s t : Session} {decoded : Except Hpack.Fault (List Header)} {frame : Frame}
    (h : Effect s decoded frame t) : Promiseless s t := by
  cases h with
  | passed => exact .refl s
  | breach => exact .sendGoAway _
  | answered payload => exact .queue 0
  | @adopted params peer => exact .queue (s := s.adopt peer) 0
  | left | crashed => exact .of_journal rfl
  | @trailed id block priority flags stream found active going list read => exact .note (s := s.setStream _) rfl
  | @turnedAway id block final priority flags staying odd new rank => exact .queue (s := { s with lastPeer := id }) rank
  | opened => exact Promiseless.trans (t := addStream ..) (.note rfl) (.addTask _)
  | received => exact .note (s := s.setStream _) rfl
  | granted found positive fits => exact .of_ordinary (.grant found fits)
  | offended found other => exact .of_ordinary (.reset _ other)
  | hungUp => exact .of_ordinary (.setStream _)

theorem promiseless_dispatch (s : Session) (frame : Frame) : Promiseless s (dispatch addTask s frame) := by
  have noted : Promiseless s { s.note (.dispatched frame) with receiveTable := s.tableAfter frame } := .note (s := s) rfl
  exact noted.trans (effect_dispatch s frame).promiseless

/-- What a session notes when it promises a stream. -/
theorem journal_promise {s : Session} (hopen : s.outbox.closed = false) (stream : Stream) (list : List Header)
    (priority : Nat) : (s.promise stream list priority).journal =
      s.journal ++ [.queued (.pushPromise stream.id s.nextPush list), .accepted s.nextPush (.headers list true)] := by
  unfold promise
  dsimp only
  rw [queue_of_open (s := { s with nextPush := s.nextPush + 2 }) hopen]
  exact List.append_assoc ..

/-- A handler makes a push on `parent` with `list`, and it is answered with `promised`. -/
def Pushes (parent promised : Nat) (list : List Header) (s t : Session) : Prop :=
  ∃ stream priority, s.stream? parent = some stream ∧
    perform addTask s stream (.push list priority) = (t, .pushed promised)

/-- A step promises nothing, or is a push with its promise. -/
theorem Advance.promises {s t : Session} (h : Advance s t) {parent promised : Nat} {list : List Header}
    (noted : .queued (.pushPromise parent promised list) ∈ t.journal) :
    .queued (.pushPromise parent promised list) ∈ s.journal ∨ Pushes parent promised list s t := by
  have silent (quiet : Promiseless s t) : .queued (.pushPromise parent promised list) ∈ s.journal := by
    obtain ⟨events, split, plain⟩ := quiet
    rw [split] at noted
    exact (List.mem_append.mp noted).resolve_right fun new => nomatch plain _ new
  rcases h.ordinary with ordinary | special
  · exact .inl (silent (.of_ordinary ordinary))
  cases special with
  | @dispatched running frame reader next => exact .inl (silent (promiseless_dispatch { s with reader } frame))
  | wentAway => exact .inl (silent (.sendGoAway _))
  | @promised i stream list' priority found allowed =>
    obtain ⟨-, hopen, -⟩ := of_pushError? allowed
    obtain ⟨events, split, plain⟩ := Promiseless.addTask (s := s.promise stream list' priority) s.nextPush
    rw [split, journal_promise hopen] at noted
    -- The promise was noted before, or is the one of this push, or would be one of the new task.
    rcases List.mem_append.mp noted with before | new
    · rcases List.mem_append.mp before with early | own
      · exact .inl early
      · obtain ⟨rfl, rfl, rfl⟩ : parent = stream.id ∧ promised = s.nextPush ∧ list = list' := by simpa using own
        exact .inr ⟨stream, priority, id_of_stream? found ▸ found, perform_push allowed ..⟩
    · nomatch plain _ new

/-- Whatever was promised on the way was promised by a push that a handler made at a moment of it. -/
theorem Reaches.promises {s t : Session} (h : Reaches s t) {parent promised : Nat} {list : List Header}
    (noted : .queued (.pushPromise parent promised list) ∈ t.journal) :
    .queued (.pushPromise parent promised list) ∈ s.journal ∨
      ∃ u v, Reaches s u ∧ Pushes parent promised list u v ∧ Reaches v t := by
  induction h with
  | refl => exact .inl noted
  | tail earlier last ih =>
    rcases last.promises noted with before | pushes
    · exact (ih before).imp id fun ⟨u, v, early, push, late⟩ => ⟨u, v, early, push, late.trans (.single last)⟩
    · exact .inr ⟨_, _, earlier, pushes, .refl _⟩

/-- At every moment of a session, each promise is that of a push that a handler made before. -/
theorem pushed_start {t : Session} {version : Version} {config : Config} {handlers : Handlers} {schedule : Schedule}
    {transport : Transport} (h : Reaches (start version config handlers schedule transport) t)
    {parent promised : Nat} {list : List Header} (noted : .queued (.pushPromise parent promised list) ∈ t.journal) :
    ∃ u v, Reaches (start version config handlers schedule transport) u ∧ Pushes parent promised list u v ∧ Reaches v t :=
  (h.promises noted).resolve_left nofun

/-! ### Pushes that return -/

/-- A change in which every push that starts also returns. -/
def Settles (s t : Session) : Prop := ∃ events, t.journal = s.journal ++ events ∧ Returned events

namespace Settles
variable {s t u : Session}

theorem of_promiseless (quiet : Promiseless s t) : Settles s t :=
  let ⟨events, split, plain⟩ := quiet
  ⟨events, split, returned_of_plain plain⟩

theorem of_journal (same : t.journal = s.journal) : Settles s t := of_promiseless (.of_journal same)

theorem refl (s : Session) : Settles s s := of_journal rfl

theorem trans (first : Settles s t) (second : Settles t u) : Settles s u := by
  obtain ⟨early, split, returned⟩ := first
  obtain ⟨late, split', returned'⟩ := second
  exact ⟨early ++ late, by rw [split', split, List.append_assoc], returned.append returned'⟩

/-- What was noted before is all that matters of the session that a change starts from. -/
theorem before (later : Settles t u) (same : t.journal = s.journal) : Settles s u := (of_journal same).trans later

theorem note {e : Event} (plain : e.isPromised = false) : Settles s (s.note e) := of_promiseless (.note plain)

theorem of_ordinary (ordinary : Ordinary s t) : Settles s t := of_promiseless (.of_ordinary ordinary)

theorem sendGoAway (code : ErrorCode) : Settles s (s.sendGoAway code) := of_promiseless (.sendGoAway code)

theorem prune (s : Session) : Settles s s.prune := of_journal rfl

theorem stop (s : Session) (reason : StopReason) : Settles s (s.stop reason) := of_journal rfl

end Settles

/-! ### Tasks -/

/-- Handing a new task to `launch` lets pushes start that also return, once the task has been added. -/
def Settling (launch : Nat → Session → Session) : Prop := ∀ id s, Settles (addTask id s) (launch id s)

theorem settling_addTask : Settling addTask := fun _ _ => .refl _

section Tasks
variable {launch : Nat → Session → Session} (settling : Settling launch)
include settling

theorem settles_perform (s : Session) {id : Nat} {stream : Stream} (found : s.stream? id = some stream) (index : Nat)
    (action : Action) :
    Settles s ((perform launch s stream action).1.note
      (.stepped id index (.act action) (perform launch s stream action).2)) := by
  cases plain : s.pushes stream action with
  | false =>
    rw [perform_plain plain]
    exact .of_ordinary ((Ordinary.perform stream plain).trans (.note rfl))
  | true =>
    cases action with
    | push list priority =>
      have allowed : s.pushError? stream = none := by simpa [pushes] using plain
      obtain ⟨-, hopen, -⟩ := of_pushError? allowed
      rw [perform_push allowed]
      have added : Settles (s.promise stream list priority) (Session.addTask s.nextPush (s.promise stream list priority)) :=
        .of_promiseless (.addTask _)
      obtain ⟨events, split, returned⟩ := added.trans (settling _ _)
      -- The promise opens the list and the answer closes it; what the new task did stands between.
      refine ⟨.queued (.pushPromise stream.id s.nextPush list) ::
        (.accepted s.nextPush (.headers list true) :: events) ++
          [.stepped id index (.act (.push list priority)) (.pushed s.nextPush)], ?_, ?_⟩
      · rw [note, split, journal_promise hopen]
        simp
      · rw [← id_of_stream? found]
        have accepted : Returned [.accepted s.nextPush (.headers list true)] :=
          returned_of_plain (List.forall_mem_singleton.mpr rfl)
        exact (accepted.append returned).push stream.id s.nextPush index list priority
    | _ => cases plain

theorem settles_runFrom (id index : Nat) (script : List Step) (s : Session) :
    Settles s (runFrom launch id index script s) := by
  induction script generalizing index s with
  | nil => exact .of_ordinary (.returned id)
  | cons step rest ih =>
    unfold runFrom
    cases found : s.stream? id with
    | none => exact .refl s
    | some stream =>
      cases step with
      | act action =>
        dsimp only
        split
        · exact .of_journal rfl
        · exact (settles_perform settling s found index action).trans (ih (index + 1) _)
      | yield => exact .of_journal rfl
      | await => exact .of_journal rfl
      | fail => exact .of_ordinary (.brokeDown id)

theorem settles_drain (count : Nat) (s : Session) : Settles s (drain (runTask launch) count s) := by
  induction count generalizing s with
  | zero => exact .refl s
  | succ count ih =>
    unfold drain
    split
    · exact .refl s
    · next id executor next =>
      have started : Settles s ({ s with executor }.note (.started id)) := .note (s := { s with executor }) rfl
      exact (started.trans (settles_runFrom settling id 0 _ _)).trans (ih _)

theorem settling_launch : Settling (Session.launch launch) := fun id s => by
  unfold Session.launch
  dsimp only
  split
  · exact settles_drain settling _ _
  · exact .refl _

end Tasks

theorem settling_launchPushed : Settling launchPushed := settling_launch settling_addTask

theorem settling_spawn : Settling spawn := settling_launch settling_launchPushed

theorem settles_resume (p : Parked) (s : Session) : Settles s (resume p s) := by
  unfold resume
  split
  · exact .refl s
  · dsimp only
    split
    · exact (Settles.note rfl).trans (settles_runFrom settling_launchPushed ..)
    · exact (Settles.of_ordinary ((Ordinary.readPart _).trans (.note rfl))).trans
        (settles_runFrom settling_launchPushed ..)

theorem settles_resumeReader (s : Session) (id : Nat) : Settles s (s.resumeReader id) := by
  unfold resumeReader
  dsimp only
  split
  · split
    · exact .refl s
    · exact settles_resume _ { s with parked := _ }
  · exact .refl s

theorem settles_foldl_resume (list : List Parked) (s : Session) :
    Settles s (list.foldl (fun s p => resume p s) s) := by
  induction list generalizing s with
  | nil => exact .refl s
  | cons p rest ih => exact (settles_resume p s).trans (ih _)

theorem settles_resumePolled (s : Session) : Settles s s.resumePolled := by
  unfold resumePolled
  exact settles_foldl_resume _ { s with parked := _ }

theorem settles_runScheduled (s : Session) : Settles s s.runScheduled := by
  unfold runScheduled
  split
  · exact settles_drain settling_launchPushed _ _
  · exact settles_drain settling_launchPushed _ _
  · exact .refl s
  · exact .refl s

theorem settles_resumeAll (count : Nat) (s : Session) : Settles s (resumeAll count s) := by
  induction count generalizing s with
  | zero => exact .refl s
  | succ count ih =>
    unfold resumeAll
    split
    · exact .refl s
    · next p parked _ => exact (settles_resume p { s with parked }).trans (ih _)

/-! ### Rounds -/

theorem settles_dispatch (s : Session) (frame : Frame) : Settles s (dispatch spawn s frame) := by
  have taken : Settles s (dispatch addTask s frame) := .of_promiseless (promiseless_dispatch s frame)
  rcases dispatch_launch spawn s frame with same | ⟨id, u, added, launched⟩
  · exact same ▸ taken
  · rw [added] at taken
    exact launched ▸ taken.trans (settling_spawn id u)

theorem settles_dispatchUpTo (count : Nat) (s : Session) : Settles s (dispatchUpTo count s) := by
  induction count generalizing s with
  | zero => exact .refl s
  | succ count ih =>
    unfold dispatchUpTo
    split
    · exact .refl s
    · next frame reader _ =>
      have taken : Settles s (dispatch spawn { s with reader } frame) := settles_dispatch { s with reader } frame
      dsimp only
      split
      · exact taken.trans (ih _)
      · exact taken

theorem settles_poll (s : Session) : Settles s s.poll := by
  have went := (settles_resumePolled (s.note .polled)).trans (settles_runScheduled _)
  exact ((Settles.note rfl).trans went).trans (.of_journal rfl)

theorem settles_readMore (s : Session) (wait : Bool) : Settles s (s.readMore wait).1 := by
  unfold readMore
  split
  · exact .note rfl
  · next a arrivals _ =>
    have woken (s : Session) : Settles s (a.resumes.elim s s.resumeReader) := by
      cases a.resumes with
      | none => exact .refl s
      | some id => exact settles_resumeReader s id
    exact Settles.trans (woken { s with transport := { s.transport with arrivals } }) (.note rfl)

theorem settles_takeInput (s : Session) (status : ReadStatus) : Settles s (s.takeInput status) := by
  have taken : Settles s s.dispatchReady := settles_dispatchUpTo _ s
  have pruned : Settles s s.dispatchReady.prune := taken.trans (.prune _)
  unfold takeInput
  dsimp only
  split
  · exact taken
  · split
    · exact taken
    · exact taken.trans (.sendGoAway _)
    · split
      · exact pruned.trans (.sendGoAway _)
      · exact pruned

theorem settles_flushUpTo (count : Nat) (s : Session) : Settles s (flushUpTo count s) := by
  induction count generalizing s with
  | zero => exact .refl s
  | succ count ih =>
    unfold flushUpTo
    split
    · exact .refl s
    · next f outbox _ =>
      have written := (Settles.of_ordinary (.writeOutgoing { s with outbox } f)).before (s := s) rfl
      dsimp only
      split
      · exact written.trans (ih _)
      · exact written

theorem settles_flush (s : Session) : Settles s s.flush := settles_flushUpTo _ s

theorem settles_round (s : Session) : Settles s s.round := by
  have polled := settles_poll s
  have pruned : Settles s s.poll.prune := polled.trans (.prune _)
  unfold round
  dsimp only
  split
  · exact polled.trans (.stop _ _)
  split
  · exact pruned.trans (.stop _ _)
  have read := pruned.trans (settles_readMore s.poll.prune s.poll.prune.isIdle)
  have taken := read.trans (settles_takeInput _ (s.poll.prune.readMore s.poll.prune.isIdle).2)
  split
  · exact taken
  have flushed := taken.trans (settles_flush _)
  split
  · exact flushed
  have done := flushed.trans (.prune _)
  split
  · exact done.trans (.stop _ _)
  · exact done

theorem settles_rounds (count : Nat) (s : Session) : Settles s (rounds count s) := by
  induction count generalizing s with
  | zero => exact .refl s
  | succ count ih =>
    unfold rounds
    dsimp only
    split
    · exact (settles_round s).trans (ih _)
    · exact settles_round s

/-! ### Runs -/

theorem settles_serve (s : Session) : Settles s s.serve := by
  have began (bytes : Bytes) := (Settles.of_ordinary (.write (s := { s with status := .running }) bytes
    .initialWriteFailed)).before (s := s) rfl
  unfold serve
  dsimp only
  split
  · exact (began _).trans (settles_rounds _ _)
  · exact began _

theorem settles_stopExecutor (s : Session) : Settles s s.stopExecutor := by
  have cancelled := Settles.of_ordinary (.foldl_cancel s.executor.stop.2 { s with executor := s.executor.stop.1 })
  exact (cancelled.before rfl).trans (settles_resumeAll _ _)

theorem settles_shutDown (s : Session) : Settles s s.shutDown := by
  have aborted := Settles.of_ordinary (.abortListed { s with outbox := s.outbox.close })
  exact (aborted.before rfl).trans (settles_stopExecutor _)

theorem settles_runToEnd (s : Session) : Settles s s.runToEnd := by
  unfold runToEnd
  split
  · dsimp only
    split
    · exact settles_serve s
    · exact (settles_serve s).trans (settles_shutDown _)
  · exact .refl s

/-- When a session has run to its end, each promise that it has made is that of a push that a handler has made. -/
theorem returned_runToEnd (version : Version) (config : Config) (handlers : Handlers) (schedule : Schedule)
    (transport : Transport) : Returned (start version config handlers schedule transport).runToEnd.journal := by
  obtain ⟨events, journal, returned⟩ := settles_runToEnd (start version config handlers schedule transport)
  exact (journal.trans (List.nil_append events)) ▸ returned

end Session

end Multiplex
