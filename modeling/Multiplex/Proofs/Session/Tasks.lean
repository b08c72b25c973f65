import Multiplex.Proofs.Session.Numbers

/-! # The tasks of streams

The task of a stream is produced when the stream is opened. It waits until it is started or cancelled, and once it
was started it is in the middle of a step or suspended until it ends or breaks down. A run of a session keeps this
account of every task (`Staffed`), in whatever order its schedule has the tasks run. -/

namespace Multiplex

namespace Event

/-- Whether an event belongs to the life of a task. -/
def isTask : Event → Bool
  | .opened .. | .started _ | .ended _ | .failed _ | .cancelled _ => true
  | _ => false

/-- Whether an event produces a task, starts it or cancels it. -/
def assigns : Event → Bool
  | .opened .. | .started _ | .cancelled _ => true
  | _ => false

/-- The stream whose task an event produces. -/
def produces? : Event → Option Nat
  | .opened id .. => some id
  | _ => none

/-- Whether the task of a stream is over with an event: it returns, breaks down, or is cancelled. -/
def concludes (id : Nat) : Event → Bool
  | .ended stream | .failed stream | .cancelled stream => stream == id
  | _ => false

/-- Whether an event comes in its turn in the life of a task. -/
def InTurn (front : List Event) : Event → Prop
  | .started id | .cancelled id => front.any (·.opens id)
  | .ended id | .failed id => .started id ∈ front
  | _ => True

theorem assigns_of_plain {e : Event} (plain : e.isTask = false) : e.assigns = false := by
  cases e <;> first | rfl | cases plain

theorem produces?_of_assigns {e : Event} (plain : e.assigns = false) : e.produces? = none := by
  cases e <;> first | rfl | cases plain

theorem inTurn_of_plain {e : Event} (plain : e.isTask = false) (front : List Event) : InTurn front e := by
  cases e with
  | opened | started | ended | failed | cancelled => cases plain
  | _ => trivial

theorem concludes_of_plain {e : Event} (plain : e.isTask = false) (id : Nat) : e.concludes id = false := by
  cases e <;> first | rfl | cases plain

end Event

namespace Session

variable {s t u : Session}

/-! ### Changes beside the tasks -/

theorem isSome_setStream (s : Session) (stream : Stream) (id : Nat) :
    ((s.setStream stream).stream? id).isSome = (s.stream? id).isSome := by
  by_cases same : id = stream.id
  · subst same
    cases found : s.stream? stream.id with
    | some old => rw [stream?_setStream s (by simp [found])]; rfl
    | none =>
      have absent : ∀ old ∈ s.streams, old.id ≠ stream.id := by simpa [stream?] using found
      have kept : (s.setStream stream).streams = s.streams :=
        (List.map_congr_left fun old member => if_neg (absent old member)).trans (List.map_id' _)
      rw [stream?, kept]
      exact congrArg Option.isSome found
  · rw [stream?_setStream_ne s same]

/-- A change beside the tasks: no task is produced, starts or stops, and none is suspended or goes on. -/
structure Taskless (s t : Session) : Prop where
  executor : t.executor = s.executor
  parked : t.parked = s.parked
  present : ∀ id, (s.stream? id).isSome → (t.stream? id).isSome
  journal : ∃ events, t.journal = s.journal ++ events ∧ ∀ e ∈ events, e.isTask = false

namespace Taskless

/-- A change that notes nothing and leaves the streams as they are. -/
theorem of_streams (executor : t.executor = s.executor) (parked : t.parked = s.parked) (streams : t.streams = s.streams)
    (journal : t.journal = s.journal) : Taskless s t :=
  ⟨executor, parked, fun id => by simp [stream?, streams], [], journal.trans (List.append_nil _).symm, nofun⟩

theorem refl (s : Session) : Taskless s s := of_streams rfl rfl rfl rfl

theorem trans (first : Taskless s t) (second : Taskless t u) : Taskless s u where
  executor := second.executor.trans first.executor
  parked := second.parked.trans first.parked
  present id := second.present id ∘ first.present id
  journal := by
    obtain ⟨early, split, plain⟩ := first.journal
    obtain ⟨late, split', plain'⟩ := second.journal
    refine ⟨early ++ late, by rw [split', split, List.append_assoc], fun e member => ?_⟩
    exact (List.mem_append.mp member).elim (plain e) (plain' e)

theorem note {e : Event} (plain : e.isTask = false) : Taskless s (s.note e) :=
  ⟨rfl, rfl, fun _ => id, [e], rfl, by simpa using plain⟩

theorem setStream (stream : Stream) : Taskless s (s.setStream stream) :=
  ⟨rfl, rfl, fun id => by simp [isSome_setStream], [], (List.append_nil _).symm, nofun⟩

theorem queue (f : Outgoing) (priority : Nat) : Taskless s (s.queue f priority) := by
  unfold Session.queue
  split
  · exact refl s
  · exact (of_streams (s := s) (t := { s with outbox := s.outbox.push f priority }) rfl rfl rfl rfl).trans (note rfl)

theorem queueAll (frames : List Outgoing) (priority : Nat) : Taskless s (s.queueAll frames priority) := by
  unfold Session.queueAll
  induction frames generalizing s with
  | nil => exact refl s
  | cons f rest ih => exact (queue f priority).trans ih

theorem update (stream : Stream) (frames : List Outgoing) : Taskless s (s.update stream frames) :=
  (setStream stream).trans (queueAll frames stream.priority)

theorem reset (stream : Stream) (code : ErrorCode) : Taskless s (s.reset stream code) := update ..

theorem readPart (stream : Stream) : Taskless s (s.readPart stream).1 := update ..

theorem perform (stream : Stream) {action : Action} (plain : s.pushes stream action = false) :
    Taskless s (perform addTask s stream action).1 := by
  rcases perform_update plain with same | ⟨stream', frames, same, -⟩
  · rw [same]
    exact refl s
  · rw [same]
    exact update ..

theorem addStream (stream : Stream) (list : List Header) (final : Bool) : Taskless s (s.addStream stream list final) := by
  refine ⟨rfl, rfl, fun id present => ?_, [_], rfl, by simp [Event.isTask]⟩
  obtain ⟨old, found⟩ := Option.isSome_iff_exists.mp present
  replace found : s.streams.find? (·.id == id) = some old := found
  simp [stream?, Session.addStream, Session.note, List.find?_append, found]

theorem promise (stream : Stream) (list : List Header) (priority : Nat) : Taskless s (s.promise stream list priority) :=
  have counted : Taskless s { s with nextPush := s.nextPush + 2 } := of_streams rfl rfl rfl rfl
  counted.trans ((queue _ _).trans (addStream ..))

theorem sendGoAway (code : ErrorCode) : Taskless s (s.sendGoAway code) := by
  unfold Session.sendGoAway
  split
  · exact refl s
  · exact (of_streams (s := s) (t := { s with goAwaySent := true }) rfl rfl rfl rfl).trans (queue _ _)

theorem write (bytes : Bytes) (reason : StopReason) : Taskless s (s.write bytes reason) := by
  unfold Session.write
  split
  · next transport _ => exact (of_streams (s := s) (t := { s with transport }) rfl rfl rfl rfl).trans (note rfl)
  · exact (note rfl).trans (of_streams rfl rfl rfl rfl)

theorem writeAll (frames : List Bytes) (s : Session) : Taskless s (writeAll frames s) := by
  induction frames generalizing s with
  | nil => exact refl s
  | cons bytes rest ih =>
    unfold Session.writeAll
    dsimp only
    split
    · exact (write ..).trans (ih _)
    · exact write ..

theorem writeOutgoing (s : Session) (f : Outgoing) : Taskless s (s.writeOutgoing f) :=
  let table := (f.wire s.peer.maxFrame s.sendTable).1
  have set : Taskless s { s with sendTable := table } := of_streams rfl rfl rfl rfl
  (set.trans (note rfl)).trans (writeAll _ _)

/-- What comes after a handler has returned. -/
theorem returned (s : Session) (id : Nat) : Taskless (s.note (.ended id)) (s.returned id) := by
  unfold Session.returned
  dsimp only
  split
  · split
    · exact refl _
    · exact reset ..
  · exact refl _

/-- What comes after a handler has broken down. -/
theorem brokeDown (s : Session) (id : Nat) : Taskless (s.note (.failed id)) (s.brokeDown id) := by
  unfold Session.brokeDown
  dsimp only
  split
  · exact reset ..
  · exact refl _

theorem abortListed (s : Session) : Taskless s s.abortListed := by
  refine ⟨rfl, rfl, fun id present => ?_, [], (List.append_nil _).symm, nofun⟩
  rw [stream?_abortListed]
  split
  · rwa [Option.isSome_map]
  · exact present

theorem prune (s : Session) : Taskless s s.prune := of_streams rfl rfl rfl rfl

theorem stop (s : Session) (reason : StopReason) : Taskless s (s.stop reason) := of_streams rfl rfl rfl rfl

end Taskless

/-! ### The account -/

/-- Each task that was produced was started or cancelled, or it is one of `waiting`. -/
def Taken (waiting : List Nat) (journal : List Event) : Prop := ∀ id,
  journal.count (.started id) + journal.count (.cancelled id) + waiting.count id =
    (journal.filterMap Event.produces?).count id

namespace Taken
variable {waiting : List Nat} {journal : List Event} {id : Nat}

theorem append (taken : Taken waiting journal) {events : List Event} (plain : ∀ e ∈ events, e.assigns = false) :
    Taken waiting (journal ++ events) := fun id => by
  have same {e : Event} (assigns : e.assigns) : (journal ++ events).count e = journal.count e := by
    have absent : e ∉ events := fun member => Bool.eq_false_iff.mp (plain e member) assigns
    rw [List.count_append, List.count_eq_zero_of_not_mem absent]
    rfl
  have none : events.filterMap Event.produces? = [] :=
    List.filterMap_eq_nil_iff.mpr fun e member => Event.produces?_of_assigns (plain e member)
  rw [same rfl, same rfl, List.filterMap_append, none, List.append_nil]
  exact taken id

/-- In which order the tasks wait does not matter. -/
theorem perm (taken : Taken waiting journal) {waiting' : List Nat} (waits : waiting'.Perm waiting) :
    Taken waiting' journal := fun id => by
  rw [waits.count_eq]
  exact taken id

theorem opened (taken : Taken waiting journal) (id parent priority : Nat) (pushed : Bool) :
    Taken (id :: waiting) (journal ++ [.opened id parent priority pushed]) := fun i => by
  have taken := taken i
  simp [List.count_cons, Event.produces?]
  omega

theorem started (taken : Taken (id :: waiting) journal) : Taken waiting (journal ++ [.started id]) := fun i => by
  have taken := taken i
  simp [List.count_cons, List.filterMap_cons, Event.produces?] at taken ⊢
  omega

theorem cancelled (taken : Taken (id :: waiting) journal) : Taken waiting (journal ++ [.cancelled id]) := fun i => by
  have taken := taken i
  simp [List.count_cons, List.filterMap_cons, Event.produces?] at taken ⊢
  omega

end Taken

/-- What a journal tells of the tasks, when those of `waiting` wait, those of `suspended` are suspended, and those of
    `going` are in the middle of a step. -/
structure Account (waiting suspended going : List Nat) (journal : List Event) : Prop where
  taken : Taken waiting journal
  /-- A task that was started has ended or broken down, is suspended, or is in the middle of a step. -/
  outcome : ∀ id, journal.count (.ended id) + journal.count (.failed id) + suspended.count id + going.count id =
    journal.count (.started id)
  order : Chronicle Event.InTurn journal

namespace Account
variable {waiting suspended going : List Nat} {journal : List Event} {id : Nat}

theorem nil : Account [] [] [] [] := ⟨fun _ => rfl, fun _ => rfl, chronicle_nil⟩

theorem append (account : Account waiting suspended going journal) {events : List Event}
    (plain : ∀ e ∈ events, e.isTask = false) : Account waiting suspended going (journal ++ events) := by
  have same {e : Event} (task : e.isTask) : (journal ++ events).count e = journal.count e := by
    have absent : e ∉ events := fun member => Bool.eq_false_iff.mp (plain e member) task
    rw [List.count_append, List.count_eq_zero_of_not_mem absent]
    rfl
  refine ⟨account.taken.append fun e member => Event.assigns_of_plain (plain e member), fun id => ?_, ?_⟩
  · rw [same rfl, same rfl, same rfl]
    exact account.outcome id
  · exact account.order.append fun e member front => Event.inTurn_of_plain (plain e member) front

/-- Which tasks wait, are suspended or are going matters, and not in which order. -/
theorem perm (account : Account waiting suspended going journal) {waiting' suspended' going' : List Nat}
    (waits : waiting'.Perm waiting) (rest : (suspended' ++ going').Perm (suspended ++ going)) :
    Account waiting' suspended' going' journal := by
  refine ⟨account.taken.perm waits, fun id => ?_, account.order⟩
  have same := rest.count_eq id
  have outcome := account.outcome id
  rw [List.count_append, List.count_append] at same
  omega

theorem any_opens (account : Account waiting suspended going journal)
    (known : 0 < journal.count (.started id) + journal.count (.cancelled id) + waiting.count id) :
    journal.any (·.opens id) := by
  rw [account.taken] at known
  obtain ⟨e, noted, produces⟩ := List.mem_filterMap.mp (List.count_pos_iff.mp known)
  refine List.any_eq_true.mpr ⟨e, noted, ?_⟩
  cases e with
  | opened => simpa [Event.opens, Event.produces?] using produces
  | _ => cases produces

theorem opened (account : Account waiting suspended going journal) (id parent priority : Nat) (pushed : Bool) :
    Account (id :: waiting) suspended going (journal ++ [.opened id parent priority pushed]) := by
  refine ⟨account.taken.opened id parent priority pushed, fun i => ?_, account.order.concat trivial⟩
  simpa using account.outcome i

theorem started (account : Account (id :: waiting) suspended going journal) :
    Account waiting suspended (id :: going) (journal ++ [.started id]) := by
  have opened := account.any_opens (by rw [List.count_cons_self]; omega)
  refine ⟨account.taken.started, fun i => ?_, account.order.concat opened⟩
  have outcome := account.outcome i
  simp [List.count_cons] at outcome ⊢
  omega

theorem cancelled (account : Account (id :: waiting) suspended going journal) :
    Account waiting suspended going (journal ++ [.cancelled id]) := by
  have opened := account.any_opens (by rw [List.count_cons_self]; omega)
  refine ⟨account.taken.cancelled, fun i => ?_, account.order.concat opened⟩
  simpa using account.outcome i

theorem cancelledAll {ids : List Nat} (account : Account (ids ++ waiting) suspended going journal) :
    Account waiting suspended going (journal ++ ids.map .cancelled) := by
  induction ids generalizing journal with
  | nil => rwa [List.map_nil, List.append_nil]
  | cons id rest ih =>
    rw [List.map_cons, List.append_cons]
    exact ih account.cancelled

/-- A task in the middle of a step ends or breaks down. -/
theorem concluded (account : Account waiting suspended (id :: going) journal) {e : Event}
    (ends : e = .ended id ∨ e = .failed id) : Account waiting suspended going (journal ++ [e]) := by
  have outcome := account.outcome
  have begun : .started id ∈ journal := by
    have here := outcome id
    rw [List.count_cons_self] at here
    exact List.count_pos_iff.mp (by omega)
  rcases ends with rfl | rfl
  · refine ⟨account.taken.append (List.forall_mem_singleton.mpr rfl), fun i => ?_, account.order.concat begun⟩
    have here := outcome i
    simp [List.count_cons] at here ⊢
    omega
  · refine ⟨account.taken.append (List.forall_mem_singleton.mpr rfl), fun i => ?_, account.order.concat begun⟩
    have here := outcome i
    simp [List.count_cons] at here ⊢
    omega

end Account

/-- The suspended tasks. -/
def suspended (s : Session) : List Nat := s.parked.map (·.stream)

/-- The tasks that wait. -/
def unstarted (s : Session) : List Nat := s.executor.queue.toList

/-- A session keeps account of its tasks, of which those of `going` are in the middle of a step, and there is a stream
    for each that is not over. -/
structure Staffed (going : List Nat) (s : Session) : Prop where
  account : Account s.unstarted s.suspended going s.journal
  present : ∀ id ∈ s.unstarted ++ s.suspended ++ going, (s.stream? id).isSome

namespace Staffed
variable {going : List Nat} {id : Nat}

theorem start (version : Version) (config : Config) (handlers : Handlers) (schedule : Schedule) (transport : Transport) :
    (Session.start version config handlers schedule transport).Staffed [] := ⟨.nil, nofun⟩

theorem keep (staffed : s.Staffed going) (taskless : Taskless s t) : t.Staffed going := by
  obtain ⟨events, journal, plain⟩ := taskless.journal
  have account := staffed.account.append plain
  refine ⟨?_, ?_⟩
  · rw [unstarted, suspended, taskless.executor, taskless.parked, journal]
    exact account
  · rw [unstarted, suspended, taskless.executor, taskless.parked]
    exact fun id member => taskless.present id (staffed.present id member)

/-! ### What becomes of tasks -/

theorem unstarted_of_next? {executor : Executor Nat} (next : s.executor.next? = some (id, executor)) :
    s.unstarted = id :: executor.queue.toList := by
  unfold Executor.next? at next
  split at next
  · cases next
  · obtain ⟨⟨task, queue⟩, popped, same⟩ := Option.map_eq_some_iff.mp next
    cases same
    exact Queue.toList_of_pop? popped

theorem started (staffed : s.Staffed going) {executor : Executor Nat}
    (next : s.executor.next? = some (id, executor)) : ({ s with executor }.note (.started id)).Staffed (id :: going) := by
  have waits := unstarted_of_next? next
  have account := staffed.account
  have present := staffed.present
  rw [waits] at account present
  refine ⟨account.started, fun i member => present i ?_⟩
  exact List.perm_middle.mem_iff.mp member

theorem parked (staffed : s.Staffed (id :: going)) (index : Nat) (step : Multiplex.Step) (rest : List Multiplex.Step) :
    (s.park id index step rest).Staffed going := by
  have more : (s.suspended ++ [id]) ++ going = s.suspended ++ id :: going := by simp
  have suspended : (s.park id index step rest).suspended = s.suspended ++ [id] := List.map_append
  refine ⟨?_, ?_⟩
  · rw [suspended]
    exact staffed.account.perm (.refl _) (more ▸ .refl _)
  · rw [suspended, List.append_assoc, more, ← List.append_assoc]
    exact staffed.present

/-- Suspended handlers are taken up again. -/
theorem unparked (staffed : s.Staffed going) {taken rest : List Parked} (split : s.parked.Perm (taken ++ rest)) :
    ({ s with parked := rest } : Session).Staffed (taken.map (·.stream) ++ going) := by
  have same : (s.suspended ++ going).Perm (rest.map (·.stream) ++ (taken.map (·.stream) ++ going)) := by
    have moved := (split.map (·.stream)).append_right going
    rw [List.map_append, List.append_assoc] at moved
    exact moved.trans (List.perm_append_comm_assoc ..)
  refine ⟨staffed.account.perm (.refl _) same.symm, fun i member => staffed.present i ?_⟩
  rw [List.append_assoc] at member ⊢
  exact (same.append_left s.unstarted).mem_iff.mpr member

theorem concluded (staffed : s.Staffed (id :: going)) {e : Event} (ends : e = .ended id ∨ e = .failed id) :
    (s.note e).Staffed going where
  account := staffed.account.concluded ends
  present i member := staffed.present i (List.perm_middle.mem_iff.mpr (List.mem_cons_of_mem id member))

theorem returned (staffed : s.Staffed (id :: going)) : (s.returned id).Staffed going :=
  (staffed.concluded (.inl rfl)).keep (.returned s id)

theorem brokeDown (staffed : s.Staffed (id :: going)) : (s.brokeDown id).Staffed going :=
  (staffed.concluded (.inr rfl)).keep (.brokeDown s id)

end Staffed

theorem cancel_rest (s : Session) (id : Nat) :
    s.cancel id = { s with streams := (s.cancel id).streams, journal := s.journal ++ [.cancelled id] } := by
  unfold cancel
  dsimp only
  split <;> rfl

theorem isSome_cancel (s : Session) (id i : Nat) : ((s.cancel id).stream? i).isSome = (s.stream? i).isSome := by
  unfold cancel
  dsimp only
  split
  · exact isSome_setStream _ _ i
  · rfl

theorem foldl_cancel_rest (ids : List Nat) (s : Session) :
    ids.foldl cancel s =
      { s with streams := (ids.foldl cancel s).streams, journal := s.journal ++ ids.map .cancelled } := by
  induction ids generalizing s with
  | nil => simp
  | cons id rest ih =>
    rw [List.foldl_cons, ih, cancel_rest s id]
    simp

theorem journal_foldl_cancel (ids : List Nat) (s : Session) :
    (ids.foldl cancel s).journal = s.journal ++ ids.map .cancelled := by rw [foldl_cancel_rest]

theorem isSome_foldl_cancel (ids : List Nat) (s : Session) (i : Nat) :
    ((ids.foldl cancel s).stream? i).isSome = (s.stream? i).isSome := by
  induction ids generalizing s with
  | nil => rfl
  | cons id rest ih => rw [List.foldl_cons, ih, isSome_cancel]

namespace Staffed
variable {going : List Nat} {id : Nat}

theorem addTask (staffed : s.Staffed going) (id : Nat) : (addTask id s).Staffed going := by
  unfold Session.addTask
  split
  · exact staffed
  · next stream found =>
    have opened := staffed.account.opened id stream.parent stream.priority stream.isPushed
    dsimp only
    split
    · rw [cancel_rest]
      refine ⟨opened.cancelled, fun i member => ?_⟩
      exact (isSome_cancel (s.note _) id i).trans (staffed.present i member)
    · have waits := s.executor.queue.toList_push_perm stream.priority id
      refine ⟨opened.perm waits (.refl _), fun i member => ?_⟩
      have same : i = id ∨ i ∈ s.unstarted ++ s.suspended ++ going := by
        have more := ((waits.append_right s.suspended).append_right going).mem_iff.mp member
        exact List.mem_cons.mp more
      rcases same with rfl | before
      · exact Option.isSome_of_eq_some found
      · exact staffed.present i before

/-- The executor stops, and cancels the tasks that wait. -/
theorem halted (staffed : s.Staffed going) :
    (s.executor.stop.2.foldl cancel { s with executor := s.executor.stop.1 }).Staffed going ∧
      (s.executor.stop.2.foldl cancel { s with executor := s.executor.stop.1 }).unstarted = [] := by
  have account : Account (s.executor.stop.2 ++ []) s.suspended going s.journal := by
    rw [List.append_nil]
    exact staffed.account
  -- The tasks that waited are cancelled, so streams are needed only for the suspended and the going.
  have present (i : Nat) (member : i ∈ s.suspended ++ going) : (s.stream? i).isSome :=
    staffed.present i (by rw [List.append_assoc]; exact List.mem_append_right _ member)
  refine ⟨⟨?_, fun i member => ?_⟩, ?_⟩
  · rw [foldl_cancel_rest]
    exact account.cancelledAll
  · rw [isSome_foldl_cancel]
    rw [foldl_cancel_rest] at member
    exact present i member
  · rw [foldl_cancel_rest]
    rfl

end Staffed

end Session

end Multiplex
