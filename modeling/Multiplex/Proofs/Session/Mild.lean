import Multiplex.Proofs.Session.Tasks
import Multiplex.Proofs.Session.Threads

/-! # Mild changes

Most of what a session and its handlers do is mild (`Mild`): it opens no stream, promises nothing, and leaves the tasks and
the end of the run alone. So is what the session does in whole steps, but that these also write, read and let go of streams
that are over (`Served`). What is left is little: tasks are started, pushes are made, and streams are opened for the peer
(`Novel`). -/

namespace Multiplex

namespace Session

variable {s t u : Session}

/-! ### Mild changes -/

/-- A change that adds no stream and keeps none from ending, and that leaves the tasks, the next push and the end of the
    run alone. -/
structure Mild (s t : Session) : Prop where
  numbers : s.lastPeer ≤ t.lastPeer ∧ t.nextPush = s.nextPush
  status : t.status = s.status
  listed : t.listed = s.listed
  executor : t.executor = s.executor
  closed : t.outbox.closed = s.outbox.closed
  shut : s.outbox.closed → t.outbox = s.outbox
  ids : t.streams.map (·.id) = s.streams.map (·.id)
  ageing : ∀ stream ∈ t.streams, stream.isActive → ∃ old ∈ s.streams, old.id = stream.id ∧ old.isActive
  reader : s.reader.Bounded → t.reader.Bounded
  journal : ∃ events, t.journal = s.journal ++ events ∧ ∀ e ∈ events, e.assigns = false

namespace Mild

theorem beside (same : t = { s with
      receiveTable := t.receiveTable, peer := t.peer, newWindow := t.newWindow, pieceLimit := t.pieceLimit,
      mayPush := t.mayPush, parked := t.parked, alive := t.alive }) : Mild s t := by
  rw [same]
  exact ⟨⟨Nat.le_refl _, rfl⟩, rfl, rfl, rfl, rfl, fun _ => rfl, rfl,
    fun stream member active => ⟨stream, member, rfl, active⟩, fun bounded => bounded, [], (List.append_nil _).symm, nofun⟩

theorem refl (s : Session) : Mild s s := beside rfl

theorem trans (first : Mild s t) (second : Mild t u) : Mild s u where
  numbers := ⟨first.numbers.1.trans second.numbers.1, second.numbers.2.trans first.numbers.2⟩
  status := second.status.trans first.status
  listed := second.listed.trans first.listed
  executor := second.executor.trans first.executor
  closed := second.closed.trans first.closed
  shut closed := (second.shut (first.closed.trans closed)).trans (first.shut closed)
  ids := second.ids.trans first.ids
  ageing stream member active := by
    obtain ⟨old, earlier, own, went⟩ := second.ageing stream member active
    obtain ⟨older, earliest, own', went'⟩ := first.ageing old earlier went
    exact ⟨older, earliest, own'.trans own, went'⟩
  reader := second.reader ∘ first.reader
  journal := by
    obtain ⟨early, split, mild⟩ := first.journal
    obtain ⟨late, split', mild'⟩ := second.journal
    refine ⟨early ++ late, by rw [split', split, List.append_assoc], fun e member => ?_⟩
    exact (List.mem_append.mp member).elim (mild e) (mild' e)

theorem note {e : Event} (mild : e.assigns = false) : Mild s (s.note e) :=
  ⟨⟨Nat.le_refl _, rfl⟩, rfl, rfl, rfl, rfl, fun _ => rfl, rfl,
    fun stream member active => ⟨stream, member, rfl, active⟩, fun bounded => bounded, [e], rfl,
    List.forall_mem_singleton.mpr mild⟩

/-- A stream is put in its place after something that it does. -/
theorem setStream {id : Nat} {old stream : Stream} (found : s.stream? id = some old) (own : stream.id = old.id)
    (ages : old.Ages stream) : Mild s (s.setStream stream) where
  numbers := ⟨Nat.le_refl _, rfl⟩
  status := rfl
  listed := rfl
  executor := rfl
  closed := rfl
  shut _ := rfl
  ids := (Ordinary.setStream stream).ids
  ageing new member active := by
    obtain ⟨before, here, rfl⟩ := List.mem_map.mp member
    split at active
    · next same => exact ⟨old, List.mem_of_find?_eq_some found, by rw [if_pos same, own], ages.active active⟩
    · next other => exact ⟨before, here, by rw [if_neg other], active⟩
  reader bounded := bounded
  journal := ⟨[], (List.append_nil _).symm, nofun⟩

theorem queue (f : Outgoing) (priority : Nat) : Mild s (s.queue f priority) := by
  unfold Session.queue
  split
  · exact refl s
  · next hopen =>
    refine ⟨⟨Nat.le_refl _, rfl⟩, rfl, rfl, rfl, ?_, fun closed => absurd closed hopen, rfl,
      fun stream member active => ⟨stream, member, rfl, active⟩, fun bounded => bounded, [.queued f], rfl,
      List.forall_mem_singleton.mpr rfl⟩
    simp [Session.note, Outbox.push, hopen]

theorem queueAll (frames : List Outgoing) (priority : Nat) : Mild s (s.queueAll frames priority) := by
  unfold Session.queueAll
  induction frames generalizing s with
  | nil => exact refl s
  | cons f rest ih => exact (queue f priority).trans ih

theorem update {id : Nat} {old stream : Stream} (found : s.stream? id = some old) (own : stream.id = old.id)
    (ages : old.Ages stream) (frames : List Outgoing) : Mild s (s.update stream frames) :=
  (setStream found own ages).trans (queueAll frames stream.priority)

theorem reset {id : Nat} {stream : Stream} (found : s.stream? id = some stream) (code : ErrorCode) :
    Mild s (s.reset stream code) :=
  update found (Stream.acts_reset stream code).id (Stream.ages_reset stream code) _

theorem readPart {id : Nat} {stream : Stream} (found : s.stream? id = some stream) : Mild s (s.readPart stream).1 :=
  have reads := Stream.reads_read stream
  update found reads.id reads.ages _

theorem perform {id : Nat} {stream : Stream} (found : s.stream? id = some stream) {action : Action}
    (plain : s.pushes stream action = false) : Mild s (perform addTask s stream action).1 := by
  rcases perform_update plain with same | ⟨stream', frames, same, own, ages, -⟩
  · rw [same]
    exact refl s
  · rw [same]
    exact update found own ages frames

theorem returned (id : Nat) : Mild s (s.returned id) := by
  unfold Session.returned
  dsimp only
  split
  · next found =>
    split
    · exact note rfl
    · exact (note rfl).trans (reset found _)
  · exact note rfl

theorem brokeDown (id : Nat) : Mild s (s.brokeDown id) := by
  unfold Session.brokeDown
  dsimp only
  split
  · next found => exact (note rfl).trans (reset found _)
  · exact note rfl

theorem abort (id : Nat) : Mild s (s.abort id) := by
  unfold Session.abort
  split
  · next stream found => exact setStream found (Stream.acts_abort stream).id (Stream.ages_abort stream)
  · exact refl s

theorem grant {id i increment : Nat} {stream stream' : Stream} {frames : List Outgoing} (found : s.stream? id = some stream)
    (fits : stream.grant increment = .ok (stream', frames)) :
    Mild s ((s.note (.granted i increment)).update stream' frames) :=
  (note rfl).trans (update (s := s.note _) found (Stream.acts_grant fits).id (Stream.ages_grant fits) frames)

theorem accept {id : Nat} {stream : Stream} (found : s.stream? id = some stream) (part : Inbound) :
    Mild s (s.accept stream part).1 := by
  unfold Session.accept
  split
  · exact refl s
  · cases part with
    | headers list final =>
      have reads := Stream.reads_acceptHeaders stream list final
      exact (setStream found reads.id reads.ages).trans (note rfl)
    | data bytes final =>
      dsimp only
      split
      · next fits =>
        have reads := Stream.reads_acceptData fits
        exact (setStream found reads.id reads.ages).trans (note rfl)
      · exact refl s

theorem takeGrant {id : Nat} {stream : Stream} (found : s.stream? id = some stream) (increment : Nat) :
    Mild s (s.takeGrant stream increment).1 := by
  unfold Session.takeGrant
  split
  · exact refl s
  · split
    · next fits => exact grant found fits
    · exact refl s

theorem store (peer : PeerSettings) (copy : Copy) : Mild s (s.store peer copy) := by
  cases copy <;> exact beside rfl

theorem takeUp {frame : Frame} {reader : Frame.Reader} (next : s.reader.next? = some (frame, reader)) :
    Mild s (s.takeUp frame reader) :=
  ⟨⟨Nat.le_refl _, rfl⟩, rfl, rfl, rfl, rfl, fun _ => rfl, rfl,
    fun stream member active => ⟨stream, member, rfl, active⟩, fun bounded => (bounded.next next).2, [.dispatched frame],
    rfl, List.forall_mem_singleton.mpr rfl⟩

/-- The peer has tried a new number. -/
theorem tried {id : Nat} (later : s.lastPeer < id) : Mild s { s with lastPeer := id } :=
  ⟨⟨Nat.le_of_lt later, rfl⟩, rfl, rfl, rfl, rfl, fun _ => rfl, rfl,
    fun stream member active => ⟨stream, member, rfl, active⟩, fun bounded => bounded, [], (List.append_nil _).symm, nofun⟩

/-- GOAWAY is decided on. -/
theorem leaving : Mild s { s with goAwaySent := true } :=
  ⟨⟨Nat.le_refl _, rfl⟩, rfl, rfl, rfl, rfl, fun _ => rfl, rfl,
    fun stream member active => ⟨stream, member, rfl, active⟩, fun bounded => bounded, [], (List.append_nil _).symm, nofun⟩

theorem sendGoAway (code : ErrorCode) : Mild s (s.sendGoAway code) := by
  unfold Session.sendGoAway
  split
  · exact refl s
  · exact leaving.trans (queue _ _)

end Mild

/-- A step of a task is mild, unless it starts the task or makes a push. -/
theorem Move.mild (h : Move s t) :
    Mild s t ∨ (∃ id executor, s.executor.next? = some (id, executor) ∧ t = { s with executor }.note (.started id)) ∨
      ∃ id stream list priority, s.stream? id = some stream ∧ s.pushError? stream = none ∧
        t = addTask s.nextPush (s.promise stream list priority) := by
  cases h with
  | @started id executor next => exact .inr (.inl ⟨id, executor, next, rfl⟩)
  | acted index found plain => exact .inl ((Mild.perform found plain).trans (.note rfl))
  | @promised id stream list priority found allowed => exact .inr (.inr ⟨id, stream, list, priority, found, allowed, rfl⟩)
  | pushed | resumed => exact .inl (.note rfl)
  | parked | unparked => exact .inl (.beside rfl)
  | woken p found => exact .inl ((Mild.readPart found).trans (.note rfl))
  | returned id => exact .inl (.returned id)
  | brokeDown id => exact .inl (.brokeDown id)

/-! ### Whole steps -/

/-- What a step of the session changes if it opens no stream, starts no task and does not close the session down. -/
structure Served (s t : Session) : Prop where
  numbers : s.lastPeer ≤ t.lastPeer ∧ t.nextPush = s.nextPush
  executor : t.executor = s.executor
  ids : t.streams.map (·.id) = s.streams.map (·.id)
  lasting : ∀ stream ∈ t.streams, stream.isActive → (∃ old ∈ s.streams, old.id = stream.id ∧ old.isActive) ∧
    (stream.id ∈ s.listed → stream.id ∈ t.listed)
  reader : s.reader.Bounded → t.reader.Bounded
  journal : ∃ events, t.journal = s.journal ++ events ∧ ∀ e ∈ events, e.assigns = false

namespace Served

theorem of_mild (mild : Mild s t) : Served s t where
  numbers := mild.numbers
  executor := mild.executor
  ids := mild.ids
  lasting stream member active := ⟨mild.ageing stream member active, fun here => mild.listed.symm ▸ here⟩
  reader := mild.reader
  journal := mild.journal

/-- A change beside the streams, their numbers, and the tasks. -/
theorem beside (same : t = { s with
      transport := t.transport, reader := t.reader, sendTable := t.sendTable, outbox := t.outbox,
      peerLeaving := t.peerLeaving, status := t.status, journal := t.journal })
    (reader : s.reader.Bounded → t.reader.Bounded)
    (journal : ∃ events, t.journal = s.journal ++ events ∧ ∀ e ∈ events, e.assigns = false) : Served s t := by
  have streams : t.streams = s.streams := by rw [same]
  have listed : t.listed = s.listed := by rw [same]
  have lastPeer : t.lastPeer = s.lastPeer := by rw [same]
  refine ⟨⟨Nat.le_of_eq lastPeer.symm, by rw [same]⟩, by rw [same], by rw [streams], fun stream member active => ?_, reader,
    journal⟩
  exact ⟨⟨stream, streams ▸ member, rfl, active⟩, fun here => listed.symm ▸ here⟩

theorem silent (same : t = { s with
      transport := t.transport, sendTable := t.sendTable, outbox := t.outbox, peerLeaving := t.peerLeaving,
      status := t.status }) : Served s t := by
  have reader : t.reader = s.reader := by rw [same]
  have journal : t.journal = s.journal := by rw [same]
  refine beside ?_ (fun bounded => reader.symm ▸ bounded) ⟨[], journal.trans (List.append_nil _).symm, nofun⟩
  rw [reader, journal]
  exact same

theorem refl (s : Session) : Served s s := silent rfl

theorem trans (first : Served s t) (second : Served t u) : Served s u where
  numbers := ⟨first.numbers.1.trans second.numbers.1, second.numbers.2.trans first.numbers.2⟩
  executor := second.executor.trans first.executor
  ids := second.ids.trans first.ids
  lasting stream member active := by
    obtain ⟨⟨old, earlier, own, went⟩, stays⟩ := second.lasting stream member active
    obtain ⟨⟨older, earliest, own', went'⟩, stays'⟩ := first.lasting old earlier went
    exact ⟨⟨older, earliest, own'.trans own, went'⟩, fun here => stays (own ▸ stays' (own ▸ here))⟩
  reader := second.reader ∘ first.reader
  journal := by
    obtain ⟨early, split, mild⟩ := first.journal
    obtain ⟨late, split', mild'⟩ := second.journal
    refine ⟨early ++ late, by rw [split', split, List.append_assoc], fun e member => ?_⟩
    exact (List.mem_append.mp member).elim (mild e) (mild' e)

theorem write (bytes : Bytes) (reason : StopReason) : Served s (s.write bytes reason) := by
  unfold Session.write
  split
  · exact beside rfl id ⟨[_], rfl, List.forall_mem_singleton.mpr rfl⟩
  · exact beside rfl id ⟨[_], rfl, List.forall_mem_singleton.mpr rfl⟩

theorem writeAll (frames : List Bytes) (s : Session) : Served s (writeAll frames s) := by
  induction frames generalizing s with
  | nil => exact refl s
  | cons bytes rest ih =>
    unfold Session.writeAll
    dsimp only
    split
    · exact (write ..).trans (ih _)
    · exact write ..

theorem writeOutgoing (s : Session) (f : Outgoing) : Served s (s.writeOutgoing f) := by
  let table := (f.wire s.peer.maxFrame s.sendTable).1
  have set : Served s { s with sendTable := table } := silent rfl
  exact (set.trans (of_mild (.note rfl))).trans (writeAll _ _)

theorem prune (s : Session) : Served s s.prune where
  numbers := ⟨Nat.le_refl _, rfl⟩
  executor := rfl
  ids := rfl
  lasting stream member active := by
    refine ⟨⟨stream, member, rfl, active⟩, fun here => List.mem_map.mpr ⟨stream, ?_, rfl⟩⟩
    refine List.mem_filter.mpr ⟨List.mem_filter.mpr ⟨member, ?_⟩, active⟩
    simpa using here
  reader bounded := bounded
  journal := ⟨[], (List.append_nil _).symm, nofun⟩

end Served

/-- What a whole step does if it is not a service: it starts a task, makes a push, or opens a stream. -/
inductive Novel (s : Session) : Session → Prop
  | started {id : Nat} {executor : Executor Nat} (next : s.executor.next? = some (id, executor)) :
      Novel s ({ s with executor }.note (.started id))
  | promised {id : Nat} {stream : Stream} (list : List Header) (priority : Nat) (found : s.stream? id = some stream)
      (allowed : s.pushError? stream = none) : Novel s (addTask s.nextPush (s.promise stream list priority))
  | opened {id : Nat} (odd : id % 2 ≠ 0) (later : s.lastPeer < id) (small : id ≤ maxStream) (rank : Nat)
      (list : List Header) (final : Bool) :
      Novel s (addTask id ({ s with lastPeer := id }.addStream (s.newStream id 0 rank) list final))

theorem Effect.whole {decoded : Except Hpack.Fault (List Header)} {frame : Frame} (h : Effect s decoded frame t)
    (small : frame.stream < Frame.idBound) : Served s t ∨ Novel s t := by
  cases h with
  | passed => exact .inl (.refl s)
  | breach => exact .inl (.of_mild (.sendGoAway _))
  | answered => exact .inl (.of_mild (.queue _ _))
  | @adopted params peer =>
    have set : Mild s (s.adopt peer) := .beside rfl
    exact .inl (.of_mild (set.trans (.queue _ _)))
  | left | crashed => exact .inl (.silent rfl)
  | @trailed id block priority flags stream found =>
    have reads := Stream.reads_acceptHeaders stream
    exact .inl (.of_mild ((Mild.setStream (of_listed? found) (reads _ _).id (reads _ _).ages).trans (.note rfl)))
  | turnedAway staying odd later rank => exact .inl (.of_mild ((Mild.tried later).trans (.queue _ _)))
  | opened staying odd later room rank => exact .inr (.opened odd later (Nat.le_of_lt_succ small) rank _ _)
  | received found going fits =>
    have reads := Stream.reads_acceptData fits
    exact .inl (.of_mild ((Mild.setStream (of_active? found).1 reads.id reads.ages).trans (.note rfl)))
  | granted found positive fits => exact .inl (.of_mild (.grant (of_active? found).1 fits))
  | offended found other => exact .inl (.of_mild (.reset (of_active? found).1 _))
  | @hungUp id stream found code =>
    exact .inl (.of_mild (.setStream (of_listed? found) (Stream.acts_abort stream).id (Stream.ages_abort stream)))

/-- A step that does not close the session down is a service, and then perhaps something new. -/
theorem Advance.whole (h : Advance s t) (hopen : t.outbox.closed = false) (bounded : s.reader.Bounded) :
    ∃ u, Served s u ∧ (t = u ∨ Novel u t) := by
  have service {u : Session} (served : Served s u) : ∃ v, Served s v ∧ (u = v ∨ Novel v u) := ⟨u, served, .inl rfl⟩
  cases h with
  | moved h =>
    rcases h.mild with mild | ⟨id, executor, next, rfl⟩ | ⟨id, stream, list, priority, found, allowed, rfl⟩
    · exact service (.of_mild mild)
    · exact ⟨s, .refl s, .inr (.started next)⟩
    · exact ⟨s, .refl s, .inr (.promised list priority found allowed)⟩
  | began =>
    have begun : Served s { s with status := .running } := .silent rfl
    exact service (begun.trans (.write ..))
  | polled => exact service (.of_mild (.note rfl))
  | counted | arrived | gone | finished => exact service (.silent rfl)
  | @read running wait status reader fed =>
    refine service (.beside rfl (fun bounded => ?_) ⟨[_], rfl, List.forall_mem_singleton.mpr rfl⟩)
    rcases fed with rfl | ⟨bytes, rfl⟩
    · exact bounded
    · exact bounded.feed bytes
  | @dispatched running frame reader next =>
    have looked : Served s (s.takeUp frame reader) := .of_mild (.takeUp next)
    rcases (effect_dispatch { s with reader } frame).whole (bounded.next next).1 with served | novel
    · exact service (looked.trans served)
    · exact ⟨_, looked, .inr novel⟩
  | wentAway running code => exact service (.of_mild (.sendGoAway code))
  | pruned => exact service (.prune s)
  | @wrote running f outbox next =>
    have set : Served s { s with outbox } := .silent rfl
    exact service (set.trans (.writeOutgoing _ f))
  | closed => cases hopen
  -- The outbox is closed before the executor stops.
  | halted closed =>
    have shut := (Kept.foldl_cancel s.executor.stop.2 { s with executor := s.executor.stop.1 }).closed.trans closed
    simp [shut] at hopen

end Session

end Multiplex
