import Multiplex.Proofs.Session.Delivery
import Multiplex.Proofs.Session.Handles
import Multiplex.Proofs.Session.Interleavings
import Multiplex.Proofs.Session.Staffing

/-! # Streams whose tasks are over

A handler returns, breaks down, or is cancelled, and its stream is seen to: no stream goes on after that, but one whose
reply was sent whole and waits for credit (`Settled`). Such a stream is over as soon as the peer has granted what waits
(`Lane.Sound.covered`). -/

namespace Multiplex

/-- Events that are right behind those before them may follow. -/
theorem Chronicle.extend {right : List Event → Event → Prop} {journal events : List Event}
    (chronicle : Chronicle right journal) (all : ∀ front e, front ++ [e] <+: events → right (journal ++ front) e) :
    Chronicle right (journal ++ events) := by
  induction events generalizing journal with
  | nil => rwa [List.append_nil]
  | cons first rest ih =>
    have next : right journal first := by simpa using all [] first (List.prefix_append [first] rest)
    rw [List.append_cons]
    refine ih (chronicle.concat next) fun front e early => ?_
    simpa using all (first :: front) e (List.cons_prefix_cons.mpr ⟨rfl, early⟩)

theorem Stream.WellFormed.waits {s : Stream} (well : s.WellFormed) (active : s.isActive) (ended : s.finalSent) :
    (s.send.enabled ∧ s.send.credit = 0 ∧ s.pending ≠ [] ∧ Chunk.join s.pending ≠ []) ∧
      ∃ early, s.pending.map (·.final) = early ++ [true] ∧ ∀ final ∈ early, final = false := by
  obtain ⟨unreleased, going⟩ := isActive_iff.mp active
  have ends := well.ends going
  rw [ended, unreleased] at ends
  obtain ⟨early, split, unended⟩ := Ends.last ends
  refine ⟨?_, early, split, unended⟩
  cases waits : s.pending with
  | nil => simp [waits] at split
  | cons c rest =>
    obtain ⟨enabled, spent, costs⟩ := well.held c rest waits
    exact ⟨enabled, spent, by simp, by simp [costs]⟩

/-- A stream that goes on after its reply has ended takes any grant that a window can hold, and is over with one that
    covers what waits. -/
theorem Stream.WellFormed.covered {s : Stream} (well : s.WellFormed) (active : s.isActive) (ended : s.finalSent)
    {increment : Nat} (bounded : increment ≤ maxWindow) :
    ∃ t frames, s.grant increment = .ok (t, frames) ∧
      ((Chunk.join s.pending).length ≤ increment → t.isActive = false) := by
  obtain ⟨⟨enabled, spent, -⟩, -⟩ := well.waits active ended
  have going := (isActive_iff.mp active).2
  have fits : s.send.credit + increment ≤ maxWindow := by omega
  obtain ⟨t, frames, granted⟩ : ∃ t frames, s.grant increment = .ok (t, frames) :=
    ⟨_, _, by rw [Stream.grant, if_neg (by simp [going]), SendWindow.grant, if_pos fits]⟩
  refine ⟨t, frames, granted, fun enough => Bool.eq_false_iff.mpr fun active' => ?_⟩
  obtain ⟨⟨-, spent', -, some⟩, -⟩ := (well.grant granted).waits active' ((ages_grant granted).sent ended)
  obtain ⟨rfl, -⟩ := Prod.mk.inj (of_grant going granted).2
  let w : SendWindow := { s.send with credit := s.send.credit + increment }
  have paid := w.credit_release s.pending enabled
  have parts := congrArg List.length (w.join_release s.pending)
  have left : 0 < (Chunk.join (w.release s.pending).waiting).length := List.length_pos_iff.mpr some
  have through : (w.release s.pending).window.credit = 0 := spent'
  have all : w.credit = increment := by simp [w, spent]
  rw [List.length_append] at parts
  omega

/-! ### Grants -/

/-- Whether a handler sends data by an event. -/
def Event.sendsData : Event → Bool
  | .stepped _ _ (.act (.data ..)) .sent => true
  | _ => false

namespace Ledger
variable {id : Nat} {k k' k'' : Ledger} {e : Event}

/-- Nothing is sent from `k` to `k'`. -/
def Still (k k' : Ledger) : Prop := k'.window = k.window ∧ k'.sent = k.sent

theorem Still.refl (k : Ledger) : Still k k := ⟨rfl, rfl⟩

theorem Still.trans (first : Still k k') (second : Still k' k'') : Still k k'' :=
  ⟨second.1.trans first.1, second.2.trans first.2⟩

theorem still_note (other : e.sendsData = false) (k : Ledger) (id : Nat) : Still k (k.note id e) := by
  unfold note
  split
  · cases other
  all_goals first | exact .refl k | (split <;> exact ⟨rfl, rfl⟩)

end Ledger

namespace Lane
variable {version : Version} {config : Config} {id : Nat} {l l' : Lane}

theorem still_note {e : Event} (other : e.sendsData = false) (l : Lane) (id : Nat) :
    Ledger.Still (l.ledger id) ((l.note e).ledger id) := by
  rw [ledger_note]
  exact Ledger.still_note other ..

theorem still_queue (l : Lane) (f : Outgoing) (priority id : Nat) :
    Ledger.Still (l.ledger id) ((l.queue f priority).ledger id) := by
  unfold queue
  split
  · exact .refl _
  · exact still_note (l := { l with waiting := _ }) rfl id

theorem still_put (l : Lane) (stream : Stream) (frames : List Outgoing) (id : Nat) :
    Ledger.Still (l.ledger id) ((l.put stream frames).ledger id) := by
  have all (l : Lane) : Ledger.Still (l.ledger id) ((l.queueAll frames stream.priority).ledger id) := by
    unfold queueAll
    induction frames generalizing l with
    | nil => exact .refl _
    | cons f rest ih => exact (still_queue l f stream.priority id).trans (ih _)
  exact all { l with stream := some stream }

/-- Once the reply has ended, nothing is sent any more. -/
theorem Step.still (h : Step version config id l l') (blank : l.fresh → l.Blank) {stream : Stream}
    (found : l.stream = some stream) (ended : stream.finalSent) : Ledger.Still (l.ledger id) (l'.ledger id) := by
  -- There is one stream on the lane, and its reply has ended, so it sends nothing.
  have only {s : Stream} (present : l.stream = some s) (unended : s.finalSent = false) : False := by
    obtain rfl : s = stream := Option.some.inj (present.symm.trans found)
    exact Bool.eq_false_iff.mp unended ended
  cases h with
  | @noted e about quiet =>
    have other : e.sendsData = false := by
      unfold Event.sendsData
      split
      · cases quiet
      · rfl
    exact still_note other l id
  | outdated | left | hungUp | pruned | closed => exact .refl _
  | announced | promised => exact still_queue ..
  | refused => exact still_queue { l with fresh := false } ..
  | opened fresh => simp [(blank fresh).stream] at found
  | trailed | received => exact still_note (l := { l with stream := _ }) rfl id
  | taken => exact still_note (l := { l with waiting := _ }) rfl id
  | cancelled => exact still_note (e := .cancelled id) rfl l id
  | granted => exact (still_note rfl l id).trans (still_put ..)
  | reset => exact still_put ..
  | read found index step =>
    refine (still_put l _ _ id).trans (still_note ?_ _ id)
    unfold Event.sendsData
    split <;> first | rfl | (next same => cases same)
  | readAll => exact (still_put l _ _ id).trans (still_note rfl _ id)
  | sentHeaders present index allowed => exact (only present (Stream.of_sendHeaders allowed).2.1).elim
  | sentData present index allowed => exact (only present (Stream.of_sendData allowed).2.1).elim

theorem Steps.still (h : Steps version config id l l') (blank : l.fresh → l.Blank) {stream : Stream}
    (found : l.stream = some stream) (ended : stream.finalSent) : Ledger.Still (l.ledger id) (l'.ledger id) := by
  refine h.keeps (P := fun u => Ledger.Still (l.ledger id) (u.ledger id)) (.refl _) fun earlier last still => ?_
  obtain ⟨stream', found', ages⟩ := Steps.ages earlier blank found
  exact still.trans (last.still (earlier.blank blank) found' (ages.sent ended))

/-- What waits on a stream that goes on after its reply has ended is what was sent beyond the window and the grants. -/
theorem Sound.waits (sound : l.Sound version id) {stream : Stream} (found : l.stream = some stream)
    (active : stream.isActive) (ended : stream.finalSent) :
    ∃ window, (l.ledger id).window = some window ∧
      (l.ledger id).sent.length = window + (l.ledger id).granted + (Chunk.join stream.pending).length := by
  have balance := sound.balanced stream found (.inl (Stream.isActive_iff.mp active).2)
  obtain ⟨⟨enabled, spent, -⟩, -⟩ := (sound.orderly.well stream found).waits active ended
  obtain ⟨window, opened, paid⟩ := balance.credit
  have whole := congrArg List.length balance.bytes
  have through := paid (balance.enabled.symm.trans enabled)
  rw [List.length_append] at whole
  exact ⟨window, opened, by omega⟩

/-- A stream that goes on after its reply has ended is over once the peer has granted what waits. -/
theorem Sound.covered (sound : l.Sound version id) (h : Steps version config id l l') {stream : Stream}
    (found : l.stream = some stream) (active : stream.isActive) (ended : stream.finalSent)
    (covered : (l.ledger id).granted + (Chunk.join stream.pending).length ≤ (l'.ledger id).granted) :
    ∃ stream', l'.stream = some stream' ∧ stream'.isActive = false := by
  obtain ⟨stream', found', ages⟩ := Steps.ages h sound.orderly.blank found
  refine ⟨stream', found', Bool.eq_false_iff.mpr fun active' => ?_⟩
  have sound' := h.sound sound
  have ended' := ages.sent ended
  obtain ⟨window, opened, before⟩ := sound.waits found active ended
  obtain ⟨window', opened', after⟩ := sound'.waits found' active' ended'
  obtain ⟨⟨-, -, -, some⟩, -⟩ := (sound'.orderly.well stream' found').waits active' ended'
  have still := h.still sound.orderly.blank found ended
  obtain rfl : window' = window := Option.some.inj (opened'.symm.trans (still.1.trans opened))
  have left := List.length_pos_iff.mpr some
  rw [still.2] at after
  omega

end Lane

namespace Session

variable {s t u : Session}

/-! ### How tasks are over -/

/-- The frame that resets a stream whose handler leaves it unfinished. -/
def failure (id : Nat) : Outgoing := .frame (.reset id ErrorCode.internalError)

/-- The steps in which tasks are over. -/
inductive Concluding (s : Session) : Session → Prop
  | returned (id : Nat) : Concluding s (s.returned id)
  | brokeDown (id : Nat) : Concluding s (s.brokeDown id)
  | halted (closed : s.outbox.closed) :
      Concluding s (s.executor.stop.2.foldl cancel { s with executor := s.executor.stop.1 })

theorem Taskless.unconcluded (taskless : Taskless s t) :
    ∃ events, t.journal = s.journal ++ events ∧ ∀ e ∈ events, ∀ id, e.concludes id = false := by
  obtain ⟨events, journal, plain⟩ := taskless.journal
  exact ⟨events, journal, fun e member => Event.concludes_of_plain (plain e member)⟩

theorem Effect.unconcluded {decoded : Except Hpack.Fault (List Header)} {frame : Frame} (h : Effect s decoded frame t)
    (idle : s.executor.stopped = false) (fresh : ∀ id, s.isFresh id → s.stream? id = none) :
    ∃ events, t.journal = s.journal ++ events ∧ ∀ e ∈ events, ∀ id, e.concludes id = false := by
  cases h with
  | passed => exact (Taskless.refl s).unconcluded
  | breach => exact (Taskless.sendGoAway _).unconcluded
  | answered => exact (Taskless.queue _ _).unconcluded
  | @adopted params peer =>
    have set : Taskless s (s.adopt peer) := .of_streams rfl rfl rfl rfl
    exact (set.trans (.queue _ _)).unconcluded
  | left | crashed => exact (Taskless.of_streams rfl rfl rfl rfl).unconcluded
  | trailed | received => exact ((Taskless.setStream _).trans (.note rfl)).unconcluded
  | @turnedAway id =>
    have set : Taskless s { s with lastPeer := id } := .of_streams rfl rfl rfl rfl
    exact (set.trans (.queue _ _)).unconcluded
  | @opened id block final priority flags staying odd new room rank list read =>
    have unused : s.stream? id = none := fresh id (isFresh_of_odd odd new)
    rw [addTask_addStream (s := { s with lastPeer := id }) unused rfl idle]
    exact ⟨_, rfl, by simp [Event.concludes]⟩
  | granted => exact ((Taskless.note rfl).trans (.update ..)).unconcluded
  | offended => exact (Taskless.reset ..).unconcluded
  | hungUp => exact (Taskless.setStream _).unconcluded

theorem Move.concluding (h : Move s t) (stable : s.Stable) (fresh : s.Fresh) :
    (∃ events, t.journal = s.journal ++ events ∧ ∀ e ∈ events, ∀ id, e.concludes id = false) ∨ Concluding s t := by
  cases h with
  | @started id executor next =>
    exact .inl ⟨[.started id], rfl, by simp [Event.concludes]⟩
  | acted index found plain => exact .inl ((Taskless.perform _ plain).trans (.note rfl)).unconcluded
  | promised list priority found allowed =>
    obtain ⟨idle, unused⟩ := stable.unused fresh allowed
    obtain ⟨new, -, -, added⟩ := addTask_promise allowed idle unused list priority
    rw [added]
    exact .inl ⟨_, rfl, by simp [Event.concludes]⟩
  | pushed | resumed => exact .inl (Taskless.note rfl).unconcluded
  | parked | unparked => exact .inl ⟨[], (List.append_nil _).symm, nofun⟩
  | woken p found => exact .inl ((Taskless.readPart _).trans (.note rfl)).unconcluded
  | returned id => exact .inr (.returned id)
  | brokeDown id => exact .inr (.brokeDown id)

/-- In a step no task is over, or it returns or breaks down, or the executor stops. -/
theorem Advance.concluding (h : Advance s t) (stable : s.Stable) (fresh : s.Fresh) :
    (∃ events, t.journal = s.journal ++ events ∧ ∀ e ∈ events, ∀ id, e.concludes id = false) ∨ Concluding s t := by
  cases h with
  | moved h => exact h.concluding stable fresh
  | halted closed => exact .inr (.halted closed)
  | began =>
    have set : Taskless s { s with status := .running } := .of_streams rfl rfl rfl rfl
    exact .inl (set.trans (.write ..)).unconcluded
  | polled => exact .inl (Taskless.note rfl).unconcluded
  | counted | arrived | gone | finished | pruned => exact .inl (Taskless.of_streams rfl rfl rfl rfl).unconcluded
  | @read running wait status reader fed =>
    have set : Taskless s { s with reader } := .of_streams rfl rfl rfl rfl
    exact .inl (set.trans (.note rfl)).unconcluded
  | @dispatched running frame reader next =>
    -- The executor has not stopped, so a task that comes with the frame is not cancelled.
    obtain ⟨hopen, idle⟩ := stable.running running
    let u : Session := { s with reader }
    obtain ⟨events, journal, plain⟩ :=
      (effect_dispatch u frame).unconcluded idle fun id unused => (fresh id unused).stream
    refine .inl ⟨.dispatched frame :: events, journal.trans (List.append_assoc ..), fun e member => ?_⟩
    rcases List.mem_cons.mp member with rfl | later
    · exact fun _ => rfl
    · exact plain e later
  | wentAway => exact .inl (Taskless.sendGoAway _).unconcluded
  | @wrote running f outbox next =>
    have set : Taskless s { s with outbox } := .of_streams rfl rfl rfl rfl
    exact .inl (set.trans (.writeOutgoing _ f)).unconcluded
  | closed =>
    have set : Taskless s { s with outbox := s.outbox.close } := .of_streams rfl rfl rfl rfl
    exact .inl (set.trans (.abortListed _)).unconcluded

/-! ### What becomes of streams -/

theorem isSome_of_opens (numbered : s.Numbered) {id : Nat} (opened : s.journal.any (·.opens id)) :
    (s.stream? id).isSome := by
  obtain ⟨e, noted, opens⟩ := List.any_eq_true.mp opened
  have listed : id ∈ s.openings.map (·.1) := by
    cases e with
    | opened stream parent priority pushed =>
      obtain rfl : stream = id := by simpa [Event.opens] using opens
      exact List.mem_map.mpr ⟨(stream, pushed), List.mem_filterMap.mpr ⟨_, noted, rfl⟩, rfl⟩
    | _ => cases opens
  rw [← numbered.ids] at listed
  obtain ⟨stream, member, same⟩ := List.mem_map.mp listed
  exact List.find?_isSome.mpr ⟨stream, member, by simp [same]⟩

theorem inactive_reset (stream : Stream) (code : ErrorCode) : (stream.reset code).1.isActive = false := by
  unfold Stream.reset
  split
  · exact Lane.isActive_abort stream
  · next inactive => exact Bool.eq_false_iff.mpr inactive

theorem of_returned {id : Nat} {stream : Stream} (found : s.stream? id = some stream)
    (hopen : stream.isActive → s.outbox.closed = false) :
    (s.returned id).journal =
        s.journal ++ .ended id :: (if stream.isActive && !stream.finalSent then [.queued (failure id)] else []) ∧
      ∃ stream', (s.returned id).stream? id = some stream' ∧ (stream'.isActive → stream'.finalSent) := by
  have noted : (s.note (.ended id)).stream? id = some stream := found
  unfold returned
  simp only [noted]
  by_cases ended : stream.finalSent
  · rw [if_pos ended]
    exact ⟨by simp [ended, note], stream, noted, fun _ => ended⟩
  · obtain ⟨journal, left⟩ := of_reset noted hopen ErrorCode.internalError
    rw [if_neg ended]
    refine ⟨?_, _, left, fun active => absurd active (by simp [inactive_reset])⟩
    rw [journal]
    simp [ended, note, failure]

theorem of_brokeDown {id : Nat} {stream : Stream} (found : s.stream? id = some stream)
    (hopen : stream.isActive → s.outbox.closed = false) :
    (s.brokeDown id).journal = s.journal ++ .failed id :: (if stream.isActive then [.queued (failure id)] else []) ∧
      ∃ stream', (s.brokeDown id).stream? id = some stream' ∧ stream'.isActive = false := by
  have noted : (s.note (.failed id)).stream? id = some stream := found
  obtain ⟨journal, left⟩ := of_reset noted hopen ErrorCode.internalError
  unfold brokeDown
  simp only [noted]
  refine ⟨?_, _, left, inactive_reset ..⟩
  rw [journal]
  simp [note, failure]

theorem of_cancel {id : Nat} {stream : Stream} (found : s.stream? id = some stream) :
    s.cancel id = { s with streams := (s.cancel id).streams, journal := s.journal ++ [.cancelled id] } ∧
      (s.cancel id).stream? id = some stream.abort := by
  have own : stream.abort.id = id := (Stream.acts_abort stream).id.trans (id_of_stream? found)
  refine ⟨cancel_rest s id, ?_⟩
  have noted : (s.note (.cancelled id)).stream? id = some stream := found
  unfold cancel
  simp only [noted]
  have present : ((s.note (.cancelled id)).stream? stream.abort.id).isSome := by simp [own, noted]
  have set := stream?_setStream (s.note (.cancelled id)) present
  rwa [own] at set

theorem stream?_cancel_other {id i : Nat} (other : i ≠ id) : (s.cancel i).stream? id = s.stream? id := by
  unfold cancel
  dsimp only
  split
  · next stream found =>
    have own : stream.abort.id = i := (Stream.acts_abort stream).id.trans (id_of_stream? found)
    exact stream?_setStream_ne (s.note (.cancelled i)) (by rw [own]; exact Ne.symm other)
  · rfl

/-- Once a stream is over, cancelling tasks leaves it over. -/
theorem inactive_foldl_cancel (ids : List Nat) {id : Nat} {stream : Stream} (found : s.stream? id = some stream)
    (inactive : stream.isActive = false ∨ id ∈ ids) :
    ∃ stream', (ids.foldl cancel s).stream? id = some stream' ∧ stream'.isActive = false := by
  induction ids generalizing s stream with
  | nil => exact ⟨stream, found, inactive.resolve_right List.not_mem_nil⟩
  | cons i rest ih =>
    by_cases same : i = id
    · subst same
      exact ih (of_cancel found).2 (.inl (Lane.isActive_abort stream))
    · refine ih ((stream?_cancel_other same).trans found) (inactive.imp_right fun member => ?_)
      exact (List.mem_cons.mp member).resolve_left (Ne.symm same)

/-- What has become of the streams whose tasks are over: a stream that goes on has its reply sent whole, by a handler
    that has returned. -/
def Settled (s : Session) (front : List Event) (e : Event) : Prop :=
  ∀ id, e.concludes id → front.any (·.opens id) →
    ∃ stream, s.stream? id = some stream ∧ (stream.isActive → e = .ended id ∧ stream.finalSent)

/-- What a step notes that opens no stream is settled after it, if the streams that were open before are. -/
theorem settled_append (before : Chronicle t.Settled s.journal) {events : List Event}
    (journal : t.journal = s.journal ++ events)
    (all : ∀ e ∈ events, ∀ id, e.opens id = false ∧ (e.concludes id → s.journal.any (·.opens id) →
      ∃ stream, t.stream? id = some stream ∧ (stream.isActive → e = .ended id ∧ stream.finalSent))) :
    Chronicle t.Settled t.journal := by
  rw [journal]
  refine before.extend fun front e early id concludes opened => ?_
  refine (all e (early.subset (by simp)) id).2 concludes ?_
  obtain ⟨e', member, opens⟩ := List.any_eq_true.mp opened
  refine List.any_eq_true.mpr ⟨e', (List.mem_append.mp member).resolve_right fun inside => ?_, opens⟩
  simp [(all e' (early.subset (by simp [inside])) id).1] at opens

theorem settled_concluded {id : Nat} {e : Event} (numbered : s.Numbered) (before : Chronicle t.Settled s.journal)
    (own : ∀ i, e.opens i = false ∧ (e.concludes i → i = id)) {resets : List Event}
    (journal : t.journal = s.journal ++ e :: resets) (plain : ∀ e ∈ resets, e = .queued (failure id))
    (settled : ∀ stream, s.stream? id = some stream →
      ∃ stream', t.stream? id = some stream' ∧ (stream'.isActive → e = .ended id ∧ stream'.finalSent)) :
    Chronicle t.Settled t.journal := by
  refine settled_append before journal fun e' member i => ?_
  rcases List.mem_cons.mp member with rfl | later
  · refine ⟨(own i).1, fun concludes opened => ?_⟩
    obtain rfl := (own i).2 concludes
    obtain ⟨stream, found⟩ := Option.isSome_iff_exists.mp (isSome_of_opens numbered opened)
    exact settled stream found
  · rw [plain e' later]
    exact ⟨rfl, nofun⟩

/-- In a step in which tasks are over, their streams are settled. -/
theorem Concluding.settled (h : Concluding s t) (numbered : s.Numbered) (orderly : ∀ id, (s.lane id).Orderly id)
    (before : Chronicle t.Settled s.journal) : Chronicle t.Settled t.journal := by
  have hopen {id : Nat} {stream : Stream} (found : s.stream? id = some stream) (active : stream.isActive) :
      s.outbox.closed = false :=
    Bool.eq_false_iff.mpr fun closed => Bool.eq_false_iff.mp ((orderly id).closed closed stream found) active
  -- The journal grows by the end of the task and, where its stream goes on, by RST_STREAM.
  have only {id : Nat} {here : Bool} :
      ∀ e ∈ if here then [Event.queued (failure id)] else [], e = .queued (failure id) := by
    cases here <;> simp
  cases h with
  | returned id =>
    have own (i : Nat) : (Event.ended id).opens i = false ∧ ((Event.ended id).concludes i → i = id) :=
      ⟨rfl, fun same => (beq_iff_eq.mp same).symm⟩
    cases found : s.stream? id with
    | none =>
      have alone : (s.returned id).journal = s.journal ++ [.ended id] := by
        rw [Session.returned, show (s.note (.ended id)).stream? id = none from found]
        rfl
      exact settled_concluded numbered before own alone nofun (by simp [found])
    | some stream =>
      obtain ⟨journal, stream', left, ended⟩ := of_returned found (hopen found)
      exact settled_concluded numbered before own journal only fun _ _ => ⟨stream', left, fun active => ⟨rfl, ended active⟩⟩
  | brokeDown id =>
    have own (i : Nat) : (Event.failed id).opens i = false ∧ ((Event.failed id).concludes i → i = id) :=
      ⟨rfl, fun same => (beq_iff_eq.mp same).symm⟩
    cases found : s.stream? id with
    | none =>
      have alone : (s.brokeDown id).journal = s.journal ++ [.failed id] := by
        rw [Session.brokeDown, show (s.note (.failed id)).stream? id = none from found]
        rfl
      exact settled_concluded numbered before own alone nofun (by simp [found])
    | some stream =>
      obtain ⟨journal, stream', left, inactive⟩ := of_brokeDown found (hopen found)
      exact settled_concluded numbered before own journal only fun _ _ =>
        ⟨stream', left, fun active => absurd active (by simp [inactive])⟩
  | halted closed =>
    refine settled_append before (journal_foldl_cancel ..) fun e member id => ?_
    obtain ⟨i, waits, rfl⟩ := List.mem_map.mp member
    refine ⟨rfl, fun concludes opened => ?_⟩
    obtain rfl : i = id := beq_iff_eq.mp concludes
    obtain ⟨stream, found⟩ := Option.isSome_iff_exists.mp (isSome_of_opens numbered opened)
    obtain ⟨stream', left, inactive⟩ := inactive_foldl_cancel s.executor.stop.2
      (s := { s with executor := s.executor.stop.1 }) found (.inr waits)
    exact ⟨stream', left, fun active => absurd active (by simp [inactive])⟩

section Reached
variable {version : Version} {config : Config} {handlers : Handlers} {schedule : Schedule} {transport : Transport}

theorem settled_start (h : Reaches (start version config handlers schedule transport) t) : Chronicle t.Settled t.journal := by
  refine h.keeps_from (P := fun t => Chronicle t.Settled t.journal) chronicle_nil fun {u v} earlier last settled => ?_
  have followed := followed_start earlier
  have lanes := last.lanes followed.stable followed.fresh
  have before : Chronicle v.Settled u.journal := fun front e early id concludes opened => by
    obtain ⟨stream, found, whole⟩ := settled front e early id concludes opened
    obtain ⟨stream', found', ages⟩ := (lanes id).ages (followed.fresh id) found
    refine ⟨stream', found', fun active => ?_⟩
    obtain ⟨returned, ended⟩ := whole (ages.active active)
    exact ⟨returned, ages.sent ended⟩
  rcases last.concluding followed.stable followed.fresh with ⟨events, journal, plain⟩ | concluding
  · rw [journal]
    exact before.append fun e member front id concludes => absurd concludes (by simp [plain e member id])
  · exact concluding.settled (numbered_start earlier) (fun id => (sound_start earlier id).orderly) before

/-- How the task of a stream came to be over in a run that has come to `t`: at a moment before it returned, or broke down,
    or the executor stopped when the outbox was closed. -/
inductive Ended (first t : Session) (front : List Event) (id : Nat) : Event → Prop
  | returned {s : Session} (early : Reaches first s) (before : s.journal = front) (later : Reaches (s.returned id) t) :
      Ended first t front id (.ended id)
  | brokeDown {s : Session} (early : Reaches first s) (before : s.journal = front) (later : Reaches (s.brokeDown id) t) :
      Ended first t front id (.failed id)
  | cancelled {s : Session} (early : Reaches first s) (before : s.journal <+: front) (closed : s.outbox.closed)
      (later : Reaches s t) : Ended first t front id (.cancelled id)

theorem Ended.trans {first : Session} {front : List Event} {id : Nat} {e : Event} (ended : Ended first t front id e)
    (more : Reaches t u) : Ended first u front id e := by
  cases ended with
  | returned early before later => exact .returned early before (later.trans more)
  | brokeDown early before later => exact .brokeDown early before (later.trans more)
  | cancelled early before closed later => exact .cancelled early before closed (later.trans more)

theorem ended_start (h : Reaches (start version config handlers schedule transport) t) :
    Chronicle (fun front e => ∀ id, e.concludes id →
      Ended (start version config handlers schedule transport) t front id e) t.journal := by
  let first := start version config handlers schedule transport
  refine h.keeps_from (P := fun t => Chronicle (fun front e => ∀ id, e.concludes id → Ended first t front id e) t.journal)
    chronicle_nil fun {u v} earlier last ended => ?_
  have followed := followed_start earlier
  -- Each end that was noted before stays what it was, seen from the later session.
  have before : Chronicle (fun front e => ∀ id, e.concludes id → Ended first v front id e) u.journal :=
    fun front e early id concludes => (ended front e early id concludes).trans (.single last)
  have alone {e : Event} (own : ∀ id, e.concludes id → Ended first v u.journal id e) (after : Taskless (u.note e) v) :
      Chronicle (fun front e => ∀ id, e.concludes id → Ended first v front id e) v.journal := by
    obtain ⟨events, journal, plain⟩ := after.unconcluded
    rw [journal]
    refine (before.concat own).append fun e' member front id concludes => ?_
    exact absurd concludes (by simp [plain e' member id])
  rcases last.concluding followed.stable followed.fresh with ⟨events, journal, plain⟩ | concluding
  · rw [journal]
    exact before.append fun e member front id concludes => absurd concludes (by simp [plain e member id])
  cases concluding with
  | returned id =>
    refine alone (fun i same => ?_) (.returned u id)
    obtain rfl : id = i := beq_iff_eq.mp same
    exact .returned earlier rfl (.refl _)
  | brokeDown id =>
    refine alone (fun i same => ?_) (.brokeDown u id)
    obtain rfl : id = i := beq_iff_eq.mp same
    exact .brokeDown earlier rfl (.refl _)
  | halted closed =>
    rw [journal_foldl_cancel]
    refine before.extend fun front e early id concludes => ?_
    obtain ⟨i, -, rfl⟩ := List.mem_map.mp (early.subset (List.mem_append_right _ List.mem_cons_self))
    obtain rfl : i = id := beq_iff_eq.mp concludes
    exact .cancelled earlier (List.prefix_append _ _) closed (.single last)

/-- A task that waits for an executor that has stopped is cancelled at once. -/
theorem addTask_of_stopped {id : Nat} {stream : Stream} (found : s.stream? id = some stream)
    (stopped : s.executor.stopped) :
    addTask id s =
        { s with
          streams := (addTask id s).streams,
          journal := s.journal ++ [.opened id stream.parent stream.priority stream.isPushed, .cancelled id] } ∧
      (addTask id s).stream? id = some stream.abort := by
  have noted : (s.note (.opened id stream.parent stream.priority stream.isPushed)).stream? id = some stream := found
  have added : addTask id s = (s.note (.opened id stream.parent stream.priority stream.isPushed)).cancel id := by
    simp only [addTask, found]
    exact if_pos stopped
  obtain ⟨rest, left⟩ := of_cancel noted
  rw [added]
  refine ⟨?_, left⟩
  rw [rest]
  simp [note]

/-- In a run, a task is over only after its stream was opened. -/
theorem opens_of_concludes {journal front : List Event} {e : Event} {id : Nat} (order : Chronicle Event.InTurn journal)
    (early : front ++ [e] <+: journal) (concludes : e.concludes id) : front.any (·.opens id) := by
  have begun (started : .started id ∈ front) : front.any (·.opens id) := by
    obtain ⟨before, after, rfl⟩ := List.append_of_mem started
    have sooner : before ++ [.started id] <+: journal :=
      (List.IsPrefix.trans ⟨after ++ [e], by simp⟩ early)
    exact any_grows (List.prefix_append _ _) (order before _ sooner)
  cases e with
  | ended i | failed i =>
    obtain rfl : i = id := beq_iff_eq.mp concludes
    exact begun (order front _ early)
  | cancelled i =>
    obtain rfl : i = id := beq_iff_eq.mp concludes
    exact order front _ early
  | _ => cases concludes

end Reached

/-- At every moment of every session, a stream whose task is over goes on only if its handler has returned after it
    sent its whole reply, with flow control, and what waits is not empty, ends with the end of the reply, and waits for
    credit; it takes any grant that a window can hold, and it is over once what waits was granted. A handler that returns from
    a stream that goes on before its reply has ended, or breaks down on a stream that goes on, has the stream reset,
    once; in no other case is anything put into the outbox, and never when a task is cancelled, be it that the executor
    stops or that it has stopped before the task is added. In a run, a task is over only after its stream was opened. -/
theorem concluded_streams (version : Version) (config : Config) (handlers : Handlers) (schedule : Schedule)
    (transport : Transport) :
    let first := start version config handlers schedule transport
    (∀ t front e back id, Reaches first t → t.journal = front ++ e :: back → e.concludes id → front.any (·.opens id) →
      Ended first t front id e ∧
      ∃ stream, t.stream? id = some stream ∧ (stream.isActive →
        (e = .ended id ∧ version = .spdy3 ∧ stream.finalSent) ∧
        (stream.send.credit = 0 ∧ stream.pending ≠ [] ∧
          ∃ early, stream.pending.map (·.final) = early ++ [true] ∧ ∀ final ∈ early, final = false) ∧
        (∀ increment ≤ maxWindow, ∃ stream' frames, stream.grant increment = .ok (stream', frames) ∧
          ((Chunk.join stream.pending).length ≤ increment → stream'.isActive = false)) ∧
        ∀ u, Reaches t u → (t.ledger id).granted + (Chunk.join stream.pending).length ≤ (u.ledger id).granted →
          ∃ stream', u.stream? id = some stream' ∧ stream'.isActive = false)) ∧
    (∀ s id stream, Reaches first s → s.stream? id = some stream →
      (s.returned id).journal =
        s.journal ++ .ended id :: (if stream.isActive && !stream.finalSent then [.queued (failure id)] else []) ∧
      (s.brokeDown id).journal = s.journal ++ .failed id :: (if stream.isActive then [.queued (failure id)] else []) ∧
      s.cancel id = { s with streams := (s.cancel id).streams, journal := s.journal ++ [.cancelled id] }) ∧
    (∀ s id stream, s.stream? id = some stream → s.executor.stopped →
      addTask id s =
          { s with
            streams := (addTask id s).streams,
            journal := s.journal ++ [.opened id stream.parent stream.priority stream.isPushed, .cancelled id] } ∧
        ∃ stream', (addTask id s).stream? id = some stream' ∧ stream'.isActive = false) ∧
    ∀ front e back id, first.runToEnd.journal = front ++ e :: back → e.concludes id → front.any (·.opens id) := by
  intro first
  refine ⟨?_, ?_, ?_, ?_⟩
  · intro t front e back id reached split concludes opened
    have early : front ++ [e] <+: t.journal := ⟨back, by simp [split]⟩
    obtain ⟨stream, found, whole⟩ := settled_start reached front e early id concludes opened
    refine ⟨ended_start reached front e early id concludes, stream, found, fun active => ?_⟩
    obtain ⟨returned, ended⟩ := whole active
    have sound := sound_start reached id
    have well := sound.orderly.well stream found
    -- What keeps an ended reply from being released whole is credit, and so flow control.
    obtain ⟨⟨enabled, spent, some, -⟩, last⟩ := well.waits active ended
    have flow := (sound.balanced stream found (.inl (Stream.isActive_iff.mp active).2)).enabled
    refine ⟨⟨returned, ?_, ended⟩, ⟨spent, some, last⟩, fun increment bounded => well.covered active ended bounded,
      fun u later covered => ?_⟩
    · cases version with
      | spdy2 => simp [enabled, Version.hasFlowControl] at flow
      | spdy3 => rfl
    · have followed := followed_start reached
      have steps := (later.lanes followed.stable followed.fresh).lanes id
      rw [followed.version] at steps
      rw [← ledger_lane, ← ledger_lane] at covered
      exact sound.covered steps found active ended covered
  · intro s id stream reached found
    have hopen (active : stream.isActive) : s.outbox.closed = false := Bool.eq_false_iff.mpr fun closed =>
      Bool.eq_false_iff.mp ((sound_start reached id).orderly.closed closed stream found) active
    exact ⟨(of_returned found hopen).1, (of_brokeDown found hopen).1, cancel_rest s id⟩
  · intro s id stream found stopped
    obtain ⟨rest, left⟩ := addTask_of_stopped found stopped
    exact ⟨rest, _, left, Lane.isActive_abort stream⟩
  · intro front e back id split concludes
    have staffed := staffed_runToEnd (.start version config handlers schedule transport)
    exact opens_of_concludes staffed.account.order ⟨back, by simp [first, split]⟩ concludes

/-- A session whose peer grants three bytes for each reply. The handler of the first stream sends five and returns, and
    that of the third breaks down. -/
def frugal : Session :=
  let request (id : Nat) := (Frame.headers id [] true none 0).encode id
  let grants := (Frame.settings false [{ id := Setting.initialWindow, value := 3 }]).encode 0
  start .spdy3 {}
    { own := [(1, [.act (.headers [] false), .act (.data [1, 2, 3, 4, 5] true)])], others := [.fail] } .atOnce
    { arrivals := [{ bytes := grants ++ request 1 ++ request 3 }], patience := 2 }

/-- When the rounds end, two bytes wait on the first stream, and a grant of two would finish it. -/
theorem concluded_streams_frugal :
    let t := frugal.serve
    .ended 1 ∈ t.journal ∧ .failed 3 ∈ t.journal ∧ .queued (failure 3) ∈ t.journal ∧
      ∃ stream, t.stream? 1 = some stream ∧ stream.isActive ∧ stream.send.credit = 0 ∧ stream.pending ≠ [] ∧
        ∃ stream' frames, stream.grant 2 = .ok (stream', frames) ∧ stream'.isActive = false := by
  intro t
  have reached : Reaches frugal t := (reaches_serve (s := frugal) rfl).1
  obtain ⟨every, -⟩ := concluded_streams frugal.version frugal.config frugal.handlers frugal.schedule frugal.transport
  let place := t.journal.idxOf (.ended 1)
  have split : t.journal = t.journal.take place ++ .ended 1 :: t.journal.drop (place + 1) := by decide +kernel
  obtain ⟨-, stream, found, waits⟩ := every t _ _ _ 1 reached split rfl (by decide +kernel)
  have active : (t.stream? 1).any (·.isActive) := by decide +kernel
  have two : (t.stream? 1).any fun stream => (Chunk.join stream.pending).length ≤ 2 := by decide +kernel
  rw [found] at active two
  obtain ⟨-, ⟨spent, some, -⟩, grants, -⟩ := waits active
  obtain ⟨stream', frames, granted, inactive⟩ := grants 2 (by decide)
  exact ⟨by decide +kernel, by decide +kernel, by decide +kernel, stream, found, active, spent, some, stream', frames,
    granted, inactive (of_decide_eq_true two)⟩

/-- A session whose peer is gone before the handler of its request has replied. -/
def deserted : Session :=
  start .spdy3 {} { others := [.yield, .yield, .yield, .act (.headers [] true)] } .atOnce
    { arrivals := [{ bytes := (Frame.headers 1 [] true none 0).encode 1 }], patience := 1 }

/-- The handler breaks down, on a thread of its own, when the outbox has been closed and its stream is yet to be aborted.
    The stream that goes on is over then, and nothing is put into the outbox. -/
theorem concluded_streams_unheard :
    ∃ m n, Slices { session := deserted } m ∧ (m.session.stream? 1).any (·.isActive) ∧ Slices m n ∧
      (n.session.stream? 1).any (!·.isActive) ∧ n.session.journal = m.session.journal ++ [.failed 1] := by
  have served : Slices { session := deserted } { session := deserted.serve } :=
    slices_of_reaches (reaches_serve rfl).1 (by decide +kernel)
  exact reached_of_plays? served [.drain, .close] [.fail 1, .finish 1] (by decide +kernel)

end Session

end Multiplex
