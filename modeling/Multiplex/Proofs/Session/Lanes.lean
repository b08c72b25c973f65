import Multiplex.Proofs.Session.LaneStep

/-! # Sessions, lane by lane

A session keeps what its lanes rely on (`Stable`), and each of its steps is a chain of steps on each lane.
So every lane of every session is the end of a chain of steps from an empty lane (`steps_start`). -/

namespace Multiplex

open Relation (ReflTransGen)

/-- The lane of a stream before anything has happened. -/
def Lane.empty (id : Nat) : Lane where
  stream := none
  listed := false
  fresh := id != 0
  past := []
  waiting := []
  closed := false
  window := none
  leaving := false

/-- A step leaves a fresh identifier blank. -/
theorem Lane.Step.blank {version : Version} {config : Config} {id : Nat} {l l' : Lane}
    (h : Lane.Step version config id l l') (blank : l.fresh → l.Blank) : l'.fresh → l'.Blank := by
  -- A step that needs a stream cannot be taken on a blank lane.
  have used {stream : Stream} (found : l.stream = some stream) (fresh : l.fresh) : l'.Blank := by
    rw [(blank fresh).stream] at found
    cases found
  intro fresh
  cases h with
  | noted about quiet =>
    have old := blank fresh
    refine ⟨old.stream, old.window, old.waiting, fun e member => ?_⟩
    rcases List.mem_append.mp member with before | last
    · exact old.past e before
    · exact List.mem_singleton.mp last ▸ quiet
  | outdated => cases fresh
  | left => exact ⟨(blank fresh).stream, (blank fresh).window, (blank fresh).waiting, (blank fresh).past⟩
  | announced zero spent =>
    rw [queue_rest] at fresh
    exact absurd fresh (Bool.eq_false_iff.mp spent)
  | opened => cases fresh
  | refused =>
    rw [queue_rest] at fresh
    cases fresh
  | promised found =>
    rw [queue_rest] at fresh
    exact used found fresh
  | trailed found | received found | hungUp found => exact used found fresh
  | granted found | reset found => exact used found (by simpa [Lane.note] using fresh)
  | read found | readAll found | sentHeaders found | sentData found =>
    exact used found (by simpa [Lane.note] using fresh)
  | cancelled =>
    have old := blank fresh
    refine ⟨by simp [old.stream], old.window, old.waiting, fun e member => ?_⟩
    rcases List.mem_append.mp member with before | last
    · exact old.past e before
    · exact List.mem_singleton.mp last ▸ rfl
  | taken next =>
    rw [(blank fresh).waiting] at next
    cases next
  | pruned => exact ⟨(blank fresh).stream, (blank fresh).window, (blank fresh).waiting, (blank fresh).past⟩
  | closed => exact ⟨by simp [(blank fresh).stream], (blank fresh).window, rfl, (blank fresh).past⟩

theorem Lane.Steps.blank {version : Version} {config : Config} {id : Nat} {l l' : Lane}
    (h : Lane.Steps version config id l l') (blank : l.fresh → l.Blank) : l'.fresh → l'.Blank :=
  h.keeps blank fun _ last => last.blank

namespace Session

/-! ### What is written -/

/-- Writing touches the transport and may end the session. -/
structure Sent (s t : Session) : Prop where
  rest : t = { s with transport := t.transport, status := t.status, journal := t.journal }
  limits : limitsAfter t.version t.journal = limitsAfter s.version s.journal
  lane : ∀ id, t.lane id = s.lane id

section Sent
variable {s t u : Session}

theorem Sent.refl (s : Session) : Sent s s := ⟨rfl, rfl, fun _ => rfl⟩

theorem Sent.trans (first : Sent s t) (second : Sent t u) : Sent s u where
  rest := by rw [second.rest, first.rest]
  limits := second.limits.trans first.limits
  lane id := (second.lane id).trans (first.lane id)

theorem Sent.version (sent : Sent s t) : t.version = s.version := by rw [sent.rest]

theorem Sent.config (sent : Sent s t) : t.config = s.config := by rw [sent.rest]

theorem Sent.reader (sent : Sent s t) : t.reader = s.reader := by rw [sent.rest]

theorem sent_write (s : Session) (bytes : Bytes) (reason : StopReason) : Sent s (s.write bytes reason) := by
  unfold write
  split
  · next transport _ =>
    exact ⟨rfl, limitsAfter_append .., fun id => lane_note_other (s := { s with transport }) nofun⟩
  · exact ⟨rfl, limitsAfter_append .., fun id => lane_note_other (s := s) nofun⟩

theorem sent_writeAll (frames : List Bytes) (s : Session) : Sent s (writeAll frames s) := by
  induction frames generalizing s with
  | nil => exact .refl s
  | cons bytes rest ih =>
    unfold writeAll
    dsimp only
    split
    · exact (sent_write ..).trans (ih _)
    · exact sent_write ..

theorem outbox_writeAll (frames : List Bytes) (s : Session) : (writeAll frames s).outbox = s.outbox := by
  rw [(sent_writeAll frames s).rest]

theorem outbox_writeOutgoing (s : Session) (f : Outgoing) : (s.writeOutgoing f).outbox = s.outbox :=
  outbox_writeAll ..

end Sent

/-! ### Stability -/

section Stable
variable {s t : Session}

theorem Kept.stable (kept : Kept s t) (stable : s.Stable) : t.Stable where
  pushes := by
    obtain ⟨count, same⟩ := kept.pushes
    have := stable.pushes
    omega
  halted := by
    rw [kept.stopped, kept.closed]
    exact stable.halted
  closed := by
    rw [kept.closed, kept.status]
    exact stable.closed
  limits := by
    rw [kept.peer, kept.limitsAfter]
    exact stable.limits
  copies := by
    rw [kept.copies, kept.peer]
    exact stable.copies
  reader := kept.reader ▸ stable.reader

theorem Sent.stable (sent : Sent s t) (stable : s.Stable) (going : s.outbox.closed = false) : t.Stable where
  pushes := by
    have same : t.nextPush = s.nextPush := by rw [sent.rest]
    exact same ▸ stable.pushes
  halted stopped := by
    have executor : t.executor = s.executor := by rw [sent.rest]
    have outbox : t.outbox = s.outbox := by rw [sent.rest]
    rw [outbox]
    exact stable.halted (executor ▸ stopped)
  closed closed := by
    have outbox : t.outbox = s.outbox := by rw [sent.rest]
    rw [outbox, going] at closed
    cases closed
  limits := by
    have peer : t.peer = s.peer := by rw [sent.rest]
    rw [peer, sent.limits]
    exact stable.limits
  copies := by
    rw [sent.rest]
    exact stable.copies
  reader := by
    have reader : t.reader = s.reader := by rw [sent.rest]
    rw [reader]
    exact stable.reader

theorem Stable.unclosed (stable : s.Stable) (going : ∀ reason, s.status ≠ .stopped reason) :
    s.outbox.closed = false := by
  refine Bool.eq_false_iff.mpr fun closed => ?_
  obtain ⟨reason, stopped⟩ := stable.closed closed
  exact going reason stopped

theorem Stable.running (stable : s.Stable) (running : s.status = .running) :
    s.outbox.closed = false ∧ s.executor.stopped = false := by
  have hopen := stable.unclosed (by simp [running])
  exact ⟨hopen, stable.idle hopen⟩

theorem peer_sendGoAway (s : Session) (code : ErrorCode) : (s.sendGoAway code).peer = s.peer := by
  unfold sendGoAway
  split
  · rfl
  · exact (Kept.queue ..).peer

theorem Effect.peer {decoded : Except Hpack.Fault (List Header)} {frame : Frame} (h : Effect s decoded frame t)
    (plain : ∀ params, frame ≠ .settings false params) :
    t.peer = s.peer := by
  cases h with
  | passed | left | crashed | trailed | received | hungUp => rfl
  | breach => exact peer_sendGoAway s _
  | adopted => exact absurd rfl (plain _)
  | answered | turnedAway => exact (Kept.queue ..).peer
  | opened => exact ((Kept.addStream ..).trans (.addTask _)).peer
  | granted => exact ((Kept.note rfl).trans (.update ..)).peer
  | offended => exact (Kept.reset ..).peer

theorem copies_sendGoAway (s : Session) (code : ErrorCode) : (s.sendGoAway code).copies = s.copies := by
  unfold sendGoAway
  split
  · rfl
  · exact (Kept.queue ..).copies

/-- New streams and handlers see the limits that the session goes by. -/
theorem Effect.copies {decoded : Except Hpack.Fault (List Header)} {frame : Frame} (h : Effect s decoded frame t)
    (agreed : s.copies = s.peer) : t.copies = t.peer := by
  have kept {u : Session} (kept : Kept u t) (agreed : u.copies = u.peer) : t.copies = t.peer := by
    rw [kept.copies, kept.peer, agreed]
  cases h with
  | passed | left | crashed | trailed | received | hungUp => exact agreed
  | breach => rw [protocolError, copies_sendGoAway, peer_sendGoAway, agreed]
  | answered => exact kept (.queue ..) agreed
  | turnedAway => exact kept (.queue ..) agreed
  | adopted => exact kept (.queue ..) rfl
  | opened => exact kept ((Kept.addStream ..).trans (.addTask _)) agreed
  | granted => exact kept ((Kept.note rfl).trans (.update ..)) agreed
  | offended => exact kept (Kept.reset ..) agreed

theorem limits_note (s : Session) (e : Event) :
    limitsAfter (s.note e).version (s.note e).journal = e.adjust s.version (limitsAfter s.version s.journal) :=
  limitsAfter_append ..

theorem peer_onSettings (s : Session) (params : List Setting) :
    (s.onSettings params).peer = (Event.dispatched (.settings false params)).adjust s.version s.peer := by
  simp only [onSettings, Event.adjust]
  cases allowed : s.peer.applyAll s.version params with
  | ok peer => exact (Kept.queue ..).peer
  | error => exact peer_sendGoAway s _

theorem adjust_plain {frame : Frame} (plain : ∀ params, frame ≠ .settings false params) (version : Version)
    (limits : PeerSettings) : (Event.dispatched frame).adjust version limits = limits := by
  cases frame with
  | settings ack params =>
    cases ack with
    | false => exact absurd rfl (plain params)
    | true => rfl
  | _ => rfl

theorem peer_dispatch (s : Session) (frame : Frame) :
    (dispatch addTask s frame).peer = (Event.dispatched frame).adjust s.version s.peer := by
  by_cases plain : ∀ params, frame ≠ .settings false params
  · rw [adjust_plain plain]
    exact (effect_dispatch s frame).peer plain
  · obtain ⟨params, rfl⟩ : ∃ params, frame = .settings false params := by simpa using plain
    exact peer_onSettings (s.note _) params

theorem of_pop? {o outbox : Outbox} {f : Outgoing} (taken : o.pop? = some (f, outbox)) :
    ∃ rank, o.queue.entries = (rank, f) :: outbox.queue.entries ∧ outbox.closed = o.closed := by
  obtain ⟨⟨item, rest⟩, popped, same⟩ := Option.map_eq_some_iff.mp taken
  cases same
  obtain ⟨rank, entries⟩ := Queue.entries_of_pop? popped
  exact ⟨rank, entries, rfl⟩

theorem Limited.stable (limited : Limited s t) (pushes : s.nextPush % 2 = 0 ∧ 0 < s.nextPush)
    (hopen : s.outbox.closed = false) (idle : s.executor.stopped = false) (reader : s.reader.Bounded)
    (limits : t.peer = limitsAfter s.version s.journal) (copies : t.copies = t.peer) : t.Stable :=
  Kept.stable limited ⟨pushes, fun stopped => absurd stopped (Bool.eq_false_iff.mp idle),
    fun closed => absurd closed (Bool.eq_false_iff.mp hopen), limits, copies, reader⟩

theorem Advance.stable (h : Advance s t) (stable : s.Stable) : t.Stable := by
  cases h with
  | moved h => exact h.kept.stable stable
  | began ready =>
    have going := stable.unclosed (by simp [ready])
    have begun : Stable { s with status := .running } :=
      ⟨stable.pushes, stable.halted, fun closed => absurd closed (Bool.eq_false_iff.mp going), stable.limits,
        stable.copies, stable.reader⟩
    exact (sent_write _ _ _).stable begun going
  | polled running =>
    exact ⟨stable.pushes, stable.halted, stable.closed, stable.limits.trans (limits_note s .polled).symm,
      stable.copies, stable.reader⟩
  | counted | arrived | pruned =>
    exact ⟨stable.pushes, stable.halted, stable.closed, stable.limits, stable.copies, stable.reader⟩
  | @read running wait status reader fed =>
    have limits := limits_note { s with reader } (.read wait status reader.decoder.failure)
    refine ⟨stable.pushes, stable.halted, stable.closed, stable.limits.trans limits.symm, stable.copies, ?_⟩
    rcases fed with rfl | ⟨bytes, rfl⟩
    · exact stable.reader
    · exact stable.reader.feed bytes
  -- The settings may change here, and only as the dispatched frame says.
  | @dispatched running frame reader next =>
    obtain ⟨hopen, idle⟩ := stable.running running
    have limits := limits_note { s with reader } (.dispatched frame)
    refine (effect_dispatch { s with reader } frame).limited.stable stable.pushes hopen idle
      (stable.reader.next next).2 ?_ ((effect_dispatch { s with reader } frame).copies stable.copies)
    rw [peer_dispatch, stable.limits]
    exact limits.symm
  | wentAway running code =>
    obtain ⟨hopen, idle⟩ := stable.running running
    exact (limited_sendGoAway s code).stable stable.pushes hopen idle stable.reader
      ((peer_sendGoAway s code).trans stable.limits)
      (by rw [copies_sendGoAway, peer_sendGoAway, stable.copies])
  | @wrote running f outbox next =>
    obtain ⟨hopen, idle⟩ := stable.running running
    obtain ⟨-, -, closed⟩ := of_pop? next
    let table := (f.wire s.peer.maxFrame s.sendTable).1
    have limits := limits_note { s with outbox, sendTable := table } (.taken f)
    have taken : (note { s with outbox, sendTable := table } (.taken f)).Stable :=
      ⟨stable.pushes, fun stopped => closed ▸ stable.halted stopped, fun shut => stable.closed (closed ▸ shut),
        stable.limits.trans limits.symm, stable.copies, stable.reader⟩
    exact (sent_writeAll _ _).stable taken (closed.trans hopen)
  | gone running | finished running =>
    exact ⟨stable.pushes, stable.halted, fun _ => ⟨_, rfl⟩, stable.limits, stable.copies, stable.reader⟩
  | closed stopped =>
    exact ⟨stable.pushes, fun _ => rfl, fun _ => ⟨_, stopped⟩, stable.limits, stable.copies, stable.reader⟩
  | halted closed =>
    have halted : Stable { s with executor := s.executor.stop.1 } :=
      ⟨stable.pushes, fun _ => closed, stable.closed, stable.limits, stable.copies, stable.reader⟩
    exact (Kept.foldl_cancel _ _).stable halted

end Stable

/-! ### Lanes -/

section Lanes
variable {s t : Session} {version : Version} {config : Config}

theorem steps_prune (id : Nat) : Lane.Steps version config id (s.lane id) (s.prune.lane id) := by
  have less : s.prune.listed.contains id → s.listed.contains id := by
    simp only [prune, listedStreams, List.contains_iff_mem, List.mem_map, List.mem_filter]
    rintro ⟨stream, ⟨⟨-, listed⟩, -⟩, rfl⟩
    exact listed
  -- Only streams that have stopped are dropped from the list.
  have inactive (listed : s.listed.contains id) (dropped : s.prune.listed.contains id = false) (stream : Stream)
      (found : s.stream? id = some stream) : stream.isActive = false := by
    refine Bool.eq_false_iff.mpr fun active => Bool.eq_false_iff.mp dropped ?_
    have own := id_of_stream? found
    simp only [prune, listedStreams, List.contains_iff_mem, List.mem_map, List.mem_filter]
    exact ⟨stream, ⟨⟨List.mem_of_find?_eq_some found, by simpa [own] using listed⟩, active⟩, own⟩
  have same (listed : Bool) (found : s.prune.listed.contains id = listed) :
      s.prune.lane id = { s.lane id with listed } := Lane.ext rfl found rfl rfl rfl rfl rfl rfl
  by_cases listed : s.listed.contains id
  · by_cases kept : s.prune.listed.contains id
    · rw [same true kept, show ({ s.lane id with listed := true } : Lane) = s.lane id from
        Lane.ext rfl listed.symm rfl rfl rfl rfl rfl rfl]
      exact .refl
    · rw [same false (Bool.eq_false_iff.mpr kept)]
      exact .single (.pruned (inactive listed (Bool.eq_false_iff.mpr kept)))
  · have dropped := Bool.eq_false_iff.mpr (mt less listed)
    rw [same false dropped, show ({ s.lane id with listed := false } : Lane) = s.lane id from
      Lane.ext rfl (Bool.eq_false_iff.mpr listed).symm rfl rfl rfl rfl rfl rfl]
    exact .refl

theorem stream?_abortListed (s : Session) (id : Nat) :
    s.abortListed.stream? id =
      if s.listed.contains id then (s.stream? id).map Stream.abort else s.stream? id := by
  unfold abortListed stream?
  dsimp only
  induction s.streams with
  | nil => simp
  | cons first rest ih =>
    have kept : (if s.listed.contains first.id then first.abort else first).id = first.id := by
      split
      · exact (Stream.acts_abort first).id
      · rfl
    rw [List.map_cons, List.find?_cons, List.find?_cons, kept]
    by_cases same : first.id = id
    · subst same
      simp only [BEq.rfl]
      split <;> rfl
    · simp only [beq_eq_false_iff_ne.mpr same]
      exact ih

theorem steps_closed (id : Nat) : Lane.Steps version config id (s.lane id)
    (({ s with outbox := s.outbox.close } : Session).abortListed.lane id) := by
  refine .single ?_
  have stream := stream?_abortListed { s with outbox := s.outbox.close } id
  rw [show ({ s with outbox := s.outbox.close } : Session).abortListed.lane id =
    { s.lane id with
      stream := if (s.lane id).listed then (s.lane id).stream.map Stream.abort else (s.lane id).stream,
      listed := false, waiting := [], closed := true } from
    Lane.ext stream (by simp [abortListed, lane]) rfl rfl rfl rfl rfl rfl]
  exact .closed

theorem steps_cancel (closed : s.outbox.closed) (i id : Nat) :
    Lane.Steps version config id (s.lane id) ((s.cancel i).lane id) := by
  unfold cancel
  dsimp only
  -- The lane is that of the cancelled task, or nothing of it changes.
  by_cases same : i = id
  · subst same
    have step : Lane.Step version config i (s.lane i)
      { (s.lane i).note (.cancelled i) with stream := (s.lane i).stream.map Stream.abort } := .cancelled closed
    split
    · next stream found =>
      have own : stream.abort.id = i := (Stream.acts_abort stream).id.trans (id_of_stream? found)
      rw [show (s.lane i).stream = some stream from found] at step
      have present : ((s.note (.cancelled i)).stream? stream.abort.id).isSome := by
        rw [own]
        exact Option.isSome_of_eq_some found
      have set := lane_setStream present
      rw [own, lane_note rfl rfl] at set
      rw [set]
      exact .single step
    · next found =>
      rw [show (s.lane i).stream = none from found] at step
      rw [lane_note rfl rfl, show (s.lane i).note (.cancelled i) =
        { (s.lane i).note (.cancelled i) with stream := none } from Lane.ext found rfl rfl rfl rfl rfl rfl rfl]
      exact .single step
  · split
    · next stream found =>
      have own : stream.abort.id = i := (Stream.acts_abort stream).id.trans (id_of_stream? found)
      rw [lane_setStream_other (own ▸ same), lane_note_other (by simp [Event.about, same])]
      exact .refl
    · rw [lane_note_other (by simp [Event.about, same])]
      exact .refl

theorem steps_foldl_cancel (ids : List Nat) (closed : s.outbox.closed) (id : Nat) :
    Lane.Steps version config id (s.lane id) ((ids.foldl cancel s).lane id) := by
  induction ids generalizing s with
  | nil => exact .refl
  | cons i rest ih =>
    exact (steps_cancel closed i id).trans (ih ((Kept.cancel i).closed.trans closed))

theorem steps_taken {f : Outgoing} {outbox : Outbox} (next : s.outbox.pop? = some (f, outbox))
    (table : Hpack.Table) (id : Nat) :
    Lane.Steps version config id (s.lane id)
      ((note { s with outbox, sendTable := table } (.taken f)).lane id) := by
  obtain ⟨rank, front, closed⟩ := of_pop? next
  have rest (w : List (Nat × Outgoing)) (kept : outbox.queue.entries.filter (·.2.stream == id) = w) :
      ({ s with outbox, sendTable := table } : Session).lane id = { s.lane id with waiting := w } :=
    Lane.ext rfl rfl rfl rfl kept closed rfl rfl
  by_cases same : f.stream = id
  · have waiting : (s.lane id).waiting = (rank, f) :: outbox.queue.entries.filter (·.2.stream == id) := by
      simp [lane, front, same]
    rw [lane_note (by simp [Event.about, same]) rfl, rest _ rfl]
    exact .single (.taken waiting)
  · have waiting : outbox.queue.entries.filter (·.2.stream == id) = (s.lane id).waiting := by
      simp [lane, front, same]
    rw [lane_note_other (by simp [Event.about, same]), rest _ waiting]
    exact .refl

/-- A step of a session is a chain of steps on each lane. -/
theorem Advance.lanes (h : Advance s t) (stable : s.Stable) (fresh : s.Fresh) (id : Nat) :
    Lane.Steps s.version s.config id (s.lane id) (t.lane id) := by
  cases h with
  | moved h => exact h.lanes stable fresh id
  | began =>
    rw [(sent_write _ _ _).lane]
    exact .refl
  | polled =>
    rw [lane_note_other (by simp [Event.about])]
    exact .refl
  | counted | arrived | gone | finished => exact .refl
  | @read running wait status reader fed =>
    rw [lane_note_other (by simp [Event.about])]
    exact .refl
  -- The frame is noted on its own lane first, and what it does follows from there.
  | @dispatched running frame reader next =>
    obtain ⟨hopen, idle⟩ := stable.running running
    let u : Session := { s with reader }
    have noted : Lane.Steps s.version s.config id (s.lane id) ((u.note (.dispatched frame)).lane id) :=
      steps_noted (s := u) rfl rfl rfl id
    have limits (plain : ∀ params, frame ≠ .settings false params) :
        u.peer = limitsAfter (u.note (.dispatched frame)).version (u.note (.dispatched frame)).journal := by
      rw [limits_note, adjust_plain plain]
      exact stable.limits
    refine noted.trans ((effect_dispatch u frame).lanes stable.pushes.2 ?_ hopen idle
      (stable.reader.next next).1 limits stable.copies ?_ id)
    · intro i unused
      have step : Lane.Steps s.version s.config i (s.lane i) ((u.note (.dispatched frame)).lane i) :=
        steps_noted (s := u) rfl rfl rfl i
      exact step.blank (fresh i) unused
    · simp [lane, tableAfter, note, Event.about]
  | wentAway => exact steps_sendGoAway stable.pushes.2 _ id
  | pruned => exact steps_prune id
  | @wrote running f outbox next =>
    let table := (f.wire s.peer.maxFrame s.sendTable).1
    have sent := sent_writeAll (f.wire s.peer.maxFrame s.sendTable).2
      (note { s with outbox, sendTable := table } (.taken f))
    exact sent.lane id ▸ steps_taken next table id
  | closed => exact steps_closed id
  | halted closed => exact steps_foldl_cancel (s := { s with executor := s.executor.stop.1 }) _ closed id

theorem Advance.settled (h : Advance s t) : t.version = s.version ∧ t.config = s.config := by
  cases h with
  | moved h => exact ⟨h.kept.version, h.kept.config⟩
  | began => exact ⟨(sent_write _ _ _).version.trans rfl, (sent_write _ _ _).config.trans rfl⟩
  | @dispatched running frame reader next =>
    have limited := (effect_dispatch { s with reader } frame).limited
    exact ⟨(Kept.version limited).trans rfl, (Kept.config limited).trans rfl⟩
  | wentAway running code =>
    exact ⟨(Kept.version (limited_sendGoAway s code)).trans rfl, (Kept.config (limited_sendGoAway s code)).trans rfl⟩
  | @wrote running f outbox next =>
    let table := (f.wire s.peer.maxFrame s.sendTable).1
    have sent := sent_writeAll (f.wire s.peer.maxFrame s.sendTable).2
      (note { s with outbox, sendTable := table } (.taken f))
    exact ⟨sent.version.trans rfl, sent.config.trans rfl⟩
  | halted => exact ⟨(Kept.foldl_cancel _ _).version, (Kept.foldl_cancel _ _).config⟩
  | _ => exact ⟨rfl, rfl⟩

/-- What a chain of steps keeps, and what it is on each lane. -/
structure Followed (s t : Session) : Prop where
  stable : t.Stable
  fresh : t.Fresh
  version : t.version = s.version
  config : t.config = s.config
  lanes : ∀ id, Lane.Steps s.version s.config id (s.lane id) (t.lane id)

/-- A chain of steps of a session is a chain of steps on each lane. -/
theorem Reaches.lanes (h : Reaches s t) (stable : s.Stable) (fresh : s.Fresh) : Followed s t := by
  induction h with
  | refl => exact ⟨stable, fresh, rfl, rfl, fun _ => .refl⟩
  | tail _ last ih =>
    have lanes := last.lanes ih.stable ih.fresh
    obtain ⟨version, config⟩ := last.settled
    refine ⟨last.stable ih.stable, fun id unused => (lanes id).blank (ih.fresh id) unused,
      version.trans ih.version, config.trans ih.config, fun id => (ih.lanes id).trans ?_⟩
    rw [← ih.version, ← ih.config]
    exact lanes id

end Lanes

/-! ### Sessions that have not begun -/

section Start
variable (version : Version) (config : Config) (handlers : Handlers) (schedule : Schedule)
  (transport : Transport)

theorem stable_start : (start version config handlers schedule transport).Stable where
  pushes := ⟨show 2 % 2 = 0 from rfl, show 0 < 2 by decide⟩
  halted := nofun
  closed := nofun
  limits := rfl
  copies := rfl
  reader := ⟨nofun, nofun⟩

theorem isFresh_start (id : Nat) : (start version config handlers schedule transport).isFresh id = (id != 0) := by
  have fresh : (start version config handlers schedule transport).isFresh id = true ↔ (id != 0) = true := by
    unfold isFresh
    split
    · rw [decide_eq_true_iff, bne_iff_ne]
      change 2 ≤ id ↔ id ≠ 0
      omega
    · rw [decide_eq_true_iff, bne_iff_ne]
      exact Nat.pos_iff_ne_zero
  exact Bool.eq_iff_iff.mpr fresh

theorem lane_start (id : Nat) :
    (start version config handlers schedule transport).lane id = Lane.empty id :=
  Lane.ext rfl rfl (isFresh_start version config handlers schedule transport id) rfl rfl rfl rfl rfl

theorem fresh_start : (start version config handlers schedule transport).Fresh := by
  intro id _
  rw [lane_start]
  exact ⟨rfl, rfl, rfl, nofun⟩

end Start

section Reached
variable {version : Version} {config : Config} {handlers : Handlers} {schedule : Schedule} {transport : Transport}
  {t : Session} (h : Reaches (start version config handlers schedule transport) t)
include h

theorem followed_start : Followed (start version config handlers schedule transport) t :=
  h.lanes (stable_start ..) (fresh_start version config handlers schedule transport)

/-- The lanes of whatever a new session reaches are the ends of chains of steps from empty lanes. -/
theorem steps_start (id : Nat) : Lane.Steps version config id (Lane.empty id) (t.lane id) :=
  lane_start version config handlers schedule transport id ▸ (followed_start h).lanes id

end Reached

end Session

end Multiplex
