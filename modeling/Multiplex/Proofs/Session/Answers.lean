import Multiplex.Proofs.Session.Settings

/-! # Answers to PING and SETTINGS

A PING frame of the peer calls for an answer, and so do its SETTINGS, if each of their parameters is acceptable; nothing
else does. The session puts each answer into the outbox at once (`balanced_start`), and as a frame of the connection it
goes out before the frames of all streams. So whenever the outbox holds no frame of the connection, what was written
answers all that was called for, in order (`answers_complete`). -/

namespace Multiplex

open Multiplex.Frame (Kind)

/-! ### Answers -/

/-- The answer that a frame is, if it is one. -/
def Outgoing.answer? : Outgoing → Option Frame
  | .frame (.ping true payload) => some (.ping true payload)
  | .frame (.settings true params) => some (.settings true params)
  | _ => none

/-- The answer that an event calls for. The answers of the peer call for none, nor do SETTINGS that are refused. -/
def Event.due? (version : Version) : Event → Option Frame
  | .dispatched (.ping false payload) => some (.ping true payload)
  | .dispatched (.settings false params) =>
    if ∀ p ∈ params, p.Acceptable version then some (.settings true []) else none
  | _ => none

/-- The answers that a journal calls for, in order. -/
def answersDue (version : Version) (journal : List Event) : List Frame := journal.filterMap (Event.due? version)

/-- Whether a wire frame is an answer. -/
def Frame.isAnswer (wire : Bytes) : Bool :=
  (WireHeader.parse? wire).any fun h => (h.kind == Kind.ping.code || h.kind == Kind.settings.code) && h.isAck

/-- The answers that were written, in order. -/
def answersWritten (journal : List Event) : List Bytes := (journal.filterMap Event.wrote?).filter Frame.isAnswer

/-- Whether an event neither takes in a frame of the peer nor puts an answer into the outbox. -/
def Event.isPassive : Event → Bool
  | .dispatched _ => false
  | .queued f => f.answer?.isNone
  | _ => true

/-- Whether an event, if it writes a HEADERS, DATA or RST_STREAM frame, comes behind all answers that were called for. -/
def Event.Prompt (version : Version) (journal : List Event) (e : Event) : Prop :=
  ∀ bytes header, e = .wrote bytes → WireHeader.parse? bytes = some header →
    header.kind ∈ [Kind.headers.code, Kind.data.code, Kind.reset.code] →
      answersWritten journal = (answersDue version journal).map (·.encode 0)

theorem Event.of_isPassive {version : Version} {e : Event} (passive : e.isPassive) :
    e.queued?.bind Outgoing.answer? = none ∧ e.due? version = none := by
  cases e with
  | dispatched => cases passive
  | queued f => exact ⟨Option.isNone_iff_eq_none.mp passive, rfl⟩
  | _ => exact ⟨rfl, rfl⟩

/-- An answer that is due is an answer. -/
theorem Event.answer?_of_due? {version : Version} {e : Event} {answer : Frame} (due : e.due? version = some answer) :
    (Outgoing.frame answer).answer? = some answer := by
  unfold due? at due
  split at due
  · cases due
    rfl
  · split at due
    · cases due
      rfl
    · cases due
  · cases due

namespace Outgoing
variable {f : Outgoing}

theorem answer?_of_isSpoken (spoken : f.isSpoken) : f.answer? = none := by
  cases f with
  | frame frame => cases frame <;> first | rfl | cases spoken
  | headers | pushPromise => rfl

theorem answer?_of_not_isConnectionLevel (level : f.isConnectionLevel = false) : f.answer? = none := by
  cases f with
  | frame frame => cases frame <;> first | rfl | cases level
  | headers | pushPromise => rfl

theorem kind_of_isConnectionLevel (level : f.isConnectionLevel) :
    f.kind.code ∉ [Kind.headers.code, Kind.data.code, Kind.reset.code] := by
  cases f with
  | frame frame => cases frame <;> simp_all [isConnectionLevel, kind, Kind.code]
  | headers => cases level
  | pushPromise => simp [kind, Kind.code]

/-- Answers are frames of the connection. -/
theorem filterMap_answer? (frames : List Outgoing) :
    frames.filterMap answer? = (frames.filter (·.isConnectionLevel)).filterMap answer? := by
  induction frames with
  | nil => rfl
  | cons f rest ih =>
    cases level : f.isConnectionLevel with
    | true => rw [List.filter_cons_of_pos level, List.filterMap_cons, List.filterMap_cons, ih]
    | false =>
      rw [List.filter_cons_of_neg (by simp [level]),
        List.filterMap_cons_none (answer?_of_not_isConnectionLevel level), ih]

/-! ### Answers on the wire -/

theorem isAnswer_wireFrame (kind : Kind) (flags : UInt8) (payload : Bytes) :
    Frame.isAnswer (Frame.wireFrame kind flags 0 payload) =
      ((kind.code == Kind.ping.code || kind.code == Kind.settings.code) && Flag.isSet Flag.ack flags) := by
  obtain ⟨length, seen⟩ := Frame.seen?_wireFrame kind flags (show 0 < 2 ^ 31 by decide) payload
  obtain ⟨h, parsed, same⟩ := Option.map_eq_some_iff.mp seen
  obtain ⟨rfl, -⟩ := Prod.mk.inj same
  rw [Frame.isAnswer, parsed]
  rfl

/-- The kind of a wire frame, unless it goes on with a header block. -/
theorem kind_of_mem_wire {limit : Nat} {table : Hpack.Table} (plain : f.isPlain) (small : f.stream < Frame.idBound)
    {wire : Bytes} (member : wire ∈ (f.wire limit table).2) {h : WireHeader} (parsed : WireHeader.parse? wire = some h) :
    h.kind = f.kind.code ∨ h.kind = Kind.continuation.code := by
  obtain ⟨first, rest, frames, seen⟩ := seen_wire limit table plain small
  have here : (h, wire.drop WireHeader.size) ∈ (f.wire limit table).2.filterMap Frame.seen? :=
    List.mem_filterMap.mpr ⟨wire, member, by rw [Frame.seen?, parsed]; rfl⟩
  rw [frames] at here
  rcases List.mem_cons.mp here with rfl | later
  · exact .inl seen.kind
  · exact .inr (seen.later _ later).1

/-- Just the wire frame of an answer is one. -/
theorem answers_wire (limit : Nat) (table : Hpack.Table) (plain : f.isPlain) (small : f.stream < Frame.idBound) :
    (f.wire limit table).2.filter Frame.isAnswer = f.answer?.toList.map (·.encode 0) := by
  have other (unlike : f.kind ≠ Kind.ping ∧ f.kind ≠ Kind.settings) :
      (f.wire limit table).2.filter Frame.isAnswer = [] := by
    refine List.filter_eq_nil_iff.mpr fun wire member answer => ?_
    obtain ⟨h, parsed, marked⟩ := (Option.any_eq_true _ _).mp answer
    have kind : h.kind = Kind.ping.code ∨ h.kind = Kind.settings.code := by
      simpa using (Bool.and_eq_true_iff.mp marked).1
    -- A wire frame has the kind of its frame or is a CONTINUATION, and neither answers.
    rcases kind_of_mem_wire plain small member parsed with same | continues
    · rw [same] at kind
      exact kind.elim (unlike.1 <| Kind.eq_of_code ·) (unlike.2 <| Kind.eq_of_code ·)
    · rw [continues] at kind
      exact absurd kind (by decide)
  have single {kind : Kind} {flags : UInt8} {payload : Bytes}
      (wire : (f.wire limit table).2 = [Frame.wireFrame kind flags 0 payload]) :
      (f.wire limit table).2.filter Frame.isAnswer =
        if (kind.code == Kind.ping.code || kind.code == Kind.settings.code) && Flag.isSet Flag.ack flags then
          [Frame.wireFrame kind flags 0 payload] else [] := by
    rw [wire, List.filter_singleton, isAnswer_wireFrame]
    exact Bool.cond_eq_ite ..
  cases f with
  | frame frame =>
    cases frame with
    | ping ack payload =>
      cases ack with
      | true => exact (single rfl).trans ((if_pos (by decide)).trans (by simp [answer?, Frame.encode, Frame.wire]))
      | false => exact (single rfl).trans (if_neg (by decide))
    | settings ack params =>
      cases ack with
      | true => exact (single rfl).trans ((if_pos (by decide)).trans (by simp [answer?, Frame.encode, Frame.wire]))
      | false => exact (single rfl).trans (if_neg (by decide))
    | headers | pushPromise => cases plain
    | _ => exact other (by constructor <;> intro same <;> cases same)
  | headers | pushPromise => exact other (by constructor <;> intro same <;> cases same)

theorem answers_sent {sent : List (Outgoing × List Bytes)}
    (each : ∀ e ∈ sent, e.2.filter Frame.isAnswer = e.1.answer?.toList.map (·.encode 0)) :
    (sent.flatMap (·.2)).filter Frame.isAnswer = ((sent.map (·.1)).filterMap answer?).map (·.encode 0) := by
  induction sent with
  | nil => rfl
  | cons e others ih =>
    obtain ⟨first, rest⟩ := List.forall_mem_cons.mp each
    rw [List.flatMap_cons, List.filter_append, first, ih rest, List.map_cons, List.filterMap_cons]
    cases e.1.answer? <;> rfl

end Outgoing

namespace Session

variable {s t u : Session}

/-! ### Passive changes -/

/-- A change in which no frame of the peer is taken in and no answer is put into the outbox. -/
def Passive (s t : Session) : Prop := ∃ events, t.journal = s.journal ++ events ∧ ∀ e ∈ events, e.isPassive

namespace Passive

theorem of_journal (same : t.journal = s.journal) : Passive s t := ⟨[], same.trans (List.append_nil _).symm, nofun⟩

theorem refl (s : Session) : Passive s s := of_journal rfl

theorem trans (first : Passive s t) (second : Passive t u) : Passive s u := by
  obtain ⟨early, split, passive⟩ := first
  obtain ⟨late, split', passive'⟩ := second
  refine ⟨early ++ late, by rw [split', split, List.append_assoc], fun e member => ?_⟩
  exact (List.mem_append.mp member).elim (passive e) (passive' e)

theorem note {e : Event} (passive : e.isPassive) : Passive s (s.note e) :=
  ⟨[e], rfl, List.forall_mem_singleton.mpr passive⟩

theorem queue {f : Outgoing} (other : f.answer? = none) (priority : Nat) : Passive s (s.queue f priority) := by
  unfold Session.queue
  split
  · exact refl s
  · exact note (s := { s with outbox := s.outbox.push f priority }) (by simp [Event.isPassive, other])

theorem queueAll {frames : List Outgoing} (other : ∀ f ∈ frames, f.answer? = none) (priority : Nat) :
    Passive s (s.queueAll frames priority) := by
  unfold Session.queueAll
  induction frames generalizing s with
  | nil => exact refl s
  | cons f rest ih =>
    obtain ⟨first, others⟩ := List.forall_mem_cons.mp other
    exact (queue first priority).trans (ih others)

theorem update (stream : Stream) {frames : List Outgoing} (other : ∀ f ∈ frames, f.answer? = none) :
    Passive s (s.update stream frames) :=
  Passive.trans (t := s.setStream stream) (of_journal rfl) (queueAll other stream.priority)

theorem reset (stream : Stream) (code : ErrorCode) : Passive s (s.reset stream code) := by
  have other : ∀ f ∈ (stream.reset code).2, f.answer? = none := by
    unfold Stream.reset
    split
    · exact List.forall_mem_singleton.mpr rfl
    · nofun
  exact update _ other

theorem cancel (id : Nat) : Passive s (s.cancel id) := by
  have noted : Passive s (s.note (.cancelled id)) := note rfl
  unfold Session.cancel
  dsimp only
  split
  · exact noted.trans (of_journal rfl)
  · exact noted

theorem foldl_cancel (ids : List Nat) (s : Session) : Passive s (ids.foldl Session.cancel s) := by
  induction ids generalizing s with
  | nil => exact refl s
  | cons id rest ih => exact (cancel id).trans (ih _)

theorem readPart (stream : Stream) : Passive s (s.readPart stream).1 :=
  update _ fun f member => by
    obtain ⟨increment, rfl⟩ := Stream.frames_read stream f member
    rfl

theorem addTask (id : Nat) : Passive s (addTask id s) := by
  unfold Session.addTask
  split
  · exact refl s
  · have opened (stream : Stream) : Passive s (s.note (.opened id stream.parent stream.priority stream.isPushed)) :=
      note rfl
    dsimp only
    split
    · exact (opened _).trans (cancel id)
    · exact (opened _).trans (of_journal rfl)

theorem addStream (stream : Stream) (list : List Header) (final : Bool) : Passive s (s.addStream stream list final) :=
  ⟨[.accepted stream.id (.headers list final)], rfl, List.forall_mem_singleton.mpr rfl⟩

theorem sendGoAway (code : ErrorCode) : Passive s (s.sendGoAway code) := by
  unfold Session.sendGoAway
  split
  · exact refl s
  · exact queue (s := { s with goAwaySent := true }) rfl 0

theorem write (bytes : Bytes) (reason : StopReason) : Passive s (s.write bytes reason) := by
  unfold Session.write
  split
  · exact ⟨[.wrote bytes], rfl, List.forall_mem_singleton.mpr rfl⟩
  · exact ⟨[.writeFailed], rfl, List.forall_mem_singleton.mpr rfl⟩

theorem writeAll (frames : List Bytes) (s : Session) : Passive s (writeAll frames s) := by
  induction frames generalizing s with
  | nil => exact refl s
  | cons bytes rest ih =>
    unfold Session.writeAll
    dsimp only
    split
    · exact (write ..).trans (ih _)
    · exact write ..

end Passive

theorem Move.passive (h : Move s t) : Passive s t := by
  -- A handler that ends resets its stream at most.
  have ended {e : Event} (passive : e.isPassive) (stream : Stream) (code : ErrorCode) :
      Passive s ((s.note e).reset stream code) :=
    (Passive.note passive).trans (.reset stream code)
  cases h with
  | started id => exact ⟨[_], rfl, List.forall_mem_singleton.mpr rfl⟩
  | acted index found plain =>
    refine Passive.trans ?_ (.note rfl)
    rcases perform_update plain with same | ⟨stream, frames, same, -, -, spoken⟩
    · rw [same]
      exact .refl s
    · rw [same]
      exact .update stream fun f member => Outgoing.answer?_of_isSpoken (spoken f member)
  | @promised id stream list priority =>
    have promised : Passive s ({ s with nextPush := s.nextPush + 2 }.queue (.pushPromise stream.id s.nextPush list)
        stream.priority) := .queue (s := { s with nextPush := s.nextPush + 2 }) rfl _
    exact (promised.trans (.addStream ..)).trans (.addTask _)
  | pushed | resumed => exact .note rfl
  | parked | unparked => exact .of_journal rfl
  | woken => exact (Passive.readPart _).trans (.note rfl)
  | returned id =>
    unfold Session.returned
    dsimp only
    split
    · split
      · exact .note rfl
      · exact ended rfl _ _
    · exact .note rfl
  | brokeDown id =>
    unfold Session.brokeDown
    dsimp only
    split
    · exact ended rfl _ _
    · exact .note rfl

/-- A step answers nothing unless it takes in a frame of the peer. -/
theorem Advance.passive (h : Advance s t) : Passive s t ∨ ∃ frame reader, s.status = .running ∧
    s.reader.next? = some (frame, reader) ∧ t = dispatch Session.addTask { s with reader } frame := by
  cases h with
  | moved h => exact .inl h.passive
  | @dispatched running frame reader next => exact .inr ⟨frame, reader, running, next, rfl⟩
  | began => exact .inl (.write (s := { s with status := .running }) _ _)
  | polled => exact .inl (.note rfl)
  | counted | arrived | pruned | gone | finished | closed => exact .inl (.of_journal rfl)
  | read => exact .inl ⟨[_], rfl, List.forall_mem_singleton.mpr rfl⟩
  | wentAway => exact .inl (.sendGoAway _)
  | @wrote running f outbox =>
    let table := (f.wire s.peer.maxFrame s.sendTable).1
    have taken : Passive s (Session.note { s with outbox, sendTable := table } (.taken f)) :=
      ⟨[.taken f], rfl, List.forall_mem_singleton.mpr rfl⟩
    exact .inl (taken.trans (.writeAll _ _))
  | halted => exact .inl (.foldl_cancel _ { s with executor := s.executor.stop.1 })

/-! ### Frames of the peer -/

/-- What frames do that are neither PING frames nor SETTINGS. -/
theorem Effect.passive {decoded : Except Hpack.Fault (List Header)} {frame : Frame} (h : Effect s decoded frame t)
    (plain : ∀ payload params, frame ≠ .ping false payload ∧ frame ≠ .settings false params) : Passive s t := by
  cases h with
  | passed => exact .refl s
  | breach => exact .sendGoAway _
  | answered payload => exact absurd rfl (plain payload []).1
  | @adopted params => exact absurd rfl (plain (.replicate 8 0) params).2
  | left | crashed | hungUp => exact .of_journal rfl
  | trailed | received => exact ⟨[_], rfl, List.forall_mem_singleton.mpr rfl⟩
  | @turnedAway id => exact .queue (s := { s with lastPeer := id }) rfl _
  | @opened id => exact Passive.trans (.addStream (s := { s with lastPeer := id }) _ _ _) (.addTask _)
  | granted found positive fits =>
    obtain ⟨-, active⟩ := of_active? found
    obtain ⟨-, released⟩ := Stream.of_grant (Stream.isActive_iff.mp active).2 fits
    obtain ⟨-, rfl⟩ := Prod.mk.inj released
    refine (Passive.note rfl).trans (.update _ fun f member => ?_)
    exact Outgoing.answer?_of_isSpoken (Outgoing.isSpoken_of_isData (Stream.isData_release _ f member))
  | offended => exact .reset _ _

/-- What may be noted behind a frame of the peer: just its answer, if it calls for one, and else what answers nothing. -/
def Reply (version : Version) (frame : Frame) (events : List Event) : Prop :=
  match (Event.dispatched frame).due? version with
  | some answer => events = [.queued (.frame answer)]
  | none => ∀ e ∈ events, e.isPassive

/-- A frame that calls for an answer is answered at once. -/
theorem reply_dispatch (hopen : s.outbox.closed = false) (frame : Frame) :
    ∃ events, (dispatch addTask s frame).journal = s.journal ++ .dispatched frame :: events ∧
      Reply s.version frame events := by
  -- A frame calls for an answer, which is queued last, or for none, and then only silent things happen.
  have answered {u : Session} {answer : Frame} (same : u.outbox = s.outbox)
      (journal : u.journal = s.journal ++ [.dispatched frame])
      (due : (Event.dispatched frame).due? s.version = some answer) :
      ∃ events, (u.queue (.frame answer) 0).journal = s.journal ++ .dispatched frame :: events ∧
        Reply s.version frame events := by
    refine ⟨[.queued (.frame answer)], ?_, by simp [Reply, due]⟩
    rw [queue_of_open (same ▸ hopen)]
    simp [journal]
  have passed {u t : Session} (journal : u.journal = s.journal ++ [.dispatched frame]) (passive : Passive u t)
      (uncalled : (Event.dispatched frame).due? s.version = none) :
      ∃ events, t.journal = s.journal ++ .dispatched frame :: events ∧ Reply s.version frame events := by
    obtain ⟨events, split, passive⟩ := passive
    exact ⟨events, by rw [split, journal, List.append_assoc]; rfl, by simpa [Reply, uncalled] using passive⟩
  have other (plain : ∀ payload params, frame ≠ .ping false payload ∧ frame ≠ .settings false params)
      (uncalled : (Event.dispatched frame).due? s.version = none) :=
    passed rfl ((effect_dispatch s frame).passive plain) uncalled
  cases frame with
  | ping ack payload =>
    cases ack with
    | true => exact other (by simp) rfl
    | false => exact answered (u := s.note (.dispatched (.ping false payload))) rfl rfl rfl
  | settings ack params =>
    cases ack with
    | true => exact other (by simp) rfl
    | false =>
      -- SETTINGS is answered just if all of it is acceptable.
      by_cases acceptable : ∀ p ∈ params, p.Acceptable s.version
      · rw [dispatch_settings (s.peer.applyAll_acceptable acceptable)]
        exact answered rfl rfl (if_pos acceptable)
      · obtain ⟨e, failed⟩ := s.peer.applyAll_unacceptable (by simpa using acceptable)
        have refused : dispatch addTask s (.settings false params) =
            (s.note (.dispatched (.settings false params))).protocolError := by
          simp [dispatch, onSettings, note, failed]
        rw [refused]
        exact passed rfl (.sendGoAway _) (if_neg acceptable)
  | _ => exact other (by simp) rfl

/-! ### Answers in their turn -/

/-- Events that put in the answers that they call for. -/
def Balanced (version : Version) (events : List Event) : Prop :=
  (events.filterMap Event.queued?).filterMap Outgoing.answer? = answersDue version events

theorem Balanced.append {version : Version} {front back : List Event} (first : Balanced version front)
    (second : Balanced version back) : Balanced version (front ++ back) := by
  rw [Balanced, answersDue, List.filterMap_append, List.filterMap_append, List.filterMap_append, first, second]
  rfl

theorem balanced_of_passive {version : Version} {events : List Event} (passive : ∀ e ∈ events, e.isPassive) :
    Balanced version events := by
  have none (e : Event) (member : e ∈ events) : e.queued?.bind Outgoing.answer? = none ∧ e.due? version = none :=
    Event.of_isPassive (passive e member)
  rw [Balanced, List.filterMap_filterMap, answersDue, List.filterMap_eq_nil_iff.mpr fun e member => (none e member).1,
    List.filterMap_eq_nil_iff.mpr fun e member => (none e member).2]

theorem Reply.balanced {version : Version} {frame : Frame} {events : List Event} (reply : Reply version frame events) :
    Balanced version (.dispatched frame :: events) := by
  unfold Reply at reply
  cases due : (Event.dispatched frame).due? version with
  | some answer =>
    rw [due] at reply
    subst reply
    rw [Balanced, answersDue, List.filterMap_cons_some due, List.filterMap_cons_none rfl]
    exact List.filterMap_cons_some (Event.answer?_of_due? due)
  | none =>
    rw [due] at reply
    rw [Balanced, answersDue, List.filterMap_cons_none due, List.filterMap_cons_none rfl]
    exact balanced_of_passive reply

theorem answersWritten_append (front back : List Event) :
    answersWritten (front ++ back) = answersWritten front ++ answersWritten back := by
  rw [answersWritten, List.filterMap_append, List.filter_append]
  rfl

theorem answersDue_append (version : Version) (front back : List Event) :
    answersDue version (front ++ back) = answersDue version front ++ answersDue version back := List.filterMap_append

/-- Where all that was called for has been answered, wire frames may follow that are no answers. -/
theorem chronicle_wrote {version : Version} {journal : List Event} (prompt : Chronicle (Event.Prompt version) journal)
    (complete : answersWritten journal = (answersDue version journal).map (·.encode 0)) {frames : List Bytes}
    (others : ∀ wire ∈ frames, Frame.isAnswer wire = false) :
    Chronicle (Event.Prompt version) (journal ++ frames.map .wrote) := by
  induction frames using List.reverseRecOn with
  | nil => simpa using prompt
  | append_singleton frames wire ih =>
    obtain ⟨before, -⟩ := List.forall_mem_append.mp others
    rw [List.map_append, ← List.append_assoc]
    refine (ih before).concat fun _ _ _ _ _ => ?_
    have written : answersWritten (frames.map .wrote) = [] := by
      rw [answersWritten, List.filterMap_map]
      exact List.filter_eq_nil_iff.mpr (by simpa [Event.wrote?] using before)
    have due : answersDue version (frames.map .wrote) = [] := by
      rw [answersDue, List.filterMap_map]
      exact List.filterMap_eq_nil_iff.mpr fun _ _ => rfl
    rw [answersWritten_append, answersDue_append, written, due, List.append_nil, List.append_nil, complete]

/-- When a frame of a stream is next, no frame of the connection waits. -/
theorem clear_of_pop? (ordered : s.Ordered) {f : Outgoing} {outbox : Outbox} (next : s.outbox.pop? = some (f, outbox))
    (level : f.isConnectionLevel = false) : ∀ g ∈ s.outbox.queue.toList, g.isConnectionLevel = false := by
  obtain ⟨rank, entries, -⟩ := of_pop? next
  have ranked := ordered.ranked
  have sorted := s.outbox.queue.sorted
  rw [entries] at ranked sorted
  have positive : rank ≠ 0 := mt (ranked (rank, f) List.mem_cons_self).mp (by simp [level])
  rw [Queue.toList_eq, entries]
  refine List.forall_mem_map.mpr fun e member => Bool.eq_false_iff.mpr fun above => ?_
  have first : e.1 = 0 := (ranked e member).mpr above
  rcases List.mem_cons.mp member with rfl | later
  · exact positive first
  · have least : rank ≤ e.1 := (List.pairwise_cons.mp sorted).1 e later
    omega

section Reached
variable {version : Version} {config : Config} {handlers : Handlers} {schedule : Schedule} {transport : Transport}
  (h : Reaches (start version config handlers schedule transport) s)
include h

theorem ordered_start : s.Ordered :=
  h.keeps_from (.start ..) fun earlier last ordered => ordered.advance last (followed_start earlier).stable

/-- The answers that were put into the outbox are those that were called for. -/
theorem balanced_start : Balanced version s.journal := by
  refine h.keeps_from (P := fun s => Balanced version s.journal) rfl fun {s t} earlier last balanced => ?_
  have followed := followed_start earlier
  rcases last.passive with ⟨events, journal, passive⟩ | ⟨frame, reader, running, next, rfl⟩
  · exact journal ▸ balanced.append (balanced_of_passive passive)
  · obtain ⟨events, journal, reply⟩ := reply_dispatch (s := { s with reader }) (followed.stable.running running).1 frame
    have ours : s.version = version := followed.version
    exact journal ▸ balanced.append (ours ▸ reply).balanced

/-- As long as every write succeeds, the answers that were taken out of the outbox are those that were written. -/
theorem answersWritten_taken (whole : s.Unbroken) :
    answersWritten s.journal = (s.taken.filterMap Outgoing.answer?).map (·.encode 0) := by
  obtain ⟨sent, entered, wires, -, written⟩ := (writing_start h).sent
  have each : ∀ e ∈ sent, e.2.filter Frame.isAnswer = e.1.answer?.toList.map (·.encode 0) := fun e member => by
    obtain ⟨limit, table, wire⟩ := wires e member
    have entry : e.1 ∈ s.opening :: s.taken := entered ▸ List.mem_map_of_mem member
    obtain ⟨plain, small⟩ : e.1.isPlain ∧ e.1.stream < Frame.idBound := by
      rcases List.mem_cons.mp entry with opening | taken
      · rw [opening]
        exact ⟨rfl, show 0 < Frame.idBound by decide⟩
      · exact taken_small (sound_start h) taken
    rw [wire]
    exact Outgoing.answers_wire limit table plain small
  rw [answersWritten, show s.journal.filterMap Event.wrote? = s.written from rfl, written whole,
    Outgoing.answers_sent each, entered]
  rfl

/-- While no frame of the connection waits, all that was called for has been answered. -/
theorem answers_complete (running : s.status = .running)
    (clear : ∀ f ∈ s.outbox.queue.toList, f.isConnectionLevel = false) :
    answersWritten s.journal = (answersDue version s.journal).map (·.encode 0) := by
  have hopen := ((followed_start h).stable.running running).1
  have none : s.outbox.queue.toList.filter (·.isConnectionLevel) = [] :=
    List.filter_eq_nil_iff.mpr fun f member => by simp [clear f member]
  have all := (ordered_start h).all hopen
  rw [line, List.filter_append, none, List.append_nil] at all
  rw [answersWritten_taken h (by simp [Unbroken, running]), ← balanced_start h, Outgoing.filterMap_answer?, all,
    ← Outgoing.filterMap_answer?]
  rfl

/-- What a session writes of a stream follows the answers to all that it has taken in. -/
theorem prompt_wrote (running : s.status = .running) {f : Outgoing} {outbox : Outbox}
    (next : s.outbox.pop? = some (f, outbox)) (prompt : Chronicle (Event.Prompt version) s.journal) :
    Chronicle (Event.Prompt version) ({ s with outbox }.writeOutgoing f).journal := by
  let frames := (f.wire s.peer.maxFrame s.sendTable).2
  let u : Session := note { s with outbox, sendTable := (f.wire s.peer.maxFrame s.sendTable).1 } (.taken f)
  have taken : Chronicle (Event.Prompt version) u.journal := prompt.concat nofun
  have after : Reaches (start version config handlers schedule transport) ({ s with outbox }.writeOutgoing f) :=
    h.trans (.single (.wrote running next))
  obtain ⟨events, journal, -⟩ := Passive.writeAll frames u
  have member : f ∈ ({ s with outbox }.writeOutgoing f).taken :=
    List.mem_filterMap.mpr
      ⟨.taken f, journal ▸ List.mem_append_left _ (List.mem_append_right _ List.mem_cons_self), rfl⟩
  obtain ⟨plain, small⟩ := taken_small (sound_start after) member
  have written (done rest : List Bytes) (split : frames = done ++ rest) :
      Chronicle (Event.Prompt version) (u.journal ++ done.map .wrote) := by
    cases level : f.isConnectionLevel with
    | true =>
      refine taken.append (List.forall_mem_map.mpr fun wire here front bytes header same parsed kind => ?_)
      obtain rfl := Event.wrote.inj same
      rcases Outgoing.kind_of_mem_wire plain small (split ▸ List.mem_append_left rest here) parsed with own | continues
      · exact absurd kind (own ▸ Outgoing.kind_of_isConnectionLevel level)
      · exact absurd kind (by rw [continues]; decide)
    | false =>
      have silent : frames.filter Frame.isAnswer = [] := by
        rw [Outgoing.answers_wire _ _ plain small, Outgoing.answer?_of_not_isConnectionLevel level]
        rfl
      refine chronicle_wrote taken ?_ fun wire here => ?_
      -- A frame of a stream is taken only when no answer waits, so all answers due have been written.
      · have complete := answers_complete h running (clear_of_pop? (ordered_start h) next level)
        rw [show u.journal = s.journal ++ [.taken f] from rfl, answersWritten_append, answersDue_append, complete,
          List.map_append]
        rfl
      · exact Bool.eq_false_iff.mpr (List.filter_eq_nil_iff.mp silent wire (split ▸ List.mem_append_left rest here))
  rcases journal_writeAll frames (s := u) running with ⟨-, journal⟩ | ⟨-, done, rest, split, -, journal⟩
  · exact (show _ = _ from journal) ▸ written frames [] (List.append_nil _).symm
  · rw [← List.append_assoc] at journal
    exact (show _ = _ from journal) ▸ (written done rest split).concat nofun

theorem prompt_start : Chronicle (Event.Prompt version) s.journal := by
  refine h.keeps_from (P := fun s => Chronicle (Event.Prompt version) s.journal) chronicle_nil
    fun {s t} earlier last prompt => ?_
  rcases last.quiet with quiet | loud
  · obtain ⟨events, journal, quiet⟩ := quiet.journal
    rw [journal]
    refine prompt.append fun e member front bytes header wrote => ?_
    obtain rfl := wrote
    cases (quiet _ member).2
  cases loud with
  | wrote running next => exact prompt_wrote earlier running next prompt
  | began =>
    unfold write
    split
    · refine prompt.concat fun bytes header wrote parsed kind => ?_
      obtain rfl := Event.wrote.inj wrote
      obtain ⟨length, seen⟩ := Frame.seen?_wireFrame .settings 0 (show 0 < 2 ^ 31 by decide)
        ((s.config.params s.version).flatMap Setting.bytes)
      rw [Frame.encode, Frame.wire, List.flatten_singleton] at parsed
      rw [Frame.seen?, parsed, Option.map_some, Option.some.injEq] at seen
      rw [(Prod.mk.inj seen).1] at kind
      simp [Kind.code] at kind
    · exact prompt.concat fun bytes header wrote => by cases wrote

end Reached

/-! ### Flushing -/

/-- A flush that goes through leaves nothing in the outbox. -/
theorem flushUpTo_empties (count : Nat) (enough : s.outbox.queue.size ≤ count) (through : (flushUpTo count s).isRunning) :
    (flushUpTo count s).outbox.queue.toList = [] := by
  induction count generalizing s with
  | zero =>
    have none : s.outbox.queue.entries = [] :=
      List.length_eq_zero_iff.mp (Nat.le_zero.mp (Queue.length_entries _ ▸ enough))
    rw [flushUpTo, Queue.toList_eq, none]
    rfl
  | succ count ih =>
    unfold flushUpTo at through ⊢
    split
    · next none =>
      exact Queue.pop?_eq_none_iff.mp (Option.map_eq_none_iff.mp none)
    · next f outbox next =>
      rw [next] at through
      dsimp only at through ⊢
      split
      · next still =>
        rw [if_pos still] at through
        -- A write that goes through takes one entry out, so what is left of the count is enough for the rest.
        refine ih ?_ through
        obtain ⟨rank, entries, -⟩ := of_pop? next
        rw [outbox_writeOutgoing]
        simp only [← Queue.length_entries, entries, List.length_cons] at enough ⊢
        omega
      · next stopped =>
        rw [if_neg stopped] at through
        exact absurd through stopped

variable {version : Version} {config : Config} {handlers : Handlers} {schedule : Schedule} {transport : Transport}

/-- Whenever a flush goes through, the answers written so far are those that the PING frames and acceptable SETTINGS taken
    in so far call for, in order, each once. And whenever a HEADERS, DATA or RST_STREAM frame is written, the answers to all
    that was taken in before have been written already: no such frame comes between. -/
theorem answers_prompt (h : Reaches (start version config handlers schedule transport) s) :
    (s.isRunning → s.flush.isRunning →
      answersWritten s.flush.journal = (answersDue version s.flush.journal).map (·.encode 0)) ∧
    ∀ front bytes header, front ++ [.wrote bytes] <+: s.journal → WireHeader.parse? bytes = some header →
      header.kind ∈ [Kind.headers.code, Kind.data.code, Kind.reset.code] →
        answersWritten front = (answersDue version front).map (·.encode 0) := by
  refine ⟨fun running through => ?_, fun front bytes header early parsed kind => ?_⟩
  · have flushed := h.trans (reaches_flush (isRunning_iff.mp running))
    refine answers_complete flushed (isRunning_iff.mp through) ?_
    rw [show s.flush.outbox.queue.toList = [] from flushUpTo_empties _ (Nat.le_refl _) through]
    nofun
  · exact prompt_start h front _ early bytes header rfl parsed kind

/-- A session whose peer sends a request, a PING frame, the answer to another, SETTINGS with a bad push flag, another
    PING frame and good SETTINGS, all in one piece. The handler replies before the first of them has been answered. -/
def busy : Session :=
  let ping (ack : Bool) (n : UInt8) : Frame := .ping ack (.replicate 8 n)
  let bad : Frame := .settings false [{ id := Setting.enablePush, value := 2 }]
  let frames : List Frame :=
    [.headers 1 [] true none 0, ping false 1, ping true 2, bad, ping false 3, .settings false []]
  start .spdy3 {} { others := [.act (.headers [] true)] } .atOnce
    { arrivals := [{ bytes := frames.flatMap (·.encode 1) }] }

/-- Three answers are written, two of them behind GOAWAY, and all of them before the reply. -/
theorem answers_prompt_busy :
    let answers : List Frame := [.ping true (.replicate 8 1), .ping true (.replicate 8 3), .settings true []]
    ∃ s, Reaches busy s ∧ s.goAwaySent ∧ answersWritten s.flush.journal = answers.map (·.encode 0) ∧
      ∃ front bytes header, front ++ [.wrote bytes] <+: s.flush.journal ∧ WireHeader.parse? bytes = some header ∧
        header.kind = Kind.headers.code ∧ answersWritten front = answers.map (·.encode 0) := by
  intro answers
  have began : Reaches busy _ := .single (.began rfl)
  set s := { busy with status := .running }.write _ .initialWriteFailed
  have running : s.status = .running := by decide +kernel
  obtain ⟨read, still⟩ := reaches_readMore running true
  have taken := (began.trans read).trans (reaches_takeInput still .success)
  set t := (s.readMore true).1.takeInput .success
  have going : t.isRunning := by decide +kernel
  have through : t.flush.isRunning := by decide +kernel
  have flushed := taken.trans (reaches_flush (isRunning_iff.mp going))
  have due : answersDue .spdy3 t.flush.journal = answers := by decide +kernel
  obtain ⟨last, same⟩ : ((t.flush.journal[27]?.bind Event.wrote?).bind WireHeader.parse?).map (·.kind) =
      some Kind.headers.code ∧ answersDue .spdy3 (t.flush.journal.take 27) = answers := by decide +kernel
  obtain ⟨header, parsed, kind⟩ := Option.map_eq_some_iff.mp last
  obtain ⟨bytes, written, header'⟩ := Option.bind_eq_some_iff.mp parsed
  obtain ⟨e, next, wrote⟩ := Option.bind_eq_some_iff.mp written
  obtain rfl := Event.eq_of_wrote? wrote
  have before : t.flush.journal.take 27 ++ [.wrote bytes] <+: t.flush.journal := by
    have whole : t.flush.journal.take 28 <+: t.flush.journal := List.take_prefix ..
    rwa [List.take_add_one, next] at whole
  refine ⟨t, taken, by decide +kernel, due ▸ (answers_prompt taken).1 going through, ?_⟩
  refine ⟨_, bytes, header, before, header', kind, ?_⟩
  exact same ▸ (answers_prompt flushed).2 _ bytes header before header' (by simp [kind])

end Session

end Multiplex
