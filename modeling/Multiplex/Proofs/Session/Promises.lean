import Multiplex.Proofs.Session.Turns

/-! # Server push

A push is refused and changes nothing, or it promises one stream, opens it and hands its task to the executor
(`Pledged.push`). A promise goes into the outbox when nothing has been sent on the stream that it promises, no GOAWAY
has gone out or come in, and the limits in force allow pushes (`Promisable`); and it goes out in its turn. -/

namespace Multiplex

open Multiplex.Frame (Kind)

namespace Event

/-- Whether an event has no part in the start of a push. -/
def isPushless : Event → Bool
  | .queued (.pushPromise ..) | .opened _ _ _ true => false
  | _ => true

/-- Whether the peer goes away by an event. -/
def isLeaving : Event → Bool
  | .dispatched (.goAway ..) => true
  | _ => false

theorem isPushless_of_isOrdinary {e : Event} (ordinary : e.isOrdinary) : e.isPushless ∧ e.isLeaving = false := by
  cases e with
  | queued f =>
    cases f with
    | pushPromise => cases ordinary
    | _ => exact ⟨rfl, rfl⟩
  | opened | dispatched => cases ordinary
  | _ => exact ⟨rfl, rfl⟩

theorem isLeaving_of_isExchange {e : Event} (inner : e.isExchange = false) : e.isLeaving = false := by
  cases e <;> first | rfl | cases inner

end Event

/-- What a journal tells when a stream is promised: nothing has been put into the outbox for the stream, neither end has
    announced that it goes away, and the limits in force, each of them acknowledged, allow pushes. -/
structure Promisable (version : Version) (journal : List Event) (promised : Nat) : Prop where
  positive : promised ≠ 0
  small : promised < Frame.idBound
  unused : ∀ f ∈ journal.filterMap Event.queued?, f.stream ≠ promised
  staying : ∀ f ∈ journal.filterMap Event.queued?, f.kind ≠ Kind.goAway
  unleft : ∀ e ∈ journal, e.isLeaving = false
  allowed : (limitsAfter version journal).enablePush
  acks : (journal.filterMap Event.queued?).countP (·.isAck) = (adoptions version {} journal).length

/-- Whether an event comes when it may: a promise, when the stream may be promised. -/
def Event.Admissible (version : Version) (journal : List Event) : Event → Prop
  | .queued (.pushPromise _ promised _) => Promisable version journal promised
  | _ => True

theorem Event.admissible_of_isPushless {e : Event} (pushless : e.isPushless) (version : Version)
    (journal : List Event) : e.Admissible version journal := by
  cases e with
  | queued f =>
    cases f with
    | pushPromise => cases pushless
    | _ => trivial
  | _ => trivial

namespace Session

variable {s t u : Session}

/-- The streams that were promised, in order. -/
def promised (s : Session) : List Nat := s.queued.filterMap Outgoing.promised?

theorem promised_append {events : List Event} (journal : t.journal = s.journal ++ events) :
    t.promised = s.promised ++ (events.filterMap Event.queued?).filterMap Outgoing.promised? := by
  rw [promised, queued_append journal, List.filterMap_append]
  rfl

/-! ### Changes that start no push -/

/-- A change in which no push is started. -/
def Pushless (s t : Session) : Prop := ∃ events, t.journal = s.journal ++ events ∧ ∀ e ∈ events, e.isPushless

namespace Pushless

theorem refl (s : Session) : Pushless s s := ⟨[], (List.append_nil _).symm, nofun⟩

theorem trans (first : Pushless s t) (second : Pushless t u) : Pushless s u := by
  obtain ⟨early, split, pushless⟩ := first
  obtain ⟨late, split', pushless'⟩ := second
  exact ⟨early ++ late, by rw [split', split, List.append_assoc], List.forall_mem_append.mpr ⟨pushless, pushless'⟩⟩

theorem note {e : Event} (pushless : e.isPushless) : Pushless s (s.note e) :=
  ⟨[e], rfl, List.forall_mem_singleton.mpr pushless⟩

theorem of_ordinary (ordinary : Ordinary s t) : Pushless s t := by
  obtain ⟨events, journal, plain⟩ := ordinary.journal
  exact ⟨events, journal, fun e member => (Event.isPushless_of_isOrdinary (plain e member)).1⟩

theorem queue (hopen : s.outbox.closed = false) (frame : Frame) (priority : Nat) :
    Pushless s (s.queue (.frame frame) priority) := by
  rw [queue_of_open hopen]
  exact ⟨[_], rfl, List.forall_mem_singleton.mpr rfl⟩

theorem sendGoAway (hopen : s.outbox.closed = false) (code : ErrorCode) : Pushless s (s.sendGoAway code) := by
  unfold Session.sendGoAway
  split
  · exact refl s
  · exact queue (s := { s with goAwaySent := true }) hopen _ _

/-- Nothing of a change in which no push is started tells of one. -/
theorem silent (pushless : Pushless s t) : t.promised = s.promised ∧ t.opened true = s.opened true := by
  obtain ⟨events, journal, plain⟩ := pushless
  constructor
  · rw [promised_append journal, List.filterMap_eq_nil_iff.mpr, List.append_nil]
    intro f member
    obtain ⟨e, noted, queued⟩ := List.mem_filterMap.mp member
    obtain rfl := Event.eq_of_queued? queued
    cases f with
    | pushPromise => cases plain _ noted
    | _ => rfl
  · rw [opened_append journal, List.filter_eq_nil_iff.mpr, List.map_nil, List.append_nil]
    rintro ⟨id, own⟩ member
    obtain ⟨e, noted, opening⟩ := List.mem_filterMap.mp member
    cases e with
    | opened _ _ _ pushed =>
      cases pushed with
      | true => cases plain _ noted
      | false =>
        cases opening
        exact Bool.false_ne_true
    | _ => cases opening

end Pushless

/-- The task of a stream that the peer opens is no push. -/
theorem Effect.pushless {decoded : Except Hpack.Fault (List Header)} {frame : Frame} (h : Effect s decoded frame t)
    (hopen : s.outbox.closed = false) (idle : s.executor.stopped = false)
    (fresh : ∀ id, s.isFresh id → s.stream? id = none) : Pushless s t := by
  cases h with
  | passed | left | crashed => exact .refl s
  | breach => exact .sendGoAway hopen _
  | answered => exact .queue hopen _ _
  | @adopted params peer => exact .queue (s := s.adopt peer) hopen _ _
  | @turnedAway id => exact .queue (s := { s with lastPeer := id }) hopen _ _
  | trailed | received => exact .note (s := s.setStream _) rfl
  | @opened id block final priority flags staying odd new room rank list read =>
    have unused : s.stream? id = none := fresh id (isFresh_of_odd odd new)
    rw [addTask_addStream (s := { s with lastPeer := id }) unused rfl idle]
    exact ⟨[_, _], rfl, List.forall_mem_cons.mpr ⟨rfl, List.forall_mem_singleton.mpr rfl⟩⟩
  | granted found positive fits => exact .of_ordinary (.grant found fits)
  | offended found other => exact .of_ordinary (.reset _ other)
  | hungUp => exact .of_ordinary (.setStream _)

/-! ### The end of the peer -/

theorem Kept.leaving (kept : Kept s t) : t.peerLeaving = s.peerLeaving := by rw [kept.rest]

theorem leaving_sendGoAway (s : Session) (code : ErrorCode) : (s.sendGoAway code).peerLeaving = s.peerLeaving := by
  unfold sendGoAway
  split
  · rfl
  · exact (Kept.queue ..).leaving

theorem Effect.leaving {decoded : Except Hpack.Fault (List Header)} {frame : Frame} (h : Effect s decoded frame t)
    (leaving : s.peerLeaving) : t.peerLeaving := by
  cases h with
  | left => rfl
  | passed | crashed | trailed | received | hungUp => exact leaving
  | breach => exact (leaving_sendGoAway s _).trans leaving
  | answered | adopted | turnedAway => exact (Kept.queue ..).leaving.trans leaving
  | opened => exact ((Kept.addStream ..).trans (.addTask _)).leaving.trans leaving
  | granted => exact ((Kept.note rfl).trans (.update ..)).leaving.trans leaving
  | offended => exact (Kept.reset ..).leaving.trans leaving

/-- A peer that goes away does not come back. -/
theorem Advance.leaving (h : Advance s t) (leaving : s.peerLeaving) : t.peerLeaving := by
  cases h with
  | moved h => exact h.kept.leaving.trans leaving
  | began =>
    rw [(sent_write _ _ _).rest]
    exact leaving
  | dispatched => exact (effect_dispatch _ _).leaving leaving
  | wentAway => exact (leaving_sendGoAway s _).trans leaving
  | @wrote running f outbox next =>
    have sent := (sent_writeAll (f.wire s.peer.maxFrame s.sendTable).2
      (note { s with outbox, sendTable := (f.wire s.peer.maxFrame s.sendTable).1 } (.taken f))).rest
    exact (congrArg peerLeaving sent).trans leaving
  | halted => exact (Kept.foldl_cancel _ _).leaving.trans leaving
  | _ => exact leaving

/-- Once the peer has sent GOAWAY, the session knows. -/
def Heedful (s : Session) : Prop := ∀ e ∈ s.journal, e.isLeaving → s.peerLeaving

theorem Heedful.append (heedful : s.Heedful) {events : List Event} (journal : t.journal = s.journal ++ events)
    (leaving : s.peerLeaving → t.peerLeaving) (later : ∀ e ∈ events, e.isLeaving → t.peerLeaving) : t.Heedful := by
  intro e member left
  rw [journal] at member
  exact (List.mem_append.mp member).elim (fun before => leaving (heedful e before left)) fun new => later e new left

theorem Heedful.ordinary (heedful : s.Heedful) (ordinary : Ordinary s t) (leaving : s.peerLeaving → t.peerLeaving) :
    t.Heedful := by
  obtain ⟨events, journal, plain⟩ := ordinary.journal
  refine heedful.append journal leaving fun e member left => ?_
  exact absurd left (Bool.eq_false_iff.mp (Event.isPushless_of_isOrdinary (plain e member)).2)

theorem Heedful.kept (heedful : s.Heedful) (kept : Kept s t) : t.Heedful := by
  obtain ⟨events, journal, inner⟩ := kept.journal
  refine heedful.append journal (fun leaving => kept.leaving.trans leaving) fun e member left => ?_
  exact absurd left (Bool.eq_false_iff.mp (Event.isLeaving_of_isExchange (inner e member)))

theorem Heedful.dispatched (heedful : s.Heedful) (frame : Frame) : (dispatch addTask s frame).Heedful := by
  have effect := effect_dispatch s frame
  obtain ⟨events, journal, inner⟩ := Kept.journal effect.limited
  refine heedful.append (journal.trans (List.append_assoc s.journal [.dispatched frame] events))
    effect.leaving (List.forall_mem_append.mpr ⟨List.forall_mem_singleton.mpr fun left => ?_, fun e member left => ?_⟩)
  · cases frame with
    | goAway => rfl
    | _ => cases left
  · exact absurd left (Bool.eq_false_iff.mp (Event.isLeaving_of_isExchange (inner e member)))

theorem Heedful.advance (heedful : s.Heedful) (h : Advance s t) : t.Heedful := by
  rcases h.ordinary with ordinary | special
  · exact heedful.ordinary ordinary h.leaving
  cases special with
  | promised list priority => exact heedful.kept ((Kept.promise _ list priority).trans (.addTask _))
  | @dispatched running frame reader next => exact Heedful.dispatched (s := { s with reader }) heedful frame
  | wentAway running code =>
    obtain ⟨events, journal, inner⟩ := Kept.journal (limited_sendGoAway s code)
    refine heedful.append journal h.leaving fun e member left => ?_
    exact absurd left (Bool.eq_false_iff.mp (Event.isLeaving_of_isExchange (inner e member)))

/-! ### Promises -/

/-- What a session has promised: the streams that it has opened itself, each when it could be promised. -/
structure Pledged (s : Session) : Prop where
  numbered : s.Numbered
  ordered : s.Ordered
  heedful : s.Heedful
  promised : s.promised = s.opened true
  chronicle : Chronicle (Event.Admissible s.version) s.journal

/-- A push is allowed only if the limits of the peer allow it and the peer stays. -/
theorem granted_of_pushError? {stream : Stream} (allowed : s.pushError? stream = none) :
    s.mayPush ∧ s.peerLeaving = false := by
  unfold pushError? at allowed
  split at allowed
  · cases allowed
  split at allowed
  · cases allowed
  split at allowed
  · cases allowed
  split at allowed
  · cases allowed
  split at allowed
  · cases allowed
  simp_all

namespace Pledged

theorem start (version : Version) (config : Config) (handlers : Handlers) (schedule : Schedule)
    (transport : Transport) : (Session.start version config handlers schedule transport).Pledged where
  numbered := .start ..
  ordered := .start ..
  heedful := nofun
  promised := rfl
  chronicle := chronicle_nil

theorem pushless (pledged : s.Pledged) (pushless : Pushless s t) (numbered : t.Numbered) (ordered : t.Ordered)
    (heedful : t.Heedful) (version : t.version = s.version) : t.Pledged := by
  obtain ⟨promised, opened⟩ := pushless.silent
  obtain ⟨events, journal, plain⟩ := pushless
  refine ⟨numbered, ordered, heedful, by rw [promised, opened, pledged.promised], ?_⟩
  rw [version, journal]
  exact pledged.chronicle.append fun e member front => Event.admissible_of_isPushless (plain e member) s.version front

/-- A stream that may be pushed may be promised. -/
theorem promisable (pledged : s.Pledged) (sane : s.Sane) {stream : Stream} (allowed : s.pushError? stream = none) :
    Promisable s.version s.journal s.nextPush := by
  obtain ⟨-, hopen, staying, -, -, small⟩ := of_pushError? allowed
  obtain ⟨enabled, stays⟩ := granted_of_pushError? allowed
  have blank := sane.fresh s.nextPush (by simp [isFresh, sane.stable.pushes.1])
  refine ⟨Nat.pos_iff_ne_zero.mp sane.stable.pushes.2, Nat.lt_succ_of_le small, fun f member same => ?_,
    fun f member goAway => ?_, fun e member => ?_, ?_, pledged.ordered.acks hopen⟩
  · have own : f ∈ (s.lane s.nextPush).queued := by
      rw [lane_queued]
      exact List.mem_filter.mpr ⟨member, by simp [same]⟩
    obtain ⟨e, noted, queued⟩ := List.mem_filterMap.mp own
    obtain rfl := Event.eq_of_queued? queued
    cases blank.past _ noted
  · obtain ⟨e, noted, queued⟩ := List.mem_filterMap.mp member
    obtain rfl := Event.eq_of_queued? queued
    have silent := pledged.numbered.silent staying _ noted
    cases f with
    | frame frame =>
      cases frame with
      | goAway => simp [Event.farewell?] at silent
      | _ => cases goAway
    | headers | pushPromise => cases goAway
  · refine Bool.eq_false_iff.mpr fun left => ?_
    exact Bool.eq_false_iff.mp stays (pledged.heedful e member left)
  · exact (congrArg PeerSettings.enablePush sane.stable.agreed).symm.trans enabled

theorem push (pledged : s.Pledged) (sane : s.Sane) {i : Nat} {stream : Stream} (found : s.stream? i = some stream)
    (allowed : s.pushError? stream = none) (list : List Header) (priority : Nat) :
    (addTask s.nextPush (s.promise stream list priority)).Pledged := by
  obtain ⟨idle, unused⟩ := sane.stable.unused sane.fresh allowed
  have move : Move s (addTask s.nextPush (s.promise stream list priority)) := .promised list priority found allowed
  have numbered := pledged.numbered.promised idle found allowed unused list priority
  have ordered := pledged.ordered.posts move.posts
  have heedful := pledged.heedful.kept move.kept
  have child : (stream.id != 0) = true := bne_iff_ne.mpr (pledged.numbered.stream_ne_zero found)
  obtain ⟨new, -, -, added⟩ := addTask_promise allowed idle unused list priority
  rw [child] at added
  refine ⟨numbered, ordered, heedful, ?_, ?_⟩
  · rw [promised_append (s := s) (congrArg journal added), opened_append (s := s) (congrArg journal added),
      pledged.promised]
    rfl
  · have here : (Event.queued (.pushPromise stream.id s.nextPush list)).Admissible s.version s.journal :=
      pledged.promisable sane allowed
    have opened : ∀ e ∈ [Event.accepted s.nextPush (.headers list true),
        .opened s.nextPush stream.id new.priority true], ∀ front, e.Admissible s.version front :=
      List.forall_mem_cons.mpr ⟨fun _ => trivial, List.forall_mem_singleton.mpr fun _ => trivial⟩
    have whole := (pledged.chronicle.concat here).append opened
    rw [List.append_assoc] at whole
    rw [added]
    exact whole

theorem advance (pledged : s.Pledged) (sane : s.Sane) (h : Advance s t) : t.Pledged := by
  have numbered := pledged.numbered.advance h sane.stable sane.fresh
  have ordered := pledged.ordered.advance h sane.stable
  have heedful := pledged.heedful.advance h
  have version := h.settled.1
  rcases h.ordinary with ordinary | special
  · exact pledged.pushless (.of_ordinary ordinary) numbered ordered heedful version
  cases special with
  | promised list priority found allowed => exact pledged.push sane found allowed list priority
  | @dispatched running frame reader next =>
    obtain ⟨hopen, idle⟩ := sane.stable.running running
    have noted : Pushless s { ({ s with reader } : Session).note (.dispatched frame) with
        receiveTable := ({ s with reader } : Session).tableAfter frame } :=
      ⟨[_], rfl, List.forall_mem_singleton.mpr rfl⟩
    have effect := (effect_dispatch { s with reader } frame).pushless hopen idle fun id unused =>
      (sane.fresh id unused).stream
    exact pledged.pushless (noted.trans effect) numbered ordered heedful version
  | wentAway running code =>
    exact pledged.pushless (.sendGoAway (sane.stable.running running).1 code) numbered ordered heedful version

theorem outlives (pledged : s.Pledged) (sane : s.Sane) (h : Outlives s t) : t.Pledged := by
  refine h.keeps sane pledged (fun sane last pledged => pledged.advance sane last)
    (fun {u action} stream plain pledged => ?_) fun {u} pledged => ?_
  · have ordinary : Ordinary u (perform addTask u stream action).1 := .perform stream plain
    have kept : Kept u (perform addTask u stream action).1 := .perform stream plain
    exact pledged.pushless (.of_ordinary ordinary) (pledged.numbered.ordinary ordinary)
      (pledged.ordered.posts (.perform stream plain)) (pledged.heedful.kept kept) kept.version
  · have same : u.drop.journal = u.journal ++ [] := (List.append_nil _).symm
    exact pledged.pushless ⟨[], same, nofun⟩ (pledged.numbered.keep same nofun rfl rfl rfl rfl)
      (pledged.ordered.posts (.of_journal rfl rfl rfl)) pledged.heedful rfl

end Pledged

end Session

end Multiplex
