import Multiplex.Proofs.Session.Conservation
import Multiplex.Proofs.Session.Handles
import Multiplex.Proofs.Stream.Marks

/-! # The order in which frames go out

The frames of the connection go out in the order in which they were put into the outbox, and a frame of a stream that
was put in later does not overtake them (`Ordered`). SETTINGS of the peer are acknowledged by frames of the connection,
each at the moment when its limits are adopted; so the acknowledgements that went out before another such frame tell
which limits were in force when that frame was put in. -/

namespace Multiplex

open Relation (ReflTransGen)

/-! ### Limits -/

/-- The limits that are in force after an event, if the event is a SETTINGS frame that is accepted. -/
def Event.adopts? (version : Version) (limits : PeerSettings) : Event → Option PeerSettings
  | .dispatched (.settings false params) => (limits.applyAll version params).toOption
  | _ => none

/-- The limits that were in force after each SETTINGS frame that was accepted, in order. -/
def adoptions (version : Version) : PeerSettings → List Event → List PeerSettings
  | _, [] => []
  | limits, e :: rest => (e.adopts? version limits).toList ++ adoptions version (e.adjust version limits) rest

section Adoptions
variable {version : Version} {limits : PeerSettings} {front back events : List Event}

theorem Event.adjust_eq (version : Version) (limits : PeerSettings) (e : Event) :
    e.adjust version limits = (e.adopts? version limits).getD limits := by
  cases e with
  | dispatched frame =>
    cases frame with
    | settings ack params =>
      cases ack with
      | false =>
        rw [Event.adjust, Event.adopts?]
        cases limits.applyAll version params <;> rfl
      | true => rfl
    | _ => rfl
  | _ => rfl

theorem adoptions_append (version : Version) (limits : PeerSettings) (front back : List Event) :
    adoptions version limits (front ++ back) =
      adoptions version limits front ++ adoptions version (front.foldl (Event.adjust version) limits) back := by
  induction front generalizing limits with
  | nil => rfl
  | cons e rest ih => rw [List.cons_append, adoptions, adoptions, ih, List.append_assoc, List.foldl_cons]

theorem adoptions_eq_nil (none : ∀ e ∈ events, ∀ limits, e.adopts? version limits = none) :
    adoptions version limits events = [] := by
  induction events generalizing limits with
  | nil => rfl
  | cons e rest ih =>
    obtain ⟨first, others⟩ := List.forall_mem_cons.mp none
    rw [adoptions, first, ih others]
    rfl

/-- The limits in force are those adopted last. -/
theorem getLastD_adoptions (version : Version) (limits : PeerSettings) (events : List Event) :
    (adoptions version limits events).getLastD limits = events.foldl (Event.adjust version) limits := by
  induction events generalizing limits with
  | nil => rfl
  | cons e rest ih =>
    rw [adoptions, List.foldl_cons, ← ih, Event.adjust_eq]
    cases e.adopts? version limits with
    | none => rfl
    | some adopted => exact List.getLastD_cons ..

theorem take_adoptions (early : front <+: events) :
    (adoptions version limits events).take (adoptions version limits front).length = adoptions version limits front := by
  obtain ⟨back, rfl⟩ := early
  rw [adoptions_append, List.take_left]

end Adoptions

/-- Whether an event touches neither the outbox nor the limits of the peer. -/
def Event.isStill : Event → Bool
  | .dispatched _ | .queued _ | .taken _ => false
  | _ => true

/-- What still events say of the outbox and the limits. -/
structure Event.Still (e : Event) : Prop where
  queued : e.queued? = none
  taken : e.taken? = none
  adopts : ∀ version limits, e.adopts? version limits = none

theorem Event.still_of_isStill {e : Event} (still : e.isStill) : e.Still := by
  cases e <;> first | exact ⟨rfl, rfl, fun _ _ => rfl⟩ | cases still

theorem Outgoing.isAck_of_isSpoken {f : Outgoing} (spoken : f.isSpoken) : f.isAck = false := by
  cases f with
  | frame frame => cases frame <;> first | rfl | cases spoken
  | headers => rfl
  | pushPromise => cases spoken

theorem Outgoing.rank_eq_zero_iff {f : Outgoing} {priority : Nat} : f.rank priority = 0 ↔ f.isConnectionLevel := by
  unfold rank
  split
  · next level => simp [level]
  · next level => simp [level]

/-- A front of a list with a new item ends before the item, with it, or behind it. -/
theorem prefix_insert {α : Type} {front head tail : List α} {last item : α}
    (early : front ++ [last] <+: head ++ item :: tail) :
    front ++ [last] <+: head ∨ front = head ∧ last = item ∨ last ∈ tail := by
  rcases prefix_concat_append early with before | ⟨middle, rfl, later⟩
  · exact .inl before
  cases middle with
  | nil => exact .inr (.inl ⟨List.append_nil _, (List.cons_prefix_cons.mp later).1⟩)
  | cons first others =>
    refine .inr (.inr ((List.cons_prefix_cons.mp later).2.subset ?_))
    exact List.mem_append_right _ (List.mem_singleton_self last)

namespace Session

variable {s t u : Session}

/-- The limits of the peer that a session has adopted, in order. -/
def adopted (s : Session) : List PeerSettings := adoptions s.version {} s.journal

/-- What was taken out of the outbox and what waits there, in order. -/
def line (s : Session) : List Outgoing := s.taken ++ s.outbox.queue.toList

theorem queued_append {events : List Event} (journal : t.journal = s.journal ++ events) :
    t.queued = s.queued ++ events.filterMap Event.queued? := by
  rw [queued, journal, List.filterMap_append]
  rfl

theorem taken_append {events : List Event} (journal : t.journal = s.journal ++ events) :
    t.taken = s.taken ++ events.filterMap Event.taken? := by
  rw [taken, journal, List.filterMap_append]
  rfl

/-- What each step of a session keeps, and each action that starts no push, holds whatever is done to the session. -/
theorem Outlives.keeps {P : Session → Prop} (h : Outlives s t) (sane : s.Sane) (first : P s)
    (advance : ∀ {s t : Session}, s.Sane → Advance s t → P s → P t)
    (acted : ∀ {s : Session} {action : Action} (stream : Stream), s.pushes stream action = false → P s →
      P (perform addTask s stream action).1)
    (dropped : ∀ {s : Session}, P s → P s.drop) : P t := by
  induction h with
  | refl => exact first
  | @tail u _ earlier last ih =>
    have sane := (Outlives.matures earlier sane).sane
    cases last with
    | advanced h => exact advance sane h ih
    | used id action =>
      unfold use
      split
      · exact ih
      · next stream found =>
        -- A push that goes through is a run of its own; all other uses change the stream alone.
        cases plain : u.pushes stream action with
        | false =>
          rw [perform_plain plain]
          exact acted stream plain ih
        | true =>
          cases action with
          | push list priority =>
            have allowed : u.pushError? stream = none := by simpa [pushes] using plain
            have moves := (ReflTransGen.single (.promised list priority found allowed)).trans
              (launches_launchPushed u.nextPush (u.promise stream list priority))
            rw [perform_push allowed]
            exact (Reaches.of_moves moves).keeps_from ih fun before last holds =>
              advance (Matures.of_reaches before sane).sane last holds
          | _ => cases plain
    | dropped => exact dropped ih

/-! ### What is put into the outbox -/

/-- A frame that acknowledges nothing is put into the outbox, or the outbox is left alone. -/
inductive Post (s t : Session) : Prop
  | beside (outbox : t.outbox = s.outbox) (version : t.version = s.version)
      (journal : ∃ events, t.journal = s.journal ++ events ∧ ∀ e ∈ events, e.isStill)
  | put {f : Outgoing} (plain : f.isAck = false) (priority : Nat) (hopen : s.outbox.closed = false)
      (outbox : t.outbox = s.outbox.push f priority) (version : t.version = s.version)
      (journal : t.journal = s.journal ++ [.queued f])

/-- Frames that acknowledge nothing are put into the outbox, in order. -/
def Posts : Session → Session → Prop := ReflTransGen Post

namespace Posts

theorem refl (s : Session) : Posts s s := ReflTransGen.refl

theorem trans (first : Posts s t) (second : Posts t u) : Posts s u := ReflTransGen.trans first second

/-- A change that notes nothing. -/
theorem of_journal (outbox : t.outbox = s.outbox) (version : t.version = s.version) (same : t.journal = s.journal) :
    Posts s t := .single (.beside outbox version ⟨[], same.trans (List.append_nil _).symm, nofun⟩)

/-- A change of a session that has been changed beside its outbox. -/
theorem before (later : Posts t u) (outbox : t.outbox = s.outbox) (version : t.version = s.version)
    (same : t.journal = s.journal) : Posts s u := (of_journal outbox version same).trans later

theorem note {e : Event} (still : e.isStill) : Posts s (s.note e) :=
  .single (.beside rfl rfl ⟨[e], rfl, List.forall_mem_singleton.mpr still⟩)

theorem setStream (stream : Stream) : Posts s (s.setStream stream) := of_journal rfl rfl rfl

theorem queue {f : Outgoing} (plain : f.isAck = false) (priority : Nat) : Posts s (s.queue f priority) := by
  cases hopen : s.outbox.closed with
  | false =>
    rw [queue_of_open hopen]
    exact .single (.put plain priority hopen rfl rfl rfl)
  | true =>
    rw [Session.queue, if_pos hopen]
    exact refl s

theorem queueAll {frames : List Outgoing} (plain : ∀ f ∈ frames, f.isAck = false) (priority : Nat) :
    Posts s (s.queueAll frames priority) := by
  unfold Session.queueAll
  induction frames generalizing s with
  | nil => exact refl s
  | cons f rest ih =>
    obtain ⟨first, others⟩ := List.forall_mem_cons.mp plain
    exact (queue first priority).trans (ih others)

theorem update (stream : Stream) {frames : List Outgoing} (plain : ∀ f ∈ frames, f.isAck = false) :
    Posts s (s.update stream frames) := (setStream stream).trans (queueAll plain stream.priority)

theorem reset (stream : Stream) (code : ErrorCode) : Posts s (s.reset stream code) := by
  have plain : ∀ f ∈ (stream.reset code).2, f.isAck = false := by
    unfold Stream.reset
    split
    · exact List.forall_mem_singleton.mpr rfl
    · nofun
  exact update _ plain

theorem cancel (id : Nat) : Posts s (s.cancel id) := by
  unfold Session.cancel
  dsimp only
  split
  · exact (note rfl).trans (setStream _)
  · exact note rfl

theorem foldl_cancel (ids : List Nat) (s : Session) : Posts s (ids.foldl Session.cancel s) := by
  induction ids generalizing s with
  | nil => exact refl s
  | cons id rest ih => exact (cancel id).trans (ih _)

theorem returned (id : Nat) : Posts s (s.returned id) := by
  have noted : Posts s (s.note (.ended id)) := note rfl
  unfold Session.returned
  dsimp only
  split
  · split
    · exact noted
    · exact noted.trans (reset ..)
  · exact noted

theorem brokeDown (id : Nat) : Posts s (s.brokeDown id) := by
  have noted : Posts s (s.note (.failed id)) := note rfl
  unfold Session.brokeDown
  dsimp only
  split
  · exact noted.trans (reset ..)
  · exact noted

theorem readPart (stream : Stream) : Posts s (s.readPart stream).1 :=
  update _ fun f member => by
    obtain ⟨increment, rfl⟩ := Stream.frames_read stream f member
    rfl

theorem perform (stream : Stream) {action : Action} (plain : s.pushes stream action = false) :
    Posts s (perform addTask s stream action).1 := by
  rcases perform_update plain with same | ⟨stream', frames, same, -, -, spoken⟩
  · rw [same]
    exact refl s
  · rw [same]
    exact update _ fun f member => Outgoing.isAck_of_isSpoken (spoken f member)

theorem addStream (stream : Stream) (list : List Header) (final : Bool) : Posts s (s.addStream stream list final) :=
  .single (.beside rfl rfl ⟨[_], rfl, List.forall_mem_singleton.mpr rfl⟩)

theorem addTask (id : Nat) : Posts s (addTask id s) := by
  unfold Session.addTask
  split
  · exact refl s
  · dsimp only
    split
    · exact (note rfl).trans (cancel id)
    · exact (note rfl).trans (of_journal rfl rfl rfl)

theorem promise (stream : Stream) (list : List Header) (priority : Nat) : Posts s (s.promise stream list priority) :=
  before (t := { s with nextPush := s.nextPush + 2 }) ((queue rfl _).trans (addStream ..)) rfl rfl rfl

theorem sendGoAway (code : ErrorCode) : Posts s (s.sendGoAway code) := by
  unfold Session.sendGoAway
  split
  · exact refl s
  · exact before (t := { s with goAwaySent := true }) (queue rfl 0) rfl rfl rfl

theorem write (bytes : Bytes) (reason : StopReason) : Posts s (s.write bytes reason) := by
  unfold Session.write
  split
  · next transport _ => exact before (t := { s with transport }) (note rfl) rfl rfl rfl
  · exact (note rfl).trans (of_journal rfl rfl rfl)

theorem writeAll (frames : List Bytes) (s : Session) : Posts s (writeAll frames s) := by
  induction frames generalizing s with
  | nil => exact refl s
  | cons bytes rest ih =>
    unfold Session.writeAll
    dsimp only
    split
    · exact (write ..).trans (ih _)
    · exact write ..

end Posts

theorem Move.posts (h : Move s t) : Posts s t := by
  cases h with
  | @started id executor next => exact (Posts.note (s := { s with executor }) (e := .started id) rfl).before rfl rfl rfl
  | acted index found plain => exact (Posts.perform _ plain).trans (.note rfl)
  | promised list priority found allowed => exact (Posts.promise _ list priority).trans (.addTask _)
  | pushed | resumed => exact .note rfl
  | parked | unparked => exact .of_journal rfl rfl rfl
  | woken p found => exact (Posts.readPart _).trans (.note rfl)
  | returned id => exact .returned id
  | brokeDown id => exact .brokeDown id

/-- A frame that is not accepted SETTINGS makes the session acknowledge nothing. -/
theorem Effect.posts {decoded : Except Hpack.Fault (List Header)} {frame : Frame} (h : Effect s decoded frame t)
    (refused : (Event.dispatched frame).adopts? s.version s.peer = none) : Posts s t := by
  cases h with
  | passed => exact .refl s
  | breach => exact .sendGoAway _
  | answered => exact .queue rfl _
  | @adopted params peer allowed => simp [Event.adopts?, allowed, Except.toOption] at refused
  | left | crashed => exact .of_journal rfl rfl rfl
  | trailed | received => exact Posts.trans (t := s.setStream _) (.setStream _) (.note rfl)
  | @turnedAway id => exact .before (t := { s with lastPeer := id }) (.queue rfl _) rfl rfl rfl
  | @opened id => exact .before (t := { s with lastPeer := id }) ((Posts.addStream ..).trans (.addTask _)) rfl rfl rfl
  | granted found positive fits =>
    obtain ⟨-, active⟩ := of_active? found
    obtain ⟨-, released⟩ := Stream.of_grant (Stream.isActive_iff.mp active).2 fits
    obtain ⟨-, rfl⟩ := Prod.mk.inj released
    refine (Posts.note rfl).trans (.update _ fun f member => ?_)
    exact Outgoing.isAck_of_isSpoken (Outgoing.isSpoken_of_isData (Stream.isData_release _ f member))
  | offended found other => exact .reset _ _
  | hungUp => exact .setStream _

/-- Accepted SETTINGS are adopted and acknowledged. -/
theorem dispatch_settings {params : List Setting} {peer : PeerSettings}
    (allowed : s.peer.applyAll s.version params = .ok peer) :
    dispatch addTask s (.settings false params) =
      ((s.note (.dispatched (.settings false params))).adopt peer).queue (.frame (.settings true [])) 0 := by
  simp [dispatch, onSettings, note, allowed]

/-! ### The order of the line -/

/-- In the line, frames of the connection keep the order in which they were put in, and only what was put in before is
    ahead of them. While the outbox is open, each SETTINGS frame that was adopted has been acknowledged, and no other. -/
structure Ordered (s : Session) : Prop where
  ranked : ∀ e ∈ s.outbox.queue.entries, e.1 = 0 ↔ e.2.isConnectionLevel
  known : ∀ f ∈ s.line, f ∈ s.queued
  all : s.outbox.closed = false → s.line.filter (·.isConnectionLevel) = s.queued.filter (·.isConnectionLevel)
  turn : ∀ front f, front ++ [f] <+: s.line → f.isConnectionLevel →
    ∃ before, before ++ [f] <+: s.queued ∧ (∀ g ∈ front, g ∈ before) ∧
      front.filter (·.isConnectionLevel) = before.filter (·.isConnectionLevel)
  acks : s.outbox.closed = false → s.queued.countP (·.isAck) = s.adopted.length

namespace Ordered

theorem start (version : Version) (config : Config) (handlers : Handlers) (schedule : Schedule)
    (transport : Transport) : (Session.start version config handlers schedule transport).Ordered where
  ranked := nofun
  known := nofun
  all _ := rfl
  turn front f early := by simpa using List.prefix_nil.mp early
  acks _ := rfl

/-- A change that leaves the outbox alone. -/
theorem keep (ordered : s.Ordered) (outbox : t.outbox = s.outbox) (queued : t.queued = s.queued)
    (taken : t.taken = s.taken) (adopted : t.adopted = s.adopted) : t.Ordered := by
  have line : t.line = s.line := by rw [line, outbox, taken, Session.line]
  refine ⟨?_, ?_, ?_, ?_, ?_⟩
  · exact outbox ▸ ordered.ranked
  · rw [line, queued]
    exact ordered.known
  · rw [line, queued, outbox]
    exact ordered.all
  · rw [line, queued]
    exact ordered.turn
  · rw [queued, outbox, adopted]
    exact ordered.acks

theorem still (ordered : s.Ordered) (outbox : t.outbox = s.outbox) (version : t.version = s.version)
    {events : List Event} (journal : t.journal = s.journal ++ events) (still : ∀ e ∈ events, e.isStill) : t.Ordered := by
  have each (e : Event) (member : e ∈ events) : e.Still := Event.still_of_isStill (still e member)
  refine ordered.keep outbox ?_ ?_ ?_
  · rw [queued_append journal, List.filterMap_eq_nil_iff.mpr fun e member => (each e member).queued, List.append_nil]
  · rw [taken_append journal, List.filterMap_eq_nil_iff.mpr fun e member => (each e member).taken, List.append_nil]
  · rw [adopted, version, journal, adoptions_append,
      adoptions_eq_nil fun e member limits => (each e member).adopts s.version limits, List.append_nil]
    rfl

/-- A frame is put into the outbox: behind all frames of the connection, or behind all that is there of its rank. -/
theorem put (ordered : s.Ordered) (f : Outgoing) (priority : Nat) (hopen : s.outbox.closed = false)
    (outbox : t.outbox = s.outbox.push f priority) (queued : t.queued = s.queued ++ [f]) (taken : t.taken = s.taken)
    (acks : t.queued.countP (·.isAck) = t.adopted.length) : t.Ordered := by
  obtain ⟨front, back, split, inserted, -, greater⟩ :=
    Queue.insert_ranked (f.rank priority) f s.outbox.queue.sorted
  have entries : t.outbox.queue.entries = front ++ (f.rank priority, f) :: back := by
    rw [outbox, Outbox.entries_push hopen, inserted]
  have still : t.outbox.closed = false := by
    rw [outbox, Outbox.push]
    split <;> exact hopen
  obtain ⟨head, old, new⟩ : ∃ head, s.line = head ++ back.map (·.2) ∧ t.line = head ++ f :: back.map (·.2) :=
    ⟨s.taken ++ front.map (·.2), by simp [line, Queue.toList_eq, split], by simp [line, Queue.toList_eq, entries, taken]⟩
  have ranked := ordered.ranked
  rw [split] at ranked
  -- Behind the new frame stand only frames of a greater rank, none of the connection.
  have low : ∀ g ∈ back.map (·.2), g.isConnectionLevel = false := List.forall_mem_map.mpr fun e member => by
    refine Bool.eq_false_iff.mpr fun level => Nat.not_lt_zero (f.rank priority) ?_
    exact (ranked e (List.mem_append_right _ member)).mpr level ▸ greater e member
  have tail : (back.map (·.2)).filter (·.isConnectionLevel) = [] :=
    List.filter_eq_nil_iff.mpr fun g member => by simp [low g member]
  have all : head.filter (·.isConnectionLevel) = s.queued.filter (·.isConnectionLevel) := by
    rw [← ordered.all hopen, old, List.filter_append, tail, List.append_nil]
  have known := ordered.known
  rw [old] at known
  refine ⟨fun e member => ?_, ?_, fun _ => ?_, fun early g before level => ?_, fun _ => acks⟩
  · rw [entries] at member
    rcases List.mem_cons.mp (List.perm_middle.mem_iff.mp member) with rfl | earlier
    · exact Outgoing.rank_eq_zero_iff
    · exact ranked e earlier
  · rw [new, queued]
    intro g member
    rcases List.mem_cons.mp (List.perm_middle.mem_iff.mp member) with rfl | earlier
    · exact List.mem_append_right _ (List.mem_singleton_self g)
    · exact List.mem_append_left _ (known g earlier)
  · rw [new, queued, List.filter_append, List.filter_append, ← all, List.filter_cons, tail, List.filter_cons,
      List.filter_nil]
  -- A front of the new line ends before the new frame, with it, or behind it.
  · rw [new] at before
    rw [queued]
    rcases prefix_insert before with earlier | ⟨rfl, rfl⟩ | later
    · obtain ⟨put, order, fewer, same⟩ :=
        ordered.turn early g (old ▸ earlier.trans (List.prefix_append ..)) level
      exact ⟨put, order.trans (List.prefix_append ..), fewer, same⟩
    · exact ⟨s.queued, List.prefix_refl _, fun g member => known g (List.mem_append_left _ member), all⟩
    · exact absurd level (Bool.eq_false_iff.mp (low g later))

theorem post (ordered : s.Ordered) (h : Post s t) : t.Ordered := by
  cases h with
  | beside outbox version journal =>
    obtain ⟨events, journal, still⟩ := journal
    exact ordered.still outbox version journal still
  | @put f plain priority hopen outbox version journal =>
    have queued : t.queued = s.queued ++ [f] := queued_append journal
    have taken : t.taken = s.taken := (taken_append journal).trans (List.append_nil _)
    have adopted : t.adopted = s.adopted := by
      rw [adopted, version, journal, adoptions_append]
      exact List.append_nil _
    refine ordered.put f priority hopen outbox queued taken ?_
    rw [queued, adopted, List.countP_append, List.countP_singleton, plain]
    exact ordered.acks hopen

theorem posts (ordered : s.Ordered) (h : Posts s t) : t.Ordered := by
  induction h with
  | refl => exact ordered
  | tail _ last ih => exact ih.post last

/-- The frame that is next is taken out of the outbox. -/
theorem took (ordered : s.Ordered) {f : Outgoing} {outbox : Outbox} (next : s.outbox.pop? = some (f, outbox))
    (table : Hpack.Table) : (note { s with outbox, sendTable := table } (.taken f)).Ordered := by
  obtain ⟨rank, entries, closed⟩ := of_pop? next
  let t := note { s with outbox, sendTable := table } (.taken f)
  have journal : t.journal = s.journal ++ [.taken f] := rfl
  have queued : t.queued = s.queued := (queued_append journal).trans (List.append_nil _)
  have line : t.line = s.line := by
    rw [Session.line, taken_append journal, Session.line]
    simp [t, note, Queue.toList_eq, entries, Event.taken?]
  have adopted : t.adopted = s.adopted := by
    rw [adopted, journal]
    exact (adoptions_append ..).trans (List.append_nil _)
  have ranked := ordered.ranked
  rw [entries] at ranked
  refine ⟨fun e member => ranked e (List.mem_cons_of_mem _ member), ?_, fun hopen => ?_, ?_, fun hopen => ?_⟩
  · rw [line, queued]
    exact ordered.known
  · rw [line, queued]
    exact ordered.all (closed ▸ hopen)
  · rw [line, queued]
    exact ordered.turn
  · rw [queued, adopted]
    exact ordered.acks (closed ▸ hopen)

theorem close (ordered : s.Ordered) : ({ s with outbox := s.outbox.close } : Session).Ordered := by
  have line : ({ s with outbox := s.outbox.close } : Session).line <+: s.line := by
    simp only [Session.line, Outbox.close]
    exact (List.append_nil s.taken).symm ▸ List.prefix_append ..
  exact ⟨nofun, fun f member => ordered.known f (line.subset member), nofun,
    fun front f early level => ordered.turn front f (early.trans line) level, nofun⟩

/-- Limits are adopted and acknowledged. -/
theorem acknowledged (ordered : s.Ordered) (hopen : s.outbox.closed = false) {frame : Frame} {peer : PeerSettings}
    (adopts : (s.note (.dispatched frame)).adopted = s.adopted ++ [peer])
    (outbox : t.outbox = s.outbox.push (.frame (.settings true [])) 0) (version : t.version = s.version)
    (journal : t.journal = s.journal ++ [.dispatched frame, .queued (.frame (.settings true []))]) : t.Ordered := by
  have queued : t.queued = s.queued ++ [.frame (.settings true [])] := queued_append journal
  have adopted : t.adopted = s.adopted ++ [peer] := by
    rw [← adopts, Session.adopted, version, journal, List.append_cons]
    exact (adoptions_append ..).trans (List.append_nil _)
  refine ordered.put _ 0 hopen outbox queued ((taken_append journal).trans (List.append_nil _)) ?_
  rw [queued, adopted, List.countP_append, List.length_append, ordered.acks hopen]
  rfl

/-- A frame of the peer is dispatched: its limits are adopted and acknowledged, or neither. -/
theorem dispatched (ordered : s.Ordered) (limits : s.peer = limitsAfter s.version s.journal)
    (hopen : s.outbox.closed = false) (frame : Frame) : (dispatch addTask s frame).Ordered := by
  -- Whether the frame brings limits is read off the peer's limits that hold so far.
  have adopted : (s.note (.dispatched frame)).adopted =
      s.adopted ++ ((Event.dispatched frame).adopts? s.version s.peer).toList := by
    rw [limits]
    exact (adoptions_append ..).trans (congrArg _ (List.append_nil _))
  cases adopts : (Event.dispatched frame).adopts? s.version s.peer with
  | none =>
    rw [adopts] at adopted
    have noted : (s.note (.dispatched frame)).Ordered :=
      ordered.keep rfl ((queued_append rfl).trans (List.append_nil _)) ((taken_append rfl).trans (List.append_nil _))
        (adopted.trans (List.append_nil _))
    have looked := noted.posts (t := { s.note (.dispatched frame) with receiveTable := s.tableAfter frame })
      (.of_journal rfl rfl rfl)
    exact looked.posts ((effect_dispatch s frame).posts adopts)
  | some peer =>
    obtain ⟨params, rfl⟩ : ∃ params, frame = .settings false params := by
      cases frame with
      | settings ack params =>
        cases ack with
        | false => exact ⟨params, rfl⟩
        | true => cases adopts
      | _ => cases adopts
    have allowed : s.peer.applyAll s.version params = .ok peer := by
      cases applied : s.peer.applyAll s.version params with
      | ok limits => simpa [Event.adopts?, applied, Except.toOption] using adopts
      | error => simp [Event.adopts?, applied, Except.toOption] at adopts
    rw [adopts] at adopted
    rw [dispatch_settings allowed,
      queue_of_open (s := (s.note (.dispatched (.settings false params))).adopt peer) hopen]
    exact ordered.acknowledged hopen adopted rfl rfl (List.append_assoc ..)

theorem advance (ordered : s.Ordered) (h : Advance s t) (stable : s.Stable) : t.Ordered := by
  cases h with
  | moved h => exact ordered.posts h.posts
  | began => exact ordered.posts (.before (t := { s with status := .running }) (.write ..) rfl rfl rfl)
  | polled => exact ordered.posts (.note rfl)
  | counted | arrived | pruned | gone | finished => exact ordered.posts (.of_journal rfl rfl rfl)
  | @read running wait status reader fed =>
    exact ordered.posts (.before (t := { s with reader }) (.note rfl) rfl rfl rfl)
  | @dispatched running frame reader next =>
    have fed : ({ s with reader } : Session).Ordered := ordered.posts (.of_journal rfl rfl rfl)
    exact fed.dispatched stable.limits (stable.running running).1 frame
  | wentAway => exact ordered.posts (.sendGoAway _)
  | wrote running next => exact (ordered.took next _).posts (.writeAll _ _)
  | closed => exact ordered.close.posts (.of_journal rfl rfl rfl)
  | halted =>
    exact ordered.posts (.before (t := { s with executor := s.executor.stop.1 }) (.foldl_cancel ..) rfl rfl rfl)

end Ordered

end Session

end Multiplex
