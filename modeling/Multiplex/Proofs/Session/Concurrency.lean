import Multiplex.Proofs.Session.Breaches
import Multiplex.Proofs.Session.Closing

/-! # How many streams go on

A session lets as many streams of the peer go on as its configuration says. It counts the ones it looks after; but a
stream that is over stays among those until they are looked through, and pushed streams are among them, too. The streams
that matter (`Session.engaged`) are those that the peer opened and that are not over. They are the ones counted, at
every moment, so that a new stream is turned away just if there are as many as allowed. -/

namespace Multiplex.Session

variable {s t : Session}

/-- The streams that the peer opened and that are not over, whether or not the session still looks after them. -/
def engaged (s : Session) : List Nat :=
  (s.opened false).filter fun id => (s.stream? id).any fun stream => !stream.finalReleased && !stream.aborted

theorem mem_engaged {id : Nat} :
    id ∈ s.engaged ↔ id ∈ s.opened false ∧ ∃ stream, s.stream? id = some stream ∧ stream.isActive := by
  simp [engaged, Stream.isActive, Option.any_eq_true]

/-! ### What opens streams of the peer -/

/-- Events that open no stream leave those that were opened. -/
theorem opened_of_none {events : List Event} (journal : t.journal = s.journal ++ events)
    (none : ∀ e ∈ events, e.opening? = none) (pushed : Bool) : t.opened pushed = s.opened pushed := by
  rw [opened_append journal, List.filterMap_eq_nil_iff.mpr none]
  exact List.append_nil _

theorem Ordinary.opened (change : Ordinary s t) (pushed : Bool) : t.opened pushed = s.opened pushed := by
  obtain ⟨events, journal, ordinary⟩ := change.journal
  exact opened_of_none journal (fun e member => (Event.isPlain_of_isOrdinary (ordinary e member)).opening) pushed

@[simp] theorem opened_queue (s : Session) (f : Outgoing) (priority : Nat) (pushed : Bool) :
    (s.queue f priority).opened pushed = s.opened pushed := by
  unfold queue
  split
  · rfl
  · exact opened_of_none rfl (List.forall_mem_singleton.mpr rfl) pushed

theorem opened_sendGoAway (s : Session) (code : ErrorCode) (pushed : Bool) :
    (s.sendGoAway code).opened pushed = s.opened pushed := by
  unfold sendGoAway
  split
  · rfl
  · exact opened_queue ..

/-- A frame opens a stream of the peer only if there is room for it. -/
theorem Effect.opened_peer {decoded : Except Hpack.Fault (List Header)} {frame : Frame} (h : Effect s decoded frame t)
    (idle : s.executor.stopped = false) (fresh : ∀ id, s.isFresh id → s.stream? id = none) :
    t.opened false = s.opened false ∨
      ∃ id, t.opened false = s.opened false ++ [id] ∧ s.peerCount < s.config.maxStreams.toNat := by
  cases h with
  | passed | left | crashed => exact .inl rfl
  | breach => exact .inl (opened_sendGoAway s _ false)
  | answered | adopted | turnedAway => exact .inl (opened_queue ..)
  | trailed | received => exact .inl (opened_of_none rfl (List.forall_mem_singleton.mpr rfl) false)
  | granted found positive fits => exact .inl ((Ordinary.grant found fits).opened false)
  | offended found other => exact .inl ((Ordinary.reset _ other).opened false)
  | hungUp => exact .inl ((Ordinary.setStream _).opened false)
  | @opened id block final priority flags staying odd new room rank list read =>
    have unused : s.stream? (s.newStream id 0 rank).id = none := fresh id (isFresh_of_odd odd new)
    have added := addTask_addStream (s := { s with lastPeer := id }) unused rfl idle list final
    exact .inr ⟨id, opened_append (congrArg Session.journal added) false, room⟩

theorem Advance.opened_peer (h : Advance s t) (stable : s.Stable) (fresh : s.Fresh) (numbered : s.Numbered) :
    t.opened false = s.opened false ∨
      ∃ id, t.opened false = s.opened false ++ [id] ∧ s.peerCount < s.config.maxStreams.toNat := by
  rcases h.ordinary with ordinary | special
  · exact .inl (ordinary.opened false)
  cases special with
  | promised list priority found allowed =>
    obtain ⟨idle, unused⟩ := stable.unused fresh allowed
    obtain ⟨new, -, -, added⟩ := addTask_promise allowed idle unused list priority
    have own := bne_iff_ne.mpr (numbered.stream_ne_zero found)
    rw [added, own]
    exact .inl ((opened_append (s := s) rfl false).trans (List.append_nil _))
  | @dispatched running frame reader next =>
    obtain ⟨hopen, idle⟩ := stable.running running
    have silent : (noted { s with reader } frame).opened false = s.opened false :=
      opened_of_none (s := s) rfl (List.forall_mem_singleton.mpr rfl) false
    rw [← silent]
    exact (effect_dispatch { s with reader } frame).opened_peer idle fun id unused => (fresh id unused).stream
  | wentAway running code => exact .inl (opened_sendGoAway s code false)

/-! ### Counting -/

section Reached
variable {version : Version} {config : Config} {handlers : Handlers} {schedule : Schedule} {transport : Transport}
  (h : Reaches (start version config handlers schedule transport) s)
include h

/-- A stream is one that the peer opened if it goes with no other. -/
theorem opened_peer_iff {id : Nat} :
    id ∈ s.opened false ↔ ∃ stream, s.stream? id = some stream ∧ stream.isPushed = false := by
  have numbered := numbered_start h
  have opening {stream : Stream} (found : s.stream? id = some stream) : (id, stream.isPushed) ∈ s.openings :=
    List.mem_filterMap.mpr ⟨_, (follows_start h found).opened, rfl⟩
  constructor
  · intro member
    obtain ⟨⟨same, own⟩, inside, rfl⟩ := List.mem_map.mp member
    obtain ⟨inside, peer⟩ := List.mem_filter.mp inside
    obtain rfl : own = false := by simpa using peer
    have there : same ∈ s.streams.map (·.id) := numbered.ids ▸ List.mem_map_of_mem inside
    obtain ⟨stream, listed, rfl⟩ := List.mem_map.mp there
    have found := stream?_of_mem numbered.nodup_ids listed
    refine ⟨stream, found, ?_⟩
    exact (Prod.mk.inj (List.inj_on_of_nodup_map numbered.nodup (opening found) inside rfl)).2
  · rintro ⟨stream, found, peer⟩
    have inside := opening found
    exact List.mem_map.mpr ⟨_, List.mem_filter.mpr ⟨inside, by simp [peer]⟩, rfl⟩

/-- A stream goes on being engaged until its last frame has been released or it is aborted. -/
theorem engaged_iff {id : Nat} {stream : Stream} (found : s.stream? id = some stream) :
    id ∈ s.engaged ↔ stream.isPushed = false ∧ stream.finalReleased = false ∧ stream.aborted = false := by
  simp [mem_engaged, opened_peer_iff h, found, Stream.isActive]

/-- The streams that the session counts are those that matter. -/
theorem peerCount_start : s.peerCount = s.engaged.length := by
  have numbered := numbered_start h
  have distinct : (s.streams.map (·.id)).Nodup := numbered.ids ▸ numbered.nodup
  let counted := s.listedStreams.filter fun stream => stream.isActive && !stream.isPushed
  have counts : s.peerCount = (counted.map (·.id)).length := by
    rw [List.length_map]
    exact List.countP_eq_length_filter
  rw [counts]
  refine (((List.perm_ext_iff_of_nodup ?_ ?_).mpr fun id => ?_)).length_eq
  · exact distinct.sublist ((List.filter_sublist.trans List.filter_sublist).map _)
  · exact ((numbered.nodup.sublist (List.filter_sublist.map _)).sublist List.filter_sublist)
  · constructor
    · intro member
      obtain ⟨stream, inside, rfl⟩ := List.mem_map.mp member
      obtain ⟨listed, goes⟩ := List.mem_filter.mp inside
      have found := stream?_of_mem distinct (List.mem_filter.mp listed).1
      exact (engaged_iff h found).mpr (by simpa [Stream.isActive, and_comm] using goes)
    · intro member
      obtain ⟨-, stream, found, active⟩ := mem_engaged.mp member
      obtain ⟨peer, -⟩ := (engaged_iff h found).mp member
      have own := id_of_stream? found
      have listed : s.listed.contains id = true :=
        ((steps_start h id).orderly (Lane.orderly_empty id)).listed stream found active
      have inside : stream ∈ s.listedStreams :=
        List.mem_filter.mpr ⟨List.mem_of_find?_eq_some found, by rwa [own]⟩
      exact List.mem_map.mpr ⟨stream, List.mem_filter.mpr ⟨inside, by simp [active, peer]⟩, own⟩

/-- A stream that is over does not go on again, so only a stream that is opened may add to those that go on. -/
theorem engaged_advance (last : Advance s t) {fresh : List Nat} (opened : t.opened false = s.opened false ++ fresh) :
    t.engaged.length ≤ s.engaged.length + fresh.length := by
  have followed := followed_start h
  have ages (id : Nat) (member : id ∈ s.opened false)
      (active : (t.stream? id).any fun stream => !stream.finalReleased && !stream.aborted) :
      (s.stream? id).any fun stream => !stream.finalReleased && !stream.aborted := by
    obtain ⟨stream, found, -⟩ := (opened_peer_iff h).mp member
    obtain ⟨later, found', ages⟩ :=
      (last.lanes followed.stable followed.fresh id).ages (followed.fresh id) found
    have same : t.stream? id = some later := found'
    have still := ages.active (by simpa [same, Stream.isActive] using active)
    simpa [found, Stream.isActive] using still
  simp only [engaged, opened, List.filter_append, List.length_append, ← List.countP_eq_length_filter]
  exact Nat.add_le_add (List.countP_mono_left ages) List.countP_le_length

theorem engaged_le : s.engaged.length ≤ config.maxStreams.toNat := by
  refine h.keeps_from (P := fun s => s.engaged.length ≤ config.maxStreams.toNat) (Nat.zero_le _)
    fun {u v} earlier last bound => ?_
  have followed := followed_start earlier
  rcases last.opened_peer followed.stable followed.fresh (numbered_start earlier) with none | ⟨id, one, room⟩
  · exact Nat.le_trans (engaged_advance earlier last (none.trans (List.append_nil _).symm)) bound
  · rw [peerCount_start earlier, followed.config] at room
    exact Nat.le_trans (engaged_advance earlier last one) room

end Reached

/-! ### New streams -/

/-- A HEADERS frame rightly asks for a new stream: the end has not been announced, the number is odd and greater
    than all that the peer has tried, the flags are known, and its block can be read. -/
structure Asks (s : Session) (id : Nat) (block : Bytes) (flags : UInt8) (list : List Header) : Prop where
  staying : s.goAwaySent = false
  odd : id % 2 = 1
  new : ∀ earlier ∈ s.attempts, earlier < id
  known : flags &&& ~~~Flag.allowedOnHeaders = 0
  read : (Header.decodeBlock s.receiveTable block).2 = .ok list

/-- A stream that is turned away leaves nothing but its number and the frame that says so. -/
theorem openStream_of_full (hopen : s.outbox.closed = false) (full : s.config.maxStreams.toNat ≤ s.peerCount)
    (launch : Nat → Session → Session) (id rank : Nat) (list : List Header) (final : Bool) :
    openStream launch s id rank list final =
      { s with
        lastPeer := id, outbox := s.outbox.push (.frame (.reset id ErrorCode.refusedStream)) rank,
        journal := s.journal ++ [.queued (.frame (.reset id ErrorCode.refusedStream))] } := by
  have counted : ({ s with lastPeer := id } : Session).peerCount = s.peerCount := rfl
  rw [openStream, counted, if_pos full]
  exact queue_of_open (s := { s with lastPeer := id }) hopen _ rank

/-- A stream that is opened has its task added, and then tasks take their steps. -/
theorem openStream_of_room {id : Nat} (unused : s.stream? id = none) (idle : s.executor.stopped = false)
    (room : s.peerCount < s.config.maxStreams.toNat) (rank : Nat) (list : List Header) (final : Bool) :
    Moves
      { s with
        lastPeer := id, streams := s.streams ++ [(s.newStream id 0 rank).acceptHeaders list final],
        listed := s.listed ++ [id], executor := s.executor.enqueue rank id,
        journal := s.journal ++ [.accepted id (.headers list final), .opened id 0 rank false] }
      (openStream spawn s id rank list final) := by
  have counted : ({ s with lastPeer := id } : Session).peerCount = s.peerCount := rfl
  have unused : s.stream? (s.newStream id 0 rank).id = none := unused
  have added := addTask_addStream (s := { s with lastPeer := id }) unused rfl idle list final
  rw [openStream, counted, if_neg (Nat.not_le_of_lt room)]
  exact Eq.subst (motive := (Moves · _)) added (launches_spawn id _)

section Asked
variable {version : Version} {config : Config} {handlers : Handlers} {schedule : Schedule} {transport : Transport}
  (h : Reaches (start version config handlers schedule transport) s)
  {id : Nat} {block : Bytes} {flags : UInt8} {list : List Header}
include h

theorem Asks.lastPeer_lt (asks : s.Asks id block flags list) : s.lastPeer < id := by
  rw [(numbered_start h).last]
  rcases List.eq_nil_or_concat s.attempts with none | ⟨front, last, split⟩
  · have odd := asks.odd
    rw [none, List.getLastD_nil]
    omega
  · rw [split, List.concat_eq_append, List.getLastD_concat]
    exact asks.new last (by simp [split])

theorem Asks.unused (asks : s.Asks id block flags list) : s.stream? id = none :=
  ((followed_start h).fresh id (isFresh_of_odd (by simp [asks.odd]) (asks.lastPeer_lt h))).stream

/-- All that such a frame depends on further is how many streams go on. -/
theorem dispatch_of_asks (asks : s.Asks id block flags list) (launch : Nat → Session → Session)
    (reader : Frame.Reader) (final : Bool) (priority : Option Dependency) :
    let frame := Frame.headers id block final priority flags
    dispatch launch { s with reader } frame =
      openStream launch ({ s with reader }.noted frame) id (priority.elim Priority.lowest (Priority.ofWeight ·.weight))
        list final := by
  intro frame
  have unlisted : ({ s with reader }.noted frame).listed? id = none := by
    show (if s.listed.contains id then s.stream? id else none) = none
    rw [asks.unused h, ite_self]
  have decoded : { s with reader }.decodedIn frame = .ok list := asks.read
  have allowed : ¬ (id % 2 = 0 ∨ id ≤ s.lastPeer ∨ flags &&& ~~~Flag.allowedOnHeaders ≠ 0) := by
    rintro (even | old | strange)
    · exact absurd even (by simp [asks.odd])
    · exact absurd (asks.lastPeer_lt h) (Nat.not_lt_of_le old)
    · exact strange asks.known
  have staying : ¬ ({ s with reader }.noted frame).goAwaySent = true := by
    show ¬ s.goAwaySent = true
    simp [asks.staying]
  rw [dispatch_headers launch (by rw [decoded]; nofun)]
  unfold onDecoded
  rw [unlisted, decoded]
  dsimp only
  rw [if_neg staying]
  exact if_neg allowed

/-- At every moment of every session, at most as many streams of the peer go on as the configuration allows,
    whatever becomes of pushed streams; and these are the streams that the session counts. A stream of the peer
    counts until its last frame has been released or it is aborted, and no longer, even if the session still looks
    after it. When a HEADERS frame rightly asks for a new stream and no more may go on, all that comes of it is one
    RST_STREAM that refuses it: its number is used up and the table has seen its block. If one more may go on, the
    stream is opened and its task is added, and all that happens then is that tasks take their steps. -/
theorem concurrency_limit :
    s.engaged.length ≤ config.maxStreams.toNat ∧ s.peerCount = s.engaged.length ∧
    (∀ id stream, s.stream? id = some stream →
      (id ∈ s.engaged ↔ stream.isPushed = false ∧ stream.finalReleased = false ∧ stream.aborted = false)) ∧
    ∀ id block final priority flags list reader, s.status = .running → s.Asks id block flags list →
      let frame := Frame.headers id block final priority flags
      let t := dispatch spawn { s with reader } frame
      let rank := priority.elim Priority.lowest (Priority.ofWeight ·.weight)
      (config.maxStreams.toNat ≤ s.engaged.length →
        t = { s with
          reader, lastPeer := id, receiveTable := s.tableAfter frame,
          outbox := s.outbox.push (.frame (.reset id ErrorCode.refusedStream)) rank,
          journal := s.journal ++ [.dispatched frame, .queued (.frame (.reset id ErrorCode.refusedStream))] }) ∧
      (s.engaged.length < config.maxStreams.toNat →
        Moves
          { s with
            reader, lastPeer := id, receiveTable := s.tableAfter frame,
            streams := s.streams ++ [(s.newStream id 0 rank).acceptHeaders list final], listed := s.listed ++ [id],
            executor := s.executor.enqueue rank id,
            journal := s.journal ++
              [.dispatched frame, .accepted id (.headers list final), .opened id 0 rank false] } t ∧
        (∃ events, t.journal = s.journal ++ .dispatched frame :: .accepted id (.headers list final) ::
          .opened id 0 rank false :: events) ∧
        t.lastPeer = id ∧ t.goAwaySent = false ∧ t.receiveTable = s.tableAfter frame) := by
  refine ⟨engaged_le h, peerCount_start h, fun id stream => engaged_iff h, ?_⟩
  intro id block final priority flags list reader running asks frame t rank
  have followed := followed_start h
  obtain ⟨hopen, idle⟩ := followed.stable.running running
  let u : Session := { s with reader }.noted frame
  have opens : t = openStream spawn u id rank list final := dispatch_of_asks h asks spawn reader final priority
  -- The count is that of the moment at which the frame arrives; looking at the frame leaves it alone.
  have counted : u.peerCount = s.engaged.length := peerCount_start h
  have limit : u.config.maxStreams = config.maxStreams := congrArg Config.maxStreams followed.config
  have together (events : List Event) : u.journal ++ events = s.journal ++ .dispatched frame :: events :=
    List.append_assoc ..
  rw [← counted, ← limit, opens]
  constructor
  · intro full
    rw [openStream_of_full (s := u) hopen full, together]
    rfl
  · intro room
    have moves := openStream_of_room (s := u) (asks.unused h) idle room rank list final
    have kept := moves.kept
    rw [together] at moves
    obtain ⟨events, journal, -⟩ := kept.journal
    refine ⟨moves, ⟨events, ?_⟩, ?_, ?_, ?_⟩
    · rw [journal, together, List.append_assoc]
      rfl
    · rw [kept.rest]
    · rw [kept.rest]
      exact asks.staying
    · rw [kept.rest]
      rfl

end Asked

/-- A session that takes one stream at a time. The handler of the peer's stream pushes another, which never ends,
    and ends its own at the next poll. -/
def cramped : Session :=
  start .spdy3 { maxStreams := 1 }
    { others := [.act (.push [] 0), .yield, .act (.headers [] true)], pushed := some [.await] }
    .atOnce { arrivals := [{ bytes := (Frame.headers 1 [] true none 0).encode 1 }] }

/-- While the peer's stream goes on another is turned away. Once it has ended the other is accepted, though the
    session still looks after the first one, and a pushed stream goes on. -/
theorem concurrency_limit_cramped :
    ∃ s t, Reaches cramped s ∧ Reaches s t ∧ s.engaged = [1] ∧ t.engaged = [] ∧ t.listed = [1, 2] ∧
      let frame := Frame.headers 3 [] true none 0
      let refusal := Outgoing.frame (.reset 3 ErrorCode.refusedStream)
      (dispatch spawn s frame).journal = s.journal ++ [.dispatched frame, .queued refusal] ∧
        (dispatch spawn s frame).streams = s.streams ∧
        ∃ events, (dispatch spawn t frame).journal = t.journal ++ .dispatched frame :: .accepted 3 (.headers [] true) ::
          .opened 3 0 Priority.lowest false :: events := by
  have began : Reaches cramped _ := .single (.began rfl)
  set s := { cramped with status := .running }.write _ .initialWriteFailed
  obtain ⟨u, v, reached, later, running, running', asks, asks', one, none, both⟩ :
      ∃ u v, Reaches cramped u ∧ Reaches u v ∧ u.status = .running ∧ v.status = .running ∧ u.Asks 3 [] 0 [] ∧
        v.Asks 3 [] 0 [] ∧ u.engaged = [1] ∧ v.engaged = [] ∧ v.listed = [1, 2] := by
    have running : s.status = .running := by decide +kernel
    have going : s.round.status = .running := by decide +kernel
    refine ⟨s.round, s.round.poll, began.trans ((reaches_poll running).1.trans (reaches_round running)),
      (reaches_poll going).1, going, (reaches_poll going).2, ?_, ?_, by decide +kernel, by decide +kernel,
      by decide +kernel⟩
    · exact ⟨by decide +kernel, rfl, by decide +kernel, by decide, by decide +kernel⟩
    · exact ⟨by decide +kernel, rfl, by decide +kernel, by decide, by decide +kernel⟩
  obtain ⟨-, -, -, first⟩ := concurrency_limit reached
  obtain ⟨-, -, -, second⟩ := concurrency_limit (reached.trans later)
  obtain ⟨full, -⟩ := first 3 [] true .none 0 [] u.reader running asks
  obtain ⟨-, room⟩ := second 3 [] true .none 0 [] v.reader running' asks'
  have refused := full (by rw [one]; decide)
  obtain ⟨-, accepted, -⟩ := room (by rw [none]; decide)
  exact ⟨u, v, reached, later, one, none, both, (congrArg Session.journal refused :),
    (congrArg Session.streams refused :), accepted⟩

end Multiplex.Session
