import Multiplex.Proofs.Session.Interleavings
import Multiplex.Proofs.Session.Promises

/-! # Promises on the wire

What precedes a PUSH_PROMISE frame on the wire was put into the outbox before the promise was (`promise_seen`). So no
frame of the promised stream precedes it, and no GOAWAY; and the acknowledgements that precede it are those of the
limits that were in force then. -/

namespace Multiplex

open Relation (ReflTransGen)
open Multiplex.Frame (Kind)

theorem filter_eq_singleton {α : Type} {p : α → Bool} {list : List α} {item : α} (member : item ∈ list)
    (holds : p item) (once : list.countP p = 1) : list.filter p = [item] := by
  rw [List.countP_eq_length_filter] at once
  obtain ⟨only, single⟩ := List.length_eq_one_iff.mp once
  have here : item ∈ list.filter p := List.mem_filter.mpr ⟨member, holds⟩
  rw [single] at here ⊢
  rw [List.mem_singleton.mp here]

/-- What comes first among the values of a list comes from what is first in the list. -/
theorem prefix_filterMap {α β : Type} {f : α → Option β} {list : List α} {front : List β} {value : β}
    (early : front ++ [value] <+: list.filterMap f) :
    ∃ before item, before ++ [item] <+: list ∧ f item = some value ∧ before.filterMap f = front := by
  obtain ⟨back, split⟩ := early
  rw [List.append_assoc] at split
  obtain ⟨first, others, rfl, first', others'⟩ := List.filterMap_eq_append_iff.mp split.symm
  obtain ⟨none, item, rest, rfl, nothing, some, -⟩ := List.filterMap_eq_cons_iff.mp others'
  refine ⟨first ++ none, item, ⟨rest, by simp⟩, some, ?_⟩
  rw [List.filterMap_append, first', List.filterMap_eq_nil_iff.mpr nothing, List.append_nil]

namespace Session

variable {s t u : Session}

/-! ### One push -/

theorem countP_opens (s : Session) (id : Nat) : s.journal.countP (·.opens id) = (s.openings.map (·.1)).count id := by
  rw [openings, List.map_filterMap, List.count_filterMap]
  refine List.countP_congr fun e _ => ?_
  cases e with
  | opened => simp [Event.opens, Event.opening?]
  | _ => simp [Event.opens, Event.opening?]

namespace Pledged

/-- The next push has not been promised, and nothing is there of its stream. -/
theorem unpromised (pledged : s.Pledged) (sane : s.Sane) :
    (∀ f ∈ s.queued, f.promised? ≠ some s.nextPush) ∧ s.stream? s.nextPush = none ∧
      ∀ e ∈ s.journal, e.opens s.nextPush = false := by
  have blank := sane.fresh s.nextPush (by simp [isFresh, sane.stable.pushes.1])
  refine ⟨fun f member promised => ?_, blank.stream, fun e member => Bool.eq_false_iff.mpr fun opens => ?_⟩
  · have known : s.nextPush ∈ s.opened true := pledged.promised ▸ List.mem_filterMap.mpr ⟨f, member, promised⟩
    obtain ⟨count, pushes, next⟩ := pledged.numbered.pushes
    obtain ⟨k, less, same⟩ := List.mem_range'.mp (pushes ▸ known)
    omega
  · have here : e ∈ (s.lane s.nextPush).past :=
      List.mem_filter.mpr ⟨member, by simp [Event.about_of_opens opens]⟩
    cases e with
    | opened => cases blank.past _ here
    | _ => cases opens

/-- A push that has been started has made one promise, one stream and one task, whatever its task has done since. -/
theorem once (pledged : t.Pledged) {id parent rank : Nat} {list : List Header}
    (promised : .queued (.pushPromise parent id list) ∈ t.journal) (opened : .opened id parent rank true ∈ t.journal) :
    t.queued.filter (·.promised? == some id) = [.pushPromise parent id list] ∧
      (t.streams.map (·.id)).count id = 1 ∧ t.journal.filter (·.opens id) = [.opened id parent rank true] := by
  have queued : .pushPromise parent id list ∈ t.queued := List.mem_filterMap.mpr ⟨_, promised, rfl⟩
  have opening : (id, true) ∈ t.openings := List.mem_filterMap.mpr ⟨_, opened, rfl⟩
  have one : (t.openings.map (·.1)).count id = 1 :=
    List.count_eq_one_of_mem pledged.numbered.nodup (List.mem_map.mpr ⟨_, opening, rfl⟩)
  have own : id ∈ t.opened true := List.mem_map.mpr ⟨_, List.mem_filter.mpr ⟨opening, rfl⟩, rfl⟩
  refine ⟨filter_eq_singleton queued (by simp [Outgoing.promised?]) ?_, ?_,
    filter_eq_singleton opened (by simp [Event.opens]) ?_⟩
  · obtain ⟨count, pushes, -⟩ := pledged.numbered.pushes
    have distinct : (t.opened true).Nodup := pushes ▸ List.nodup_range' 2
    rw [← List.count_filterMap, show t.queued.filterMap Outgoing.promised? = _ from pledged.promised]
    exact List.count_eq_one_of_mem distinct own
  · rw [pledged.numbered.ids]
    exact one
  · rw [countP_opens]
    exact one

/-- A push that is allowed hands the task of its stream to the executor. -/
theorem started (pledged : s.Pledged) (sane : s.Sane) {i : Nat} {stream : Stream} (found : s.stream? i = some stream)
    (allowed : s.pushError? stream = none) (list : List Header) (priority : Nat) :
    ∃ rank, (addTask s.nextPush (s.promise stream list priority)).executor = s.executor.enqueue rank s.nextPush ∧
      .queued (.pushPromise stream.id s.nextPush list) ∈
        (addTask s.nextPush (s.promise stream list priority)).journal ∧
      .opened s.nextPush stream.id rank true ∈ (addTask s.nextPush (s.promise stream list priority)).journal := by
  obtain ⟨idle, unused⟩ := sane.stable.unused sane.fresh allowed
  have child : (stream.id != 0) = true := bne_iff_ne.mpr (pledged.numbered.stream_ne_zero found)
  obtain ⟨new, -, -, added⟩ := addTask_promise allowed idle unused list priority
  rw [added, child]
  exact ⟨new.priority, rfl, by simp, by simp⟩

/-- What is taken out of the outbox before a promise was put in before it, and so were all acknowledgements that
    were put in before it. -/
theorem promise_taken (pledged : t.Pledged) {before : List Outgoing} {parent promised : Nat} {list : List Header}
    (taken : before ++ [.pushPromise parent promised list] <+: t.taken) :
    ∃ early, early <+: t.journal ∧ Promisable t.version early promised ∧
      (∀ f ∈ before, f ∈ early.filterMap Event.queued?) ∧
      before.countP (·.isAck) = (early.filterMap Event.queued?).countP (·.isAck) := by
  obtain ⟨put, queued, fewer, same⟩ := pledged.ordered.turn _ _ (taken.trans (List.prefix_append ..)) rfl
  obtain ⟨early, event, journal, names, rfl⟩ := prefix_filterMap queued
  obtain rfl := Event.eq_of_queued? names
  refine ⟨early, (List.prefix_append ..).trans journal, pledged.chronicle early _ journal, fewer, ?_⟩
  rw [Outgoing.countP_isAck, same, ← Outgoing.countP_isAck]

end Pledged

/-! ### Promises in their turn -/

section Reached
variable {version : Version} {config : Config} {handlers : Handlers} {schedule : Schedule} {transport : Transport}

theorem pledged_start (h : Outlives (start version config handlers schedule transport) t) : t.Pledged :=
  (Pledged.start ..).outlives (sane_start version config handlers schedule transport) h

theorem sent_marked (h : Reaches (start version config handlers schedule transport) t) :
    ∃ sent : List (Outgoing × List Bytes), sent.map (·.1) = t.opening :: t.taken ∧
      (∀ e ∈ sent, e.1.isPlain ∧ e.1.SeenAs (e.2.filterMap Frame.seen?) ∧ e.1.Marked (e.2.filterMap Frame.seen?)) ∧
      t.written.filterMap Frame.seen? <+: seenOf sent := by
  obtain ⟨sent, entered, wires, front, -⟩ := (writing_start h).sent
  refine ⟨sent, entered, fun e member => ?_, front.filterMap _⟩
  obtain ⟨limit, table, wire⟩ := wires e member
  have entry : e.1 ∈ t.opening :: t.taken := entered ▸ List.mem_map_of_mem member
  obtain ⟨plain, small⟩ : e.1.isPlain ∧ e.1.stream < Frame.idBound := by
    rcases List.mem_cons.mp entry with opening | taken
    · rw [opening]
      exact ⟨rfl, show 0 < Frame.idBound by decide⟩
    · exact taken_small (sound_start h) taken
  rw [wire]
  exact ⟨plain, Outgoing.seen_wire limit table plain small, Outgoing.marked_wire limit table plain small⟩

/-- A promise comes neither behind the end of the reply on its own stream nor behind its reset. -/
theorem grammar_before (h : Reaches (start version config handlers schedule transport) t)
    {front back : List (WireHeader × Bytes)} {w : WireHeader × Bytes}
    (split : t.written.filterMap Frame.seen? = front ++ w :: back) (kind : w.1.kind = Kind.pushPromise.code) :
    ∀ a ∈ front, a.1.stream = w.1.stream → a.1.endsReply = false ∧ a.1.isReset = false := by
  have grammar := grammar_of_reaches h w.1.stream
  have wire : (t.wire w.1.stream).map (·.1) = (front.filter (·.1.stream == w.1.stream)).map (·.1) ++
      w.1 :: (back.filter (·.1.stream == w.1.stream)).map (·.1) := by
    simp [Session.wire, split]
  intro a member same
  have own : a.1 ∈ (front.filter (·.1.stream == w.1.stream)).map (·.1) :=
    List.mem_map_of_mem (List.mem_filter.mpr ⟨member, by simp [same]⟩)
  have ended := grammar.ended
  have silent := grammar.silent
  rw [wire] at ended silent
  refine ⟨Bool.eq_false_iff.mpr fun ends => ?_, (List.pairwise_append.mp silent).2.2 _ own _ List.mem_cons_self⟩
  exact (List.pairwise_append.mp ended).2.2 _ own _ List.mem_cons_self ends (by simp [kind])

/-- Where a promise is seen, all that is seen before it was put into the outbox before the stream was promised, but for
    the opening; and of the acknowledgements that were put in before it, all are seen before it. -/
theorem promise_seen (h : Reaches (start version config handlers schedule transport) t)
    {front back : List (WireHeader × Bytes)} {w : WireHeader × Bytes}
    (split : t.written.filterMap Frame.seen? = front ++ w :: back) (kind : w.1.kind = Kind.pushPromise.code) :
    ∃ early, early <+: t.journal ∧ Promisable t.version early (Frame.promisedBy w.2) ∧
      (∀ a ∈ front, ∃ f, (f = t.opening ∨ f ∈ early.filterMap Event.queued?) ∧ a.1.stream = f.stream ∧
        (a.1.kind = f.kind.code ∨ a.1.kind = Kind.continuation.code)) ∧
      front.countP (·.1.acknowledges) = (early.filterMap Event.queued?).countP (·.isAck) := by
  obtain ⟨sent, entered, known, whole⟩ := sent_marked h
  have early : front ++ [w] <+: seenOf sent := by
    rw [split] at whole
    exact List.IsPrefix.trans ⟨back, List.append_assoc ..⟩ whole
  -- PUSH_PROMISE opens the wire frames of one outgoing frame, so `front` is all that came before it.
  obtain ⟨before, e, order, rfl, head⟩ := split_seen (fun e member => (known e member).2.1) early (by rw [kind]; decide)
  replace known (x : Outgoing × List Bytes) (here : x ∈ before ++ [e]) := known x (order.subset here)
  obtain ⟨plain, ⟨first, rest, frames, one⟩, marked⟩ := known e (List.mem_append_right _ (List.mem_singleton_self e))
  obtain rfl : first = w := Option.some.inj (by rw [← head, frames]; rfl)
  obtain ⟨parent, promised, list, promise⟩ := Outgoing.eq_pushPromise plain (one.kind.symm.trans kind)
  replace order := order.map (·.1)
  rw [entered, List.map_append, List.map_singleton, promise] at order
  cases before with
  | nil => cases (List.cons_prefix_cons.mp order).1
  | cons announced before =>
    rw [List.map_cons, List.cons_append] at order
    obtain ⟨opens, taken⟩ := List.cons_prefix_cons.mp order
    obtain ⟨earlier, journal, promisable, fewer, acks⟩ := (pledged_start (outlives_of_reaches h)).promise_taken taken
    have names : Frame.promisedBy first.2 = promised := by
      have named := marked.promise promised (by rw [promise]; rfl) promisable.small
      rw [frames] at named
      exact Option.some.inj named
    replace known (x : Outgoing × List Bytes) (here : x ∈ announced :: before) := known x (List.mem_append_left _ here)
    refine ⟨earlier, journal, names ▸ promisable, fun a member => ?_, ?_⟩
    · obtain ⟨x, here, stream, kind⟩ := mem_seenOf (fun x here => (known x here).2.1) member
      refine ⟨x.1, ?_, stream, kind⟩
      rcases List.mem_cons.mp here with rfl | later
      · exact .inl opens
      · exact .inr (fewer x.1 (List.mem_map_of_mem later))
    · have unlike : t.opening.isAck = false := rfl
      rw [countP_acknowledges fun x here => (known x here).2.2, List.map_cons, opens,
        List.countP_cons_of_neg (by simp [unlike]), acks]

end Reached

/-- A push on a stream, at whatever moment, is refused and changes nothing at all; or it gives the number of a stream.
    Then nothing had been promised, opened or started with that number before, and afterwards there are one promise of it,
    on the stream of the push, one stream, and one task, which the executor was handed before any task went on.

    No stream is promised once the peer has sent GOAWAY. And where a PUSH_PROMISE frame is seen among those written,
    before it there is no frame of the stream that it promises, no frame that ends the reply on its own stream or resets
    it, and no GOAWAY; and of the SETTINGS frames of the peer that were accepted, the one that was acknowledged last before
    it left pushes enabled. -/
theorem server_push (version : Version) (config : Config) (handlers : Handlers) (schedule : Schedule)
    (transport : Transport) :
    let first := start version config handlers schedule transport
    (∀ s launch i stream list priority, Outlives first s → Launches launch → s.stream? i = some stream →
      (∃ e, perform launch s stream (.push list priority) = (s, .refused e)) ∨
      ∃ t id, perform launch s stream (.push list priority) = (t, .pushed id) ∧
        ((∀ f ∈ s.queued, f.promised? ≠ some id) ∧
          t.queued.filter (·.promised? == some id) = [.pushPromise stream.id id list]) ∧
        (s.stream? id = none ∧ (t.streams.map (·.id)).count id = 1) ∧
        (∀ e ∈ s.journal, e.opens id = false) ∧
          ∃ rank u, t.journal.filter (·.opens id) = [.opened id stream.id rank true] ∧
            u.executor = s.executor.enqueue rank id ∧ Moves u t) ∧
    (∀ t early parent id list, Outlives first t → early ++ [.queued (.pushPromise parent id list)] <+: t.journal →
      ∀ last code, .dispatched (.goAway last code) ∉ early) ∧
    ∀ t front w back, Reaches first t → t.written.filterMap Frame.seen? = front ++ w :: back →
      w.1.kind = Kind.pushPromise.code →
        (∀ a ∈ front, a.1.stream ≠ Frame.promisedBy w.2) ∧
        (∀ a ∈ front, a.1.stream = w.1.stream → a.1.endsReply = false ∧ a.1.isReset = false) ∧
        (∀ a ∈ front, a.1.kind ≠ Kind.goAway.code) ∧
        let acks := front.countP (·.1.acknowledges)
        acks ≤ t.adopted.length ∧ ((t.adopted.take acks).getLastD {}).enablePush := by
  intro first
  refine ⟨fun s launch i stream list priority before launches found => ?_, fun t early parent id list reached put => ?_,
    fun t front w back reached split kind => ?_⟩
  · have sane := (before.matures (sane_start version config handlers schedule transport)).sane
    have pledged := pledged_start before
    cases allowed : s.pushError? stream with
    | some e => exact .inl ⟨e, by simp only [perform, allowed]⟩
    | none =>
      obtain ⟨rank, executor, promised, opened⟩ := pledged.started sane found allowed list priority
      let u := addTask s.nextPush (s.promise stream list priority)
      let t := launch s.nextPush (s.promise stream list priority)
      have moves : Moves u t := launches s.nextPush (s.promise stream list priority)
      obtain ⟨events, journal, -⟩ := moves.kept.journal
      have push : Moves s u := .single (.promised list priority found allowed)
      have pledged' : t.Pledged := pledged.outlives sane (outlives_of_reaches (.of_moves (push.trans moves)))
      have later {e : Event} (noted : e ∈ u.journal) : e ∈ t.journal := journal ▸ List.mem_append_left events noted
      obtain ⟨one, stream', task⟩ := pledged'.once (later promised) (later opened)
      obtain ⟨unpromised, unused, unopened⟩ := pledged.unpromised sane
      exact .inr ⟨t, s.nextPush, perform_push allowed launch list priority, ⟨unpromised, one⟩, ⟨unused, stream'⟩, unopened, rank, u,
        task, executor, moves⟩
  · intro last code left
    have promisable : Promisable t.version early id := (pledged_start reached).chronicle early _ put
    cases promisable.unleft _ left
  -- What is on the wire before the promise was put in before it, when the promise was allowed.
  · obtain ⟨early, journal, promisable, origin, acks⟩ := promise_seen reached split kind
    refine ⟨fun a member same => ?_, grammar_before reached split kind, fun a member goAway => ?_, ?_⟩
    · obtain ⟨f, opening | queued, stream, -⟩ := origin a member
      · exact promisable.positive (by rw [← same, stream, opening]; rfl)
      · exact promisable.unused f queued (stream ▸ same)
    · obtain ⟨f, put, -, same⟩ := origin a member
      have other : f.kind = Kind.goAway := by
        rcases same with same | continues
        · exact Kind.eq_of_code (same.symm.trans goAway)
        · exact absurd (goAway.symm.trans continues) (by decide)
      rcases put with opening | queued
      · rw [opening] at other
        cases other
      · exact promisable.staying f queued other
    · intro acks'
      have count : acks' = (adoptions t.version {} early).length := acks.trans promisable.acks
      have taken : t.adopted.take (adoptions t.version {} early).length = adoptions t.version {} early :=
        take_adoptions journal
      rw [count]
      refine ⟨?_, ?_⟩
      · rw [← taken]
        exact List.length_take_le' ..
      · rw [taken, getLastD_adoptions]
        exact promisable.allowed

/-- A session whose peer turns pushes off and on again. The handler of its stream pushes before, between and after. -/
def fickle : Session :=
  let allow (value : UInt32) := (Frame.settings false [{ id := Setting.enablePush, value }]).encode 0
  start .spdy3 {}
    { own := [(1, [.act (.push [] 0), .yield, .yield, .act (.push [] 0), .yield, .act (.push [] 0),
        .act (.headers [] true)])],
      others := [.act (.headers [] true)] }
    .atOnce
    { arrivals := [{ bytes := (Frame.headers 1 [] true none 0).encode 1 }, { bytes := allow 0 }, { bytes := allow 1 }] }

/-- The push between is refused. The last promise is that of stream 4, behind both acknowledgements; and another push,
    when the request has just been taken in, would be that of stream 4 as well. -/
theorem server_push_fickle :
    let t := fickle.runToEnd
    let frames := t.written.filterMap Frame.seen?
    let begun := { fickle with status := .running }.write
      ((Frame.settings false (fickle.config.params fickle.version)).encode 0) .initialWriteFailed
    let s := (begun.readMore true).1.takeInput .success
    (.stepped 1 3 (.act (.push [] 0)) (.refused .pushRefused) ∈ t.journal ∧ t.adopted.map (·.enablePush) = [false, true]) ∧
    ((frames.drop 5).head?.map fun w => (w.1.kind, w.1.stream, Frame.promisedBy w.2)) =
      some (Kind.pushPromise.code, 1, 4) ∧
    (∀ a ∈ frames.take 5, a.1.stream ≠ 4 ∧ a.1.kind ≠ Kind.goAway.code) ∧
    ((t.adopted.take ((frames.take 5).countP (·.1.acknowledges))).getLastD {}).enablePush ∧
    ∃ stream u, s.stream? 1 = some stream ∧ perform launchPushed s stream (.push [] 0) = (u, .pushed 4) ∧
      u.queued.filter (·.promised? == some 4) = [.pushPromise 1 4 []] ∧ (u.streams.map (·.id)).count 4 = 1 := by
  intro t frames begun s
  obtain ⟨push, -, wire⟩ := server_push .spdy3 {} fickle.handlers .atOnce fickle.transport
  have named : ((frames.drop 5).head?.map fun w => (w.1.kind, w.1.stream, Frame.promisedBy w.2)) =
      some (Kind.pushPromise.code, 1, 4) := by decide +kernel
  obtain ⟨w, head, same⟩ := Option.map_eq_some_iff.mp named
  obtain ⟨kind, stream, promised⟩ : w.1.kind = Kind.pushPromise.code ∧ w.1.stream = 1 ∧ Frame.promisedBy w.2 = 4 := by
    simpa using same
  obtain ⟨back, rest⟩ := List.head?_eq_some_iff.mp head
  have split : frames = frames.take 5 ++ w :: back := rest ▸ (List.take_append_drop 5 frames).symm
  obtain ⟨unused, -, staying, -, enabled⟩ := wire t (frames.take 5) w back (reaches_runToEnd fickle) split kind
  have running : begun.status = .running := by decide +kernel
  obtain ⟨read, still⟩ := reaches_readMore running true
  have reached : Reaches fickle s :=
    ((Reaches.single (.began rfl)).trans read).trans (reaches_takeInput still .success)
  obtain ⟨stream, found⟩ : ∃ stream, s.stream? 1 = some stream := Option.isSome_iff_exists.mp (by decide +kernel)
  have reply : (s.stream? 1).map (fun stream => (perform launchPushed s stream (.push [] 0)).2) = some (.pushed 4) := by
    decide +kernel
  rw [found, Option.map_some, Option.some.injEq] at reply
  refine ⟨⟨by decide +kernel, by decide +kernel⟩, named, fun a member => ⟨promised ▸ unused a member, staying a member⟩,
    enabled, stream, ?_⟩
  rcases push s launchPushed 1 stream [] 0 (outlives_of_reaches reached) launches_launchPushed found with
    ⟨e, refused⟩ | ⟨u, id, done, ⟨-, promise⟩, ⟨-, one⟩, -⟩
  · simp [refused] at reply
  · obtain rfl : id = 4 := by simpa [done] using reply
    exact ⟨u, found, done, id_of_stream? found ▸ promise, one⟩

/-- A session whose peer turns pushes off and on again while the handler of its request waits. -/
def wavering (patience : Nat) : Session :=
  let allow (value : UInt32) := (Frame.settings false [{ id := Setting.enablePush, value }]).encode 0
  start .spdy3 {} { others := .replicate 5 .yield ++ [.act (.headers [] true)] } .atOnce
    { arrivals := [{ bytes := (Frame.headers 1 [] true none 0).encode 1 }, { bytes := allow 0 }, { bytes := allow 1 }],
      patience }

/-- Among threads, a promise may be written behind GOAWAY; or between the two acknowledgements, when the push sees what is
    allowed anew before that is acknowledged; and a push that comes when the peer is gone may take a number for nothing. -/
theorem server_push_raced :
    (∃ m, Slices { session := wavering 40 } m ∧
      [Kind.goAway.code, Kind.pushPromise.code].Sublist ((m.session.written.filterMap Frame.seen?).map (·.1.kind))) ∧
    (∃ m, Slices { session := wavering 40 } m ∧ m.session.adopted.map (·.enablePush) = [false, true] ∧
      (m.session.written.filterMap Frame.seen?).map (fun w => (w.1.kind, w.1.acknowledges)) =
        [(Kind.settings.code, false), (Kind.settings.code, true), (Kind.pushPromise.code, false),
          (Kind.settings.code, true)]) ∧
    ∃ m, Slices { session := wavering 1 } m ∧
      .stepped 1 5 (.act (.push [] 0)) (.refused .aborted) ∈ m.session.journal ∧
      m.session.opened true = [] ∧ m.session.nextPush = 4 := by
  refine ⟨?_, ?_, ?_⟩
  · have before := slices_atInput (wavering 40) 3 rfl (by decide +kernel) (by decide +kernel)
      (by decide +kernel)
    exact reached_of_play? before
      [.claim 1 [] 0, .leave ErrorCode.noError, .queue, .write, .promise, .insert, .submit 2, .write] (by decide +kernel)
  · have before := slices_atInput (wavering 40) 2 rfl (by decide +kernel) (by decide +kernel)
      (by decide +kernel)
    exact reached_of_play? before
      [.decide, .store, .store, .store, .claim 1 [] 0, .promise, .insert, .submit 2, .adopt, .queue, .write, .write]
      (by decide +kernel)
  · have served : Slices { session := wavering 1 } { session := (wavering 1).serve } :=
      slices_of_reaches (reaches_serve rfl).1 (by decide +kernel)
    exact reached_of_play? served [.claim 1 [] 0, .drain, .close, .lose 5] (by decide +kernel)

end Session

end Multiplex
