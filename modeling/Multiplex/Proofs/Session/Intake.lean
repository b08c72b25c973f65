import Multiplex.Proofs.Session.HeaderTables
import Multiplex.Proofs.Session.Interleavings
import Multiplex.Proofs.Stream.Reading

/-! # From the peer to handlers

What a stream takes in is a message of the peer, part by part as its frames arrive, and what its handler reads is
the first parts of that message, in order (`input_delivery`). A stream that is over, or whose message has ended,
takes in nothing more. -/

namespace Multiplex

open Relation (ReflTransGen)

namespace Event

/-- The part of a message that a stream takes in. -/
def intake? (id : Nat) : Event → Option Inbound
  | .accepted stream part => if stream = id then some part else none
  | _ => none

/-- The parts of a message that the handler of a stream gets. -/
def handed (id : Nat) : Event → List Inbound
  | .stepped stream _ _ (.input part) => if stream = id then part.toList else []
  | .stepped stream _ _ (.inputs parts) => if stream = id then parts else []
  | _ => []

end Event

/-- What a stream has taken in, in order. -/
def intake (id : Nat) (journal : List Event) : List Inbound := journal.filterMap (Event.intake? id)

/-- What the handler of a stream has got, in order. -/
def handed (id : Nat) (journal : List Event) : List Inbound := journal.flatMap (Event.handed id)

/-- What waits to be read on a stream. -/
def Session.unread (s : Session) (id : Nat) : List Inbound := ((s.stream? id).map (·.input)).getD []

section Journals
variable {id : Nat} {journal : List Event} {part : Inbound}

@[simp] theorem intake_append (front back : List Event) : intake id (front ++ back) = intake id front ++ intake id back :=
  List.filterMap_append

@[simp] theorem handed_append (front back : List Event) : handed id (front ++ back) = handed id front ++ handed id back :=
  List.flatMap_append

theorem mem_intake : part ∈ intake id journal ↔ .accepted id part ∈ journal := by
  simp only [intake, List.mem_filterMap]
  constructor
  · rintro ⟨e, member, takes⟩
    cases e with
    | accepted stream taken =>
      obtain ⟨rfl, rfl⟩ : stream = id ∧ taken = part := by simpa [Event.intake?] using takes
      exact member
    | _ => cases takes
  · exact fun member => ⟨_, member, if_pos rfl⟩

theorem intake_filter (id : Nat) (journal : List Event) :
    intake id (journal.filter (·.about == some id)) = intake id journal := by
  rw [intake, List.filterMap_filter]
  refine List.filterMap_congr fun e _ => ?_
  cases e <;> simp [Event.about, Event.intake?]

theorem handed_filter (id : Nat) (journal : List Event) :
    handed id (journal.filter (·.about == some id)) = handed id journal := by
  induction journal with
  | nil => rfl
  | cons e rest ih =>
    by_cases about : e.about = some id
    · rw [List.filter_cons_of_pos (by simpa using about), handed, List.flatMap_cons, handed, List.flatMap_cons]
      exact congrArg _ ih
    · have none : e.handed id = [] := by
        unfold Event.handed
        split
        · exact if_neg fun same => about (congrArg some same)
        · exact if_neg fun same => about (congrArg some same)
        · rfl
      rw [List.filter_cons_of_neg (by simpa using about), ih, handed, handed, List.flatMap_cons, none, List.nil_append]

theorem intake_concat {e : Event} (untaken : e.intake? id = none) : intake id (journal ++ [e]) = intake id journal := by
  simp [intake, untaken]

theorem intake_accepted : intake id (journal ++ [.accepted id part]) = intake id journal ++ [part] := by
  simp [intake, Event.intake?]

theorem handed_accepted : handed id (journal ++ [.accepted id part]) = handed id journal := by
  simp [handed, Event.handed]

end Journals

/-- Whether an event neither takes in nor hands out a part of a message. -/
def Event.isBeside : Event → Bool
  | .accepted .. | .stepped _ _ _ (.input _) | .stepped _ _ _ (.inputs _) => false
  | _ => true

theorem Event.isBeside_of_isQuiet {e : Event} (quiet : e.isQuiet) : e.isBeside := by
  unfold isBeside
  split <;> first | rfl | cases quiet

/-- What comes behind `front` in `back` concerns no part of a message. -/
def Aside (front back : List Event) : Prop := ∃ events, back = front ++ events ∧ ∀ e ∈ events, e.isBeside

namespace Aside
variable {id : Nat} {front middle back : List Event}

theorem refl (front : List Event) : Aside front front := ⟨[], (List.append_nil _).symm, nofun⟩

theorem trans (first : Aside front middle) (second : Aside middle back) : Aside front back := by
  obtain ⟨early, rfl, beside⟩ := first
  obtain ⟨late, rfl, beside'⟩ := second
  exact ⟨early ++ late, List.append_assoc .., List.forall_mem_append.mpr ⟨beside, beside'⟩⟩

theorem note {e : Event} (beside : e.isBeside) : Aside front (front ++ [e]) :=
  ⟨[e], rfl, List.forall_mem_singleton.mpr beside⟩

theorem grows (aside : Aside front back) : front <+: back := by
  obtain ⟨events, rfl, -⟩ := aside
  exact List.prefix_append ..

theorem intake (aside : Aside front back) : intake id back = Multiplex.intake id front := by
  obtain ⟨events, rfl, beside⟩ := aside
  have none : Multiplex.intake id events = [] := List.filterMap_eq_nil_iff.mpr fun e member => by
    have here := beside e member
    cases e <;> first | rfl | cases here
  rw [intake_append, none, List.append_nil]

theorem handed (aside : Aside front back) : handed id back = Multiplex.handed id front := by
  obtain ⟨events, rfl, beside⟩ := aside
  have none : Multiplex.handed id events = [] := List.flatMap_eq_nil_iff.mpr fun e member => by
    have here := beside e member
    unfold Event.handed
    split <;> first | rfl | cases here
  rw [handed_append, none, List.append_nil]

end Aside

namespace Lane
variable {version : Version} {config : Config} {id : Nat} {l l' : Lane}

/-! ### Messages of the peer -/

theorem aside_queue (l : Lane) (f : Outgoing) (priority : Nat) : Aside l.past (l.queue f priority).past := by
  unfold queue
  split
  · exact .refl _
  · exact .note rfl

theorem aside_put (l : Lane) (stream : Stream) (frames : List Outgoing) : Aside l.past (l.put stream frames).past := by
  unfold put queueAll
  generalize same : ({ l with stream := some stream } : Lane) = u
  rw [show l.past = u.past from same ▸ rfl]
  clear same
  induction frames generalizing u with
  | nil => exact .refl _
  | cons f rest ih => exact (aside_queue u f stream.priority).trans (ih _)

/-- The message of the peer on an opened stream: its handler has got the first parts of it, and the others
    wait to be read. -/
structure Follows (id : Nat) (past : List Event) (s : Stream) : Prop where
  split : handed id past ++ s.input = intake id past
  message : Message s.peerClosed (intake id past)
  /-- A pushed stream has the promised request. -/
  pushed : s.isPushed → ∃ list, intake id past = [.headers list true]
  opened : .opened id s.parent s.priority s.isPushed ∈ past

section Follows
variable {past past' : List Event} {s t : Stream}

theorem Follows.hears (follows : Follows id past s) (hears : s.Hears t) (aside : Aside past past') : Follows id past' t where
  split := by
    rw [aside.handed, aside.intake, hears.input]
    exact follows.split
  message := by
    rw [aside.intake, hears.peerClosed]
    exact follows.message
  pushed pushed := by
    rw [aside.intake]
    exact follows.pushed (by rwa [Stream.isPushed, ← hears.parent])
  opened := by
    rw [hears.parent, hears.priority, Stream.isPushed, hears.parent]
    exact aside.grows.subset follows.opened

/-- What a stream takes in belongs to a message that goes on, and that of a pushed stream never does. -/
theorem Follows.takes {part : Inbound} (follows : Follows id past s) (reads : s.Reads t) (going : s.peerClosed = false)
    (input : t.input = s.input ++ [part])
    (message : Message false (intake id past) → Message t.peerClosed (intake id past ++ [part])) :
    Follows id (past ++ [.accepted id part]) t := by
  have parent : t.parent = s.parent := by rw [reads.rest]
  have priority : t.priority = s.priority := by rw [reads.rest]
  have unpushed : s.isPushed = false := Bool.eq_false_iff.mpr fun pushed => by
    obtain ⟨list, request⟩ := follows.pushed pushed
    have ended := follows.message.ended_iff.mpr ⟨.headers list true, by simp [request], rfl⟩
    exact absurd ended (Bool.eq_false_iff.mp going)
  refine ⟨?_, ?_, fun pushed => ?_, ?_⟩
  · rw [intake_accepted, handed_accepted, input, ← List.append_assoc, follows.split]
  · rw [intake_accepted]
    exact message (going ▸ follows.message)
  · rw [Stream.isPushed, parent] at pushed
    exact absurd pushed (Bool.eq_false_iff.mp unpushed)
  · rw [parent, priority, Stream.isPushed, parent]
    exact List.mem_append_left _ follows.opened

/-- What a handler reads is taken from the front of what waits. -/
theorem Follows.reads {e : Event} (follows : Follows id past s) (reads : s.Reads t) (same : t.peerClosed = s.peerClosed)
    {parts : List Inbound} (input : parts ++ t.input = s.input) (aside : Aside past past')
    (untaken : e.intake? id = none) (got : e.handed id = parts) : Follows id (past' ++ [e]) t := by
  have parent : t.parent = s.parent := by rw [reads.rest]
  have priority : t.priority = s.priority := by rw [reads.rest]
  have taken : intake id (past' ++ [e]) = intake id past := (intake_concat untaken).trans aside.intake
  refine ⟨?_, ?_, fun pushed => ?_, ?_⟩
  · rw [taken, handed_append, aside.handed, List.append_assoc]
    simpa [handed, got, input] using follows.split
  · rw [taken, same]
    exact follows.message
  · rw [taken]
    exact follows.pushed (by rwa [Stream.isPushed, ← parent])
  · rw [parent, priority, Stream.isPushed, parent]
    exact List.mem_append_left _ (aside.grows.subset follows.opened)

end Follows

/-- What a lane tells of the message of the peer. -/
structure Fed (id : Nat) (l : Lane) : Prop where
  unopened : l.stream = none → intake id l.past = [] ∧ handed id l.past = []
  follows : ∀ s, l.stream = some s → Follows id l.past s

theorem fed_empty (id : Nat) : (empty id).Fed id := ⟨fun _ => ⟨rfl, rfl⟩, nofun⟩

/-- A step that neither takes in nor hands out anything. -/
theorem Fed.keep (fed : l.Fed id) (aside : Aside l.past l'.past) (absent : l'.stream = none → l.stream = none)
    (stream : ∀ t, l'.stream = some t → ∃ s, l.stream = some s ∧ s.Hears t) : l'.Fed id where
  unopened none := by
    rw [aside.intake, aside.handed]
    exact fed.unopened (absent none)
  follows t found := by
    obtain ⟨s, before, hears⟩ := stream t found
    exact (fed.follows s before).hears hears aside

/-- A step after which the stream follows the message. -/
theorem fed_of_follows {t : Stream} (found : l.stream = some t) (follows : Follows id l.past t) : l.Fed id where
  unopened none := by
    rw [found] at none
    cases none
  follows u present := by
    obtain rfl : t = u := Option.some.inj (found.symm.trans present)
    exact follows

/-- A new stream follows the message that it was opened with. -/
theorem follows_new {past : List Event} (taken : intake id past = []) (got : handed id past = [])
    (window parent priority : Nat) (list : List Header) {final : Bool} (whole : parent ≠ 0 → final) :
    Follows id (past ++ [.accepted id (.headers list final), .opened id parent priority (parent != 0)])
      ((Stream.new version config window id parent priority).acceptHeaders list final) := by
  have took : intake id (past ++ [.accepted id (.headers list final), .opened id parent priority (parent != 0)]) =
      [.headers list final] := by
    rw [intake_append, taken]
    simp [intake, Event.intake?]
  rw [Stream.acceptHeaders_of_going rfl]
  refine ⟨?_, ?_, fun pushed => ⟨list, ?_⟩, ?_⟩
  · rw [took, handed_append, got]
    rfl
  · rw [took]
    exact (Bool.false_or final).symm ▸ Message.opening list final
  · rw [took, whole (by simpa [Stream.isPushed, Stream.new] using pushed)]
  · simp [Stream.new, Stream.isPushed]

theorem Step.fed (h : Step version config id l l') (blank : l.fresh → l.Blank) (fed : l.Fed id) : l'.Fed id := by
  have same (t : Stream) (found : l.stream = some t) : ∃ s, l.stream = some s ∧ s.Hears t := ⟨t, found, .refl t⟩
  -- The stream speaks, or is ended, and hears nothing.
  have speaks {stream stream' : Stream} (found : l.stream = some stream) (found' : l'.stream = some stream')
      (hears : stream.Hears stream') (aside : Aside l.past l'.past) : l'.Fed id :=
    fed_of_follows found' ((fed.follows stream found).hears hears aside)
  cases h with
  | noted about quiet => exact fed.keep (.note (Event.isBeside_of_isQuiet quiet)) (fun none => none) same
  | outdated | left | pruned => exact fed.keep (.refl _) (fun none => none) same
  | taken => exact fed.keep (.note rfl) (fun none => none) same
  | announced | refused | promised =>
    rw [queue_rest]
    exact fed.keep (aside_queue ..) (fun none => none) same
  | opened fresh hopen staying proper small parent priority bounded list whole =>
    -- Before its stream is opened a lane has taken in nothing, and nothing was read on it.
    obtain ⟨taken, got⟩ := fed.unopened (blank fresh).stream
    exact fed_of_follows rfl (follows_new taken got _ parent priority list whole)
  | @trailed stream found active going list =>
    have goes := (Stream.isActive_iff.mp active).2
    refine fed_of_follows rfl ((fed.follows stream found).takes (Stream.reads_acceptHeaders stream list true) going ?_ ?_)
    · rw [Stream.acceptHeaders_of_going goes]
    · rw [Stream.acceptHeaders_of_going goes, going]
      exact fun message => message.trailers list
  | @received stream stream' found active going bytes final fits =>
    obtain ⟨input, closed⟩ := Stream.of_acceptData (Stream.isActive_iff.mp active).2 fits
    refine fed_of_follows rfl ((fed.follows stream found).takes (Stream.reads_acceptData fits) going input ?_)
    rw [closed, going]
    exact fun message => message.data bytes final
  | granted found active positive fits =>
    exact speaks found (stream_put ..) (Stream.hears_grant fits) ((Aside.note rfl).trans (aside_put ..))
  | reset found code => exact speaks found (stream_put ..) (Stream.hears_reset _ code) (aside_put ..)
  | hungUp found => exact speaks found rfl (Stream.hears_abort _) (.refl _)
  | @read stream found index step =>
    refine fed_of_follows (stream_put ..) ((fed.follows stream found).reads (Stream.reads_read stream)
      (Stream.peerClosed_read stream) (Stream.parts_read stream) (aside_put ..) rfl (if_pos rfl))
  | @readAll stream found index =>
    refine fed_of_follows (stream_put ..) ((fed.follows stream found).reads (Stream.reads_readUpTo _ stream)
      (Stream.peerClosed_readUpTo _ stream) (Stream.parts_readUpTo _ stream) (aside_put ..) rfl (if_pos rfl))
  | sentHeaders found index allowed =>
    exact speaks found (stream_put ..) (Stream.hears_sendHeaders allowed) ((aside_put ..).trans (.note rfl))
  | sentData found index allowed =>
    exact speaks found (stream_put ..) (Stream.hears_sendData allowed) ((aside_put ..).trans (.note rfl))
  | cancelled =>
    refine fed.keep (.note rfl) (by simp) fun t present => ?_
    obtain ⟨old, found, rfl⟩ := Option.map_eq_some_iff.mp present
    exact ⟨old, found, Stream.hears_abort old⟩
  | closed =>
    refine fed.keep (.refl _) (by dsimp only; split <;> simp) fun t present => ?_
    dsimp only at present
    split at present
    · obtain ⟨old, found, rfl⟩ := Option.map_eq_some_iff.mp present
      exact ⟨old, found, Stream.hears_abort old⟩
    · exact same t present

theorem Steps.fed (h : Steps version config id (empty id) l) : l.Fed id :=
  h.keeps (fed_empty id) fun earlier last fed => last.fed (earlier.blank (orderly_empty id).blank) fed

/-! ### Streams that take in nothing more -/

/-- Nothing more comes in on a stream that is over or whose message has ended. -/
def Sated (s : Stream) : Prop := s.isActive = false ∨ s.peerClosed

theorem sated_ages {s t : Stream} (sated : Sated s) (ages : s.Ages t) : Sated t := by
  refine sated.imp (fun inactive => Bool.eq_false_iff.mpr fun active => ?_) ages.closed
  exact Bool.eq_false_iff.mp inactive (ages.active active)

theorem Step.sated (h : Step version config id l l') (blank : l.fresh → l.Blank) {s : Stream}
    (found : l.stream = some s) (sated : Sated s) :
    intake id l'.past = intake id l.past ∧ ∃ t, l'.stream = some t ∧ Sated t := by
  obtain ⟨t, found', ages⟩ := h.ages blank found
  refine ⟨?_, t, found', sated_ages sated ages⟩
  have never {stream : Stream} {P : Prop} (present : l.stream = some stream) (active : stream.isActive)
      (going : stream.peerClosed = false) : P := by
    obtain rfl : stream = s := Option.some.inj (present.symm.trans found)
    rcases sated with inactive | closed
    · exact absurd active (Bool.eq_false_iff.mp inactive)
    · exact absurd closed (Bool.eq_false_iff.mp going)
  cases h with
  | noted about quiet => exact (Aside.note (Event.isBeside_of_isQuiet quiet)).intake
  | outdated | left | pruned | hungUp | closed => rfl
  | taken | cancelled => exact (Aside.note rfl).intake
  | announced | promised => exact (aside_queue ..).intake
  | opened fresh | refused fresh =>
    rw [(blank fresh).stream] at found
    cases found
  | trailed present active going | received present active going => exact never present active going
  | granted => exact ((Aside.note rfl).trans (aside_put ..)).intake
  | reset => exact (aside_put ..).intake
  | read | readAll => exact (intake_concat rfl).trans (aside_put ..).intake
  | sentHeaders | sentData => exact ((aside_put ..).trans (.note rfl)).intake

theorem Steps.sated (h : Steps version config id l l') (blank : l.fresh → l.Blank) {s : Stream}
    (found : l.stream = some s) (sated : Sated s) : intake id l'.past = intake id l.past := by
  have both := h.keeps (P := fun u => intake id u.past = intake id l.past ∧ ∃ t, u.stream = some t ∧ Sated t)
    ⟨rfl, s, found, sated⟩ fun earlier last before => by
      obtain ⟨same, t, found, sated⟩ := before
      obtain ⟨still, after⟩ := last.sated (earlier.blank blank) found sated
      exact ⟨still.trans same, after⟩
  exact both.1

end Lane

namespace Session
variable {s t : Session}

/-! ### Where parts come from -/

/-- A part of a message comes from the frame that has just been looked at, or is the request of the push that has
    just been promised. -/
def Brought (front : List Event) (id : Nat) : Inbound → Prop
  | .headers list final => ReadLast front id list final ∨ PromisedLast front id list ∧ final
  | .data bytes final => front.getLast? = some (.dispatched (.data id bytes final))

/-- What streams are opened with and take in beside the headers of the peer comes from what happened just before. -/
def Timely (front : List Event) : Event → Prop
  | .accepted id (.data bytes final) => front.getLast? = some (.dispatched (.data id bytes final))
  | .accepted _ (.headers _ final) => final ∨ ∃ frame, front.getLast? = some (.dispatched frame)
  | .opened id parent _ true =>
    ∃ before list, front = before ++ [.queued (.pushPromise parent id list), .accepted id (.headers list true)]
  | _ => True

theorem timely_of_isOrdinary {front : List Event} {e : Event} (plain : e.isOrdinary) : Timely front e := by
  unfold Timely
  split <;> trivial

theorem Ordinary.timely (change : Ordinary s t) (timely : Chronicle Timely s.journal) : Chronicle Timely t.journal := by
  obtain ⟨events, journal, ordinary⟩ := change.journal
  rw [journal]
  exact timely.append fun e member _ => timely_of_isOrdinary (ordinary e member)

theorem timely_sendGoAway (timely : Chronicle Timely s.journal) (code : ErrorCode) :
    Chronicle Timely (s.sendGoAway code).journal := by
  unfold sendGoAway queue
  split
  · exact timely
  · split
    · exact timely
    · exact timely.concat trivial

theorem timely_promise (timely : Chronicle Timely s.journal) {stream : Stream} (allowed : s.pushError? stream = none)
    (idle : s.executor.stopped = false) (unused : s.stream? s.nextPush = none) (list : List Header) (priority : Nat) :
    Chronicle Timely (addTask s.nextPush (s.promise stream list priority)).journal := by
  obtain ⟨new, -, -, added⟩ := addTask_promise allowed idle unused list priority
  rw [added]
  have queued : Chronicle Timely (s.journal ++ [.queued (.pushPromise stream.id s.nextPush list)]) := timely.concat trivial
  have accepted := queued.concat (e := .accepted s.nextPush (.headers list true)) (.inl rfl)
  have opened : Timely (s.journal ++ [.queued (.pushPromise stream.id s.nextPush list)] ++
      [.accepted s.nextPush (.headers list true)]) (.opened s.nextPush stream.id new.priority (stream.id != 0)) := by
    cases stream.id != 0 with
    | false => trivial
    | true => exact ⟨s.journal, list, List.append_assoc ..⟩
  simpa using accepted.concat opened

theorem Effect.timely {decoded : Except Hpack.Fault (List Header)} {frame : Frame} (h : Effect s decoded frame t)
    (timely : Chronicle Timely s.journal) (heard : s.journal.getLast? = some (.dispatched frame))
    (idle : s.executor.stopped = false) (fresh : ∀ id, s.isFresh id → s.stream? id = none) :
    Chronicle Timely t.journal := by
  cases h with
  | passed | left | crashed | hungUp => exact timely
  | breach => exact timely_sendGoAway timely _
  | answered => exact (Ordinary.queue rfl _).timely timely
  | @adopted params peer allowed =>
    have set : Ordinary s (s.adopt peer) := .beside rfl
    exact (set.trans (.queue rfl _)).timely timely
  | trailed => exact timely.concat (.inl rfl)
  | received => exact timely.concat heard
  | @turnedAway id block final priority flags staying odd new rank =>
    unfold queue
    split
    · exact timely
    · exact timely.concat trivial
  | @opened id block final priority flags staying odd new room rank list read =>
    have unused : s.stream? id = none := fresh id (isFresh_of_odd odd new)
    rw [addTask_addStream (s := { s with lastPeer := id }) unused rfl idle]
    have accepted := timely.concat (e := .accepted id (.headers list final)) (.inr ⟨_, heard⟩)
    have opened : Timely (s.journal ++ [.accepted id (.headers list final)]) (.opened id 0 rank false) := trivial
    have both : Chronicle Timely (s.journal ++ [.accepted id (.headers list final), .opened id 0 rank false]) := by
      simpa using accepted.concat opened
    exact both
  | granted found positive fits => exact (Ordinary.grant found fits).timely timely
  | offended found other => exact (Ordinary.reset _ other).timely timely

theorem Advance.timely (h : Advance s t) (timely : Chronicle Timely s.journal) (stable : s.Stable) (fresh : s.Fresh) :
    Chronicle Timely t.journal := by
  rcases h.ordinary with ordinary | special
  · exact ordinary.timely timely
  cases special with
  | promised list priority found allowed =>
    obtain ⟨idle, unused⟩ := stable.unused fresh allowed
    exact timely_promise timely allowed idle unused list priority
  | @dispatched running frame reader next =>
    obtain ⟨hopen, idle⟩ := stable.running running
    have heard : Chronicle Timely (s.journal ++ [.dispatched frame]) := timely.concat trivial
    exact (effect_dispatch { s with reader } frame).timely heard (by simp [note]) idle fun id unused => (fresh id unused).stream
  | wentAway running code => exact timely_sendGoAway timely code

/-! ### Delivery -/

section Reached
variable {version : Version} {config : Config} {handlers : Handlers} {schedule : Schedule} {transport : Transport}
  (h : Reaches (start version config handlers schedule transport) t)
include h

theorem timely_start : Chronicle Timely t.journal :=
  h.keeps_from chronicle_nil fun earlier last timely =>
    last.timely timely (followed_start earlier).stable (followed_start earlier).fresh

theorem brought_start {front : List Event} {id : Nat} {part : Inbound}
    (early : front ++ [.accepted id part] <+: t.journal) : Brought front id part := by
  have timely := timely_start h front _ early
  cases part with
  | data bytes final => exact timely
  | headers list final =>
    refine ((abreast_start h).sourced front _ early id list final rfl).imp_right fun promised => ⟨promised, ?_⟩
    obtain ⟨before, parent, rfl⟩ := promised
    obtain final | ⟨frame, last⟩ := timely
    · exact final
    · simp at last

/-- What a session tells of the message of the peer on one of its streams. -/
theorem follows_start {id : Nat} {stream : Stream} (found : t.stream? id = some stream) :
    Lane.Follows id t.journal stream := by
  have follows := (steps_start h id).fed.follows stream found
  refine ⟨?_, ?_, ?_, (List.mem_filter.mp follows.opened).1⟩
  · simpa only [past_lane, handed_filter, intake_filter] using follows.split
  · simpa only [past_lane, intake_filter] using follows.message
  · simpa only [past_lane, intake_filter] using follows.pushed

theorem nothing_start {id : Nat} (absent : t.stream? id = none) : intake id t.journal = [] ∧ handed id t.journal = [] := by
  have nothing := (steps_start h id).fed.unopened absent
  rwa [past_lane, intake_filter, handed_filter] at nothing

/-- A pushed stream has been promised with the request that it has taken in. -/
theorem request_start {id : Nat} {stream : Stream} (found : t.stream? id = some stream) (pushed : stream.isPushed) :
    ∃ list, intake id t.journal = [.headers list true] ∧ .queued (.pushPromise stream.parent id list) ∈ t.journal := by
  have follows := follows_start h found
  obtain ⟨list, whole⟩ := follows.pushed pushed
  obtain ⟨front, early, timely⟩ := (timely_start h).of_mem follows.opened
  rw [pushed] at timely early
  obtain ⟨before, request, rfl⟩ := timely
  have member (e : Event) (inside : e ∈ [.queued (.pushPromise stream.parent id request), .accepted id (.headers request true)]) :
      e ∈ t.journal := early.subset (List.mem_append_left _ (List.mem_append_right _ inside))
  have taken : .headers request true ∈ intake id t.journal := mem_intake.mpr (member _ (by simp))
  obtain rfl : request = list := by simpa [whole] using taken
  exact ⟨request, whole, member _ (by simp)⟩

/-- At every moment of every session, what a handler has got of the message on its stream, and behind it what waits
    to be read, is what the stream has taken in, in order. This is a message that has the shape of one: the headers
    that opened the stream, data, and perhaps headers again, and only the last of these parts may be final. Each part
    was taken in right behind the frame that brought it, and is what that frame said; and a pushed stream takes
    in one part, the request that was promised. Once a stream is over, or has taken in a final part, it takes in
    nothing more. -/
theorem input_delivery (id : Nat) :
    handed id t.journal ++ t.unread id = intake id t.journal ∧
    (t.stream? id = none → intake id t.journal = []) ∧
    (∀ stream, t.stream? id = some stream →
      Message stream.peerClosed (intake id t.journal) ∧
      (stream.isPushed → ∃ list, intake id t.journal = [.headers list true] ∧
        .queued (.pushPromise stream.parent id list) ∈ t.journal) ∧
      (stream.isActive = false ∨ stream.peerClosed → ∀ u, Reaches t u → intake id u.journal = intake id t.journal)) ∧
    ∀ front part, front ++ [.accepted id part] <+: t.journal → Brought front id part := by
  refine ⟨?_, fun absent => (nothing_start h absent).1, fun stream found => ⟨?_, request_start h found, ?_⟩,
    fun front part => brought_start h⟩
  · rcases (t.stream? id).eq_none_or_eq_some with absent | ⟨stream, found⟩
    · obtain ⟨taken, got⟩ := nothing_start h absent
      simp [unread, absent, taken, got]
    · rw [unread, found]
      exact (follows_start h found).split
  · exact (follows_start h found).message
  · intro sated u later
    have followed := followed_start h
    have chain := (later.lanes followed.stable followed.fresh).lanes id
    have same := chain.sated (followed.fresh id) found sated
    rwa [past_lane, past_lane, intake_filter, intake_filter] at same

end Reached

/-- A session whose peer sends a request with a body and trailers. Its handler reads the first two parts, and
    pushes. -/
def letter : Session :=
  let table := Header.encodeBlocks {} [[⟨"a", "1"⟩], [⟨"b", "2"⟩]]
  let frames := [.headers 1 (table.2.getD 0 []) false none 0, .data 1 [7] false, .headers 1 (table.2.getD 1 []) true none 0]
  start .spdy3 {} { others := [.act (.read true), .act (.read true), .act (.push [⟨"c", "3"⟩] 0), .act (.headers [] true)],
                    pushed := some [.act .readAll, .act (.headers [] true)] } .eachPoll
    { arrivals := [{ bytes := frames.flatMap (Frame.encode 100) }] }

/-- The trailers stay unread, and the pushed stream gets its request. -/
theorem input_delivery_letter :
    let t := letter.runToEnd
    handed 1 t.journal ++ t.unread 1 = intake 1 t.journal ∧
      intake 1 t.journal = [.headers [⟨"a", "1"⟩] false, .data [7] false, .headers [⟨"b", "2"⟩] true] ∧
      t.unread 1 = [.headers [⟨"b", "2"⟩] true] ∧ handed 2 t.journal = [.headers [⟨"c", "3"⟩] true] := by
  intro t
  refine ⟨(input_delivery (reaches_runToEnd letter) 1).1, ?_⟩
  decide +kernel

/-- A session whose peer sends the head of a request, and then data, while the handler goes on. -/
def outpaced : Session :=
  start .spdy3 {} { others := [.yield, .yield, .act (.headers [] true)] } .atOnce
    { arrivals := [{ bytes := (Frame.headers 1 [] false none 0).encode 1 }, { bytes := (Frame.data 1 [7] true).encode 1 }] }

/-- The handler sends its whole reply, on a thread of its own, after the session has found the stream going on. When the
    stream is over, it takes in the data all the same. -/
theorem input_delivery_belated :
    ∃ m n, Slices { session := outpaced } m ∧ (m.session.stream? 1).any (!·.isActive) ∧ Slices m n ∧
      n.session.journal = m.session.journal ++ [.accepted 1 (.data [7] true)] := by
  have before := slices_atInput outpaced 1 rfl (by decide +kernel) (by decide +kernel) (by decide +kernel)
  exact reached_of_plays? before [.decide, .act 1 2 (.headers [] true)] [.accept] (by decide +kernel)

end Session

end Multiplex
