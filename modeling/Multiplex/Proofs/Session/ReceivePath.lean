import Mathlib.Algebra.Order.BigOperators.Group.List
import Mathlib.Algebra.Order.Group.Nat
import Multiplex.Proofs.Session.Conservation
import Multiplex.Proofs.Session.Intake
import Multiplex.Proofs.Stream.Receiving

/-! # From the peer to handlers, byte by byte

The room in the receive window of a stream and the data that waits to be read make up the window that the
stream started with, and what a handler reads is granted to the peer again (`Lane.Metered`). What the peer has
seen granted is no more than that, so a peer that keeps to it always fits in the window (`receive_path`). -/

namespace Multiplex

open Multiplex.Frame (Kind)

/-! ### Journals -/

/-- Whether a frame grants the peer something. -/
def Outgoing.isGrant : Outgoing → Bool
  | .frame (.windowUpdate ..) => true
  | _ => false

theorem Outgoing.increment_of_other {f : Outgoing} (other : f.isGrant = false) : f.increment = 0 := by
  cases f with
  | frame frame => cases frame <;> first | rfl | cases other
  | headers | pushPromise => rfl

theorem Outgoing.isGrant_of_isData {f : Outgoing} (data : f.isData) : f.isGrant = false := by
  cases f with
  | frame frame => cases frame <;> first | rfl | cases data
  | headers | pushPromise => cases data

namespace Event

/-- What an event grants the peer on a stream. -/
def repays (id : Nat) : Event → Nat
  | .queued f => if f.stream = id then f.increment else 0
  | _ => 0

/-- How many bytes of data an event brings on a stream. -/
def arrives (id : Nat) : Event → Nat
  | .dispatched (.data stream bytes _) => if stream = id then bytes.length else 0
  | _ => 0

/-- Whether the peer ends its side of a stream. -/
def ceases (id : Nat) : Event → Bool
  | .accepted stream part => stream == id && part.final
  | _ => false

/-- Whether an event puts a grant into the outbox. -/
def isGrant : Event → Bool
  | .queued f => f.isGrant
  | _ => false

theorem isGrant_of_isQuiet {e : Event} (quiet : e.isQuiet) : e.isGrant = false := by
  cases e <;> first | rfl | cases quiet

end Event

/-- What was granted to the peer on a stream. -/
def repaid (id : Nat) (journal : List Event) : Nat := (journal.map (Event.repays id)).sum

/-- How many bytes of data have arrived on a stream, whatever became of them. -/
def arrived (id : Nat) (journal : List Event) : Nat := (journal.map (Event.arrives id)).sum

/-- How many bytes of data the handler of a stream has read while the side of the peer was open. -/
def readEarly (id : Nat) (journal : List Event) : Nat := volume (handed id (journal.takeWhile fun e => !e.ceases id))

section Journals
variable {id : Nat} {journal front back : List Event} {e : Event}

@[simp] theorem repaid_append (front back : List Event) : repaid id (front ++ back) = repaid id front + repaid id back := by
  simp [repaid]

theorem Event.repays_of_other (other : e.isGrant = false) : e.repays id = 0 := by
  cases e with
  | queued f => simp [repays, Outgoing.increment_of_other other]
  | _ => rfl

theorem repaid_of_other (other : ∀ e ∈ journal, e.isGrant = false) : repaid id journal = 0 :=
  List.sum_eq_zero (List.forall_mem_map.mpr fun e member => Event.repays_of_other (other e member))

theorem repaid_queued {frames : List Outgoing} (own : ∀ f ∈ frames, f.stream = id) :
    repaid id (frames.map .queued) = increments frames := by
  rw [repaid, increments, List.map_map]
  exact congrArg List.sum (List.map_congr_left fun f member => if_pos (own f member))

theorem repaid_accepted (stream : Nat) (part : Inbound) :
    repaid id (journal ++ [.accepted stream part]) = repaid id journal := by
  simp [repaid, Event.repays]

theorem repaid_filter (id : Nat) (journal : List Event) :
    repaid id (journal.filter (·.about == some id)) = repaid id journal := by
  induction journal with
  | nil => rfl
  | cons e rest ih =>
    have split (rest : List Event) : repaid id (e :: rest) = e.repays id + repaid id rest := by simp [repaid]
    rw [List.filter_cons, split]
    split_ifs with about
    · rw [split, ih]
    · have other : e.repays id = 0 := by
        cases e with
        | queued f => exact if_neg (by simpa [Event.about] using about)
        | _ => rfl
      rw [ih, other, Nat.zero_add]

theorem readEarly_filter (id : Nat) (journal : List Event) :
    readEarly id (journal.filter (·.about == some id)) = readEarly id journal := by
  have ceases (e : Event) : (!(e.about == some id) || !e.ceases id) = !e.ceases id := by
    cases e <;> simp [Event.ceases, Event.about]
  simp only [readEarly, List.takeWhile_filter, ceases, handed_filter]

/-- What is read after the peer has ended its side does not count, and all else does. -/
theorem readEarly_concat (journal : List Event) (e : Event) :
    readEarly id (journal ++ [e]) =
      readEarly id journal + if journal.any (·.ceases id) || e.ceases id then 0 else volume (e.handed id) := by
  unfold readEarly
  -- Once the peer has ended its side, the front that counts no longer grows.
  by_cases ceased : journal.any (·.ceases id)
  · have same : (journal ++ [e]).takeWhile (!·.ceases id) = journal.takeWhile (!·.ceases id) := by
      induction journal with
      | nil => cases ceased
      | cons first rest ih =>
        rw [List.cons_append, List.takeWhile_cons, List.takeWhile_cons]
        cases stops : first.ceases id with
        | true => rfl
        | false => simp [ih (by simpa [stops] using ceased)]
    rw [same, ceased]
    rfl
  · have going : ∀ e ∈ journal, e.ceases id = false := by simpa using ceased
    have whole : journal.takeWhile (!·.ceases id) = journal := by
      rw [List.takeWhile_eq_self_iff]
      simpa using going
    rw [List.takeWhile_append_of_pos (by simpa using going), whole, Bool.eq_false_iff.mpr ceased]
    cases stops : e.ceases id with
    | true => simp [stops]
    | false => simp [stops, handed]

theorem any_ceases : journal.any (·.ceases id) ↔ ∃ part ∈ intake id journal, part.final := by
  rw [List.any_eq_true]
  constructor
  · rintro ⟨e, member, ceases⟩
    cases e with
    | accepted stream part =>
      obtain ⟨rfl, final⟩ : stream = id ∧ part.final := by simpa [Event.ceases] using ceases
      exact ⟨part, mem_intake.mpr member, final⟩
    | _ => cases ceases
  · rintro ⟨part, taken, final⟩
    exact ⟨_, mem_intake.mp taken, by simp [Event.ceases, final]⟩

theorem readEarly_of_unhanded (unhanded : e.handed id = []) : readEarly id (journal ++ [e]) = readEarly id journal := by
  rw [readEarly_concat, unhanded]
  simp

end Journals

namespace Aside
variable {id : Nat} {front back : List Event}

theorem ceased (aside : Aside front back) : back.any (·.ceases id) = front.any (·.ceases id) := by
  obtain ⟨events, rfl, beside⟩ := aside
  have none : events.any (·.ceases id) = false := List.any_eq_false.mpr fun e member => by
    have here := beside e member
    cases e <;> first | exact Bool.false_ne_true | cases here
  rw [List.any_append, none, Bool.or_false]

theorem readEarly (aside : Aside front back) : readEarly id back = Multiplex.readEarly id front := by
  obtain ⟨events, rfl, beside⟩ := aside
  induction events generalizing front with
  | nil => rw [List.append_nil]
  | cons e rest ih =>
    obtain ⟨first, others⟩ := List.forall_mem_cons.mp beside
    have unhanded : e.handed id = [] := by
      unfold Event.handed
      split <;> first | rfl | cases first
    rw [List.append_cons, ih others, readEarly_of_unhanded unhanded]

end Aside

/-- What comes behind `front` in `back` concerns no part of a message and grants nothing. -/
def Calm (front back : List Event) : Prop := ∃ events, back = front ++ events ∧ ∀ e ∈ events, e.isBeside ∧ e.isGrant = false

namespace Calm
variable {id : Nat} {front middle back : List Event}

theorem refl (front : List Event) : Calm front front := ⟨[], (List.append_nil _).symm, nofun⟩

theorem trans (first : Calm front middle) (second : Calm middle back) : Calm front back := by
  obtain ⟨early, rfl, calm⟩ := first
  obtain ⟨late, rfl, calm'⟩ := second
  exact ⟨early ++ late, List.append_assoc .., List.forall_mem_append.mpr ⟨calm, calm'⟩⟩

theorem note {e : Event} (beside : e.isBeside) (other : e.isGrant = false) : Calm front (front ++ [e]) :=
  ⟨[e], rfl, List.forall_mem_singleton.mpr ⟨beside, other⟩⟩

theorem aside (calm : Calm front back) : Aside front back := by
  obtain ⟨events, split, calm⟩ := calm
  exact ⟨events, split, fun e member => (calm e member).1⟩

theorem repaid (calm : Calm front back) : repaid id back = Multiplex.repaid id front := by
  obtain ⟨events, rfl, calm⟩ := calm
  rw [repaid_append, repaid_of_other fun e member => (calm e member).2, Nat.add_zero]

theorem mem_grant (calm : Calm front back) {f : Outgoing} (grant : f.isGrant) (member : .queued f ∈ back) : .queued f ∈ front := by
  obtain ⟨events, rfl, calm⟩ := calm
  refine (List.mem_append.mp member).resolve_right fun late => ?_
  exact Bool.eq_false_iff.mp (calm _ late).2 grant

end Calm

namespace Lane
variable {version : Version} {config : Config} {id : Nat} {l l' : Lane}

theorem calm_queue (l : Lane) {f : Outgoing} (other : f.isGrant = false) (priority : Nat) :
    Calm l.past (l.queue f priority).past := by
  unfold queue
  split
  · exact .refl _
  · exact .note rfl other

theorem calm_put (l : Lane) (stream : Stream) {frames : List Outgoing} (other : ∀ f ∈ frames, f.isGrant = false) :
    Calm l.past (l.put stream frames).past := by
  unfold put queueAll
  generalize same : ({ l with stream := some stream } : Lane) = u
  rw [show l.past = u.past from same ▸ rfl]
  clear same
  induction frames generalizing u with
  | nil => exact .refl _
  | cons f rest ih =>
    obtain ⟨first, others⟩ := List.forall_mem_cons.mp other
    exact (calm_queue u first stream.priority).trans (ih others _)

/-- The grants of a read are put into the outbox, if it is open. -/
theorem past_put_eq (l : Lane) (stream : Stream) (frames : List Outgoing) :
    (l.put stream frames).past = l.past ++ if l.closed then [] else frames.map .queued := by
  cases hopen : l.closed with
  | false => exact past_put l stream frames hopen
  | true =>
    rw [put, queueAll_of_closed (by exact hopen)]
    exact (List.append_nil _).symm

theorem aside_grants (past : List Event) (closed : Bool) (frames : List Outgoing) :
    Aside past (past ++ if closed then [] else frames.map .queued) := by
  refine ⟨_, rfl, ?_⟩
  split
  · nofun
  · exact List.forall_mem_map.mpr fun _ _ => rfl

theorem repaid_grants (past : List Event) (closed : Bool) {frames : List Outgoing} (own : ∀ f ∈ frames, f.stream = id)
    {e : Event} (other : e.isGrant = false) :
    repaid id (past ++ (if closed then [] else frames.map .queued) ++ [e]) =
      repaid id past + if closed then 0 else increments frames := by
  rw [repaid_append, repaid_append, repaid_of_other (List.forall_mem_singleton.mpr other), Nat.add_zero]
  split
  · rfl
  · rw [repaid_queued own]

/-! ### What is granted -/

/-- The grants of a journal: each is at least one byte and no more than a window can hold, and in all they are what
    was read while the side of the peer was open, unless the outbox was closed. -/
structure Repaying (window id : Nat) (closed : Bool) (past : List Event) : Prop where
  fair : ∀ f, .queued f ∈ past → f.isGrant → 0 < f.increment ∧ f.increment ≤ maxWindow
  least : window ≤ maxWindow → repaid id past ≤ readEarly id past
  all : window ≤ maxWindow → closed = false → repaid id past = readEarly id past

section Repaying
variable {window : Nat} {closed closed' : Bool} {past past' : List Event}

theorem Repaying.calm (repaying : Repaying window id closed past) (calm : Calm past past')
    (hopen : closed' = false → closed = false) : Repaying window id closed' past' where
  fair f member grant := repaying.fair f (calm.mem_grant grant member) grant
  least fits := by
    rw [calm.repaid, calm.aside.readEarly]
    exact repaying.least fits
  all fits stays := by
    rw [calm.repaid, calm.aside.readEarly]
    exact repaying.all fits (hopen stays)

theorem Repaying.accepted (repaying : Repaying window id closed past) (part : Inbound) :
    Repaying window id closed (past ++ [.accepted id part]) := by
  have read : readEarly id (past ++ [.accepted id part]) = readEarly id past := readEarly_of_unhanded rfl
  refine ⟨fun f member => repaying.fair f (by simpa using member), fun fits => ?_, fun fits stays => ?_⟩
  · rw [repaid_accepted, read]
    exact repaying.least fits
  · rw [repaid_accepted, read]
    exact repaying.all fits stays

/-- What a read grants is what it gives, as long as the window can hold it and the peer goes on. -/
theorem Repaying.reads {frames : List Outgoing} {parts : List Inbound} {e : Event} (repaying : Repaying window id closed past)
    (own : ∀ f ∈ frames, f.stream = id) (fair : ∀ f ∈ frames, 0 < f.increment ∧ f.increment ≤ maxWindow)
    (got : e.handed id = parts) (beside : e.isGrant = false) (going : e.ceases id = false)
    (told : window ≤ maxWindow → past.any (·.ceases id) = false → increments frames = volume parts)
    (hushed : past.any (·.ceases id) → frames = []) :
    Repaying window id closed (past ++ (if closed then [] else frames.map .queued) ++ [e]) := by
  have aside := aside_grants past closed frames
  have paid := repaid_grants past closed own beside
  generalize grants : (if closed then [] else frames.map Event.queued) = mid at aside paid ⊢
  have read : readEarly id (past ++ mid ++ [e]) = readEarly id past + if past.any (·.ceases id) then 0 else volume parts := by
    rw [readEarly_concat, aside.readEarly, aside.ceased, going, Bool.or_false, got]
  -- A closed outbox takes no grant, so there the sum may stay behind what was read.
  refine ⟨fun f member grant => ?_, fun fits => ?_, fun fits stays => ?_⟩
  · rcases List.mem_append.mp member with early | last
    · rcases List.mem_append.mp early with before | now
      · exact repaying.fair f before grant
      · rw [← grants] at now
        split at now
        · cases now
        · exact fair f (by simpa using now)
    · obtain rfl := List.mem_singleton.mp last
      exact absurd grant (Bool.eq_false_iff.mp beside)
  · have before := repaying.least fits
    rw [read, paid]
    split_ifs with shut ceased
    · exact before
    · exact Nat.le_trans before (Nat.le_add_right ..)
    · next ceased =>
      rw [hushed ceased]
      exact before
    · next uncut =>
      rw [told fits (by simpa using uncut)]
      exact Nat.add_le_add_right before _
  · have before := repaying.all fits stays
    rw [read, paid, stays, if_neg Bool.false_ne_true, before]
    split_ifs with ceased
    · rw [hushed ceased, increments_nil]
    · rw [told fits (by simpa using ceased)]

end Repaying

/-! ### What is left of the window -/

/-- The window of a stream covers what was granted beyond what has come in; and where no more than the largest window is
    configured, the room in it and what waits to be read make up that window. -/
structure Metered (config : Config) (id : Nat) (l : Lane) : Prop where
  room : ∀ s, l.stream = some s → ∃ w, s.receive = some w ∧
    config.window.toNat + repaid id l.past ≤ w.room + volume (intake id l.past) ∧
    (config.window.toNat ≤ maxWindow → w.room + volume s.input = config.window.toNat)
  repaying : Repaying config.window.toNat id l.closed l.past

theorem metered_empty (config : Config) (id : Nat) : (empty id).Metered config id :=
  ⟨nofun, nofun, fun _ => Nat.le_refl _, fun _ _ => rfl⟩

/-- A step that takes nothing in and grants nothing. -/
theorem Metered.keep (metered : l.Metered config id) (calm : Calm l.past l'.past)
    (hopen : l'.closed = false → l.closed = false)
    (stream : ∀ t, l'.stream = some t → ∃ s, l.stream = some s ∧ s.Speaks t) : l'.Metered config id where
  room t found := by
    obtain ⟨s, before, speaks⟩ := stream t found
    obtain ⟨w, has, covered, whole⟩ := metered.room s before
    refine ⟨w, by rw [speaks]; exact has, ?_, fun fits => ?_⟩
    · rw [calm.repaid, calm.aside.intake]
      exact covered
    · rw [speaks]
      exact whole fits
  repaying := metered.repaying.calm calm hopen

/-- A step in which the stream takes in a part of a message. -/
theorem Metered.takes (metered : l.Metered config id) {s t : Stream} (found : l.stream = some s) {part : Inbound}
    (input : t.input = s.input ++ [part])
    (window : ∀ w, s.receive = some w → ∃ w', t.receive = some w' ∧ w'.room + part.size = w.room) :
    ({ l with stream := some t }.note (.accepted id part) : Lane).Metered config id where
  room u present := by
    obtain rfl : t = u := Option.some.inj present
    obtain ⟨w, has, covered, whole⟩ := metered.room s found
    obtain ⟨w', has', charged⟩ := window w has
    refine ⟨w', has', ?_, fun fits => ?_⟩
    · change config.window.toNat + repaid id (l.past ++ [.accepted id part]) ≤
        w'.room + volume (intake id (l.past ++ [.accepted id part]))
      rw [repaid_accepted, intake_accepted, volume_append, volume_cons, volume_nil]
      omega
    · have whole := whole fits
      rw [input, volume_append, volume_cons, volume_nil]
      omega
  repaying := metered.repaying.accepted part

/-- A step in which the handler reads. -/
theorem Metered.reads (metered : l.Metered config id) (fed : l.Fed id) {s t : Stream} (found : l.stream = some s)
    (own : s.id = id) {frames : List Outgoing} {parts : List Inbound} {e : Event}
    (repays : ∀ w, s.receive = some w → ∃ w', s.Repays t w w' frames) (input : parts ++ t.input = s.input)
    (acts : s.Acts t frames) (fair : ∀ f ∈ frames, 0 < f.increment ∧ f.increment ≤ maxWindow)
    (got : e.handed id = parts) (beside : e.isGrant = false) (going : e.ceases id = false) (untaken : e.intake? id = none) :
    ((l.put t frames).note e).Metered config id := by
  obtain ⟨w, has, covered, whole⟩ := metered.room s found
  obtain ⟨w', repaid⟩ := repays w has
  have past : ((l.put t frames).note e).past = l.past ++ (if l.closed then [] else frames.map .queued) ++ [e] :=
    congrArg (· ++ [e]) (past_put_eq l t frames)
  -- The stream and the journal know of the same end of the peer.
  have ceased : s.peerClosed = l.past.any (·.ceases id) :=
    Bool.eq_iff_iff.mpr ((fed.follows s found).message.ended_iff.trans any_ceases.symm)
  have own (f : Outgoing) (member : f ∈ frames) : f.stream = id := (acts.own f member).trans own
  refine ⟨fun u present => ?_, ?_⟩
  · obtain rfl : t = u := Option.some.inj ((stream_put ..).symm.trans present)
    refine ⟨w', repaid.receive, ?_, fun fits => ?_⟩
    · rw [past, repaid_grants l.past l.closed own beside, intake_concat untaken, (aside_grants ..).intake]
      have more := repaid.covered
      split <;> omega
    · have full := whole fits
      exact (repaid.whole (full ▸ fits)).trans full
  · rw [past, show ((l.put t frames).note e).closed = l.closed from closed_put ..]
    refine metered.repaying.reads own fair got beside going (fun fits open' => ?_) fun shut => repaid.hushed (ceased.trans shut)
    have full := whole fits
    have told := repaid.told (full ▸ fits) (ceased.trans open')
    rw [← input, volume_append] at told
    omega

theorem Metered.note (metered : l.Metered config id) {e : Event} (beside : e.isBeside) (other : e.isGrant = false) :
    (l.note e).Metered config id :=
  metered.keep (.note beside other) (fun hopen => hopen) fun t found => ⟨t, found, rfl⟩

theorem Metered.queue (metered : l.Metered config id) {f : Outgoing} (other : f.isGrant = false) (priority : Nat) :
    (l.queue f priority).Metered config id := by
  refine metered.keep (calm_queue l other priority) ?_ ?_ <;> rw [queue_rest]
  · exact fun hopen => hopen
  · exact fun t found => ⟨t, found, rfl⟩

/-- What concerns the reply alone, with the frames that come of it. -/
theorem Metered.put (metered : l.Metered config id) {stream stream' : Stream} (found : l.stream = some stream)
    (speaks : stream.Speaks stream') {frames : List Outgoing} (other : ∀ f ∈ frames, f.isGrant = false) :
    (l.put stream' frames).Metered config id := by
  refine metered.keep (calm_put l stream' other) (fun hopen => (closed_put ..).symm.trans hopen) fun t present => ?_
  obtain rfl : stream' = t := Option.some.inj ((stream_put ..).symm.trans present)
  exact ⟨stream, found, speaks⟩

/-- A stream that is aborted, if there is one, speaks as before. -/
theorem speaks_of_aborted {stream : Option Stream} {t : Stream} (present : stream.map Stream.abort = some t) :
    ∃ s, stream = some s ∧ s.Speaks t := by
  obtain ⟨old, found, rfl⟩ := Option.map_eq_some_iff.mp present
  exact ⟨old, found, Stream.speaks_abort old⟩

theorem Step.metered (h : Step .spdy3 config id l l') (orderly : l.Orderly id) (fed : l.Fed id)
    (metered : l.Metered config id) : l'.Metered config id := by
  have set {stream : Option Stream} (speaks : ∀ t, stream = some t → ∃ s, l.stream = some s ∧ s.Speaks t) :
      ({ l with stream } : Lane).Metered config id := metered.keep (.refl _) (fun hopen => hopen) speaks
  cases h with
  | noted about quiet => exact metered.note (Event.isBeside_of_isQuiet quiet) (Event.isGrant_of_isQuiet quiet)
  | outdated | left | pruned => exact ⟨metered.room, metered.repaying⟩
  | @taken rank f rest next => exact Metered.note (l := { l with waiting := rest }) ⟨metered.room, metered.repaying⟩ rfl rfl
  | @announced f zero used kind =>
    refine metered.queue ?_ 0
    cases f with
    | frame frame => cases frame <;> first | rfl | cases kind
    | headers | pushPromise => cases kind
  | refused => exact Metered.queue (l := { l with fresh := false }) ⟨metered.room, metered.repaying⟩ rfl _
  | promised => exact metered.queue rfl _
  -- A fresh stream has the whole window and was granted nothing.
  | @opened fresh hopen staying proper small parent priority window bounded list final whole =>
    have blank := orderly.blank fresh
    have unpaid : repaid id l.past = 0 :=
      repaid_of_other fun e member => Event.isGrant_of_isQuiet (blank.past e member)
    have calm : Calm (l.past ++ [.accepted id (.headers list final)]) (l.past ++ [.accepted id (.headers list final),
        .opened id parent priority (parent != 0)]) :=
      ⟨[.opened id parent priority (parent != 0)], by simp, List.forall_mem_singleton.mpr ⟨rfl, rfl⟩⟩
    refine ⟨fun t present => ?_, (metered.repaying.accepted _).calm calm fun open' => open'⟩
    obtain rfl := Option.some.inj present
    rw [Stream.acceptHeaders_of_going rfl]
    refine ⟨{ room := config.window.toNat }, rfl, ?_, fun _ => rfl⟩
    dsimp only
    rw [calm.repaid, repaid_accepted, unpaid]
    exact Nat.le_add_right ..
  | trailed found active going list =>
    have unaborted := (Stream.isActive_iff.mp active).2
    exact metered.takes found (by rw [Stream.acceptHeaders_of_going unaborted]) fun w has =>
      ⟨w, by rw [Stream.acceptHeaders_of_going unaborted]; exact has, rfl⟩
  -- What is charged for the data is what the reader is owed for it.
  | @received stream stream' found active going bytes final fits =>
    have unaborted := (Stream.isActive_iff.mp active).2
    refine metered.takes found (Stream.of_acceptData unaborted fits).1 fun w has => ?_
    rw [Stream.acceptData_of_going unaborted has] at fits
    split_ifs at fits with room
    cases fits
    exact ⟨_, rfl, Nat.sub_add_cancel room⟩
  | @granted stream stream' frames found active increment positive fits =>
    obtain ⟨-, released⟩ := Stream.of_grant (Stream.isActive_iff.mp active).2 fits
    refine (metered.note (e := .granted id increment) rfl rfl).put found (Stream.speaks_grant fits) ?_
    rw [(Prod.mk.inj released).2]
    exact fun f member => Outgoing.isGrant_of_isData (Stream.isData_release _ f member)
  | @reset stream found code =>
    refine metered.put found (Stream.speaks_reset stream code) ?_
    unfold Stream.reset
    split
    · exact List.forall_mem_singleton.mpr rfl
    · nofun
  | @hungUp stream found =>
    refine set fun t present => ?_
    obtain rfl := Option.some.inj present
    exact ⟨stream, found, Stream.speaks_abort stream⟩
  | @read stream found index step =>
    exact metered.reads fed found (orderly.own stream found) (fun w has => Stream.repays_read has) (Stream.parts_read stream)
      (Stream.acts_read stream) (Stream.increment_read stream) (if_pos rfl) rfl rfl rfl
  | @readAll stream found index =>
    exact metered.reads fed found (orderly.own stream found) (fun w has => Stream.repays_readUpTo _ has)
      (Stream.parts_readUpTo _ stream) (Stream.acts_readUpTo _ stream) (Stream.increment_readUpTo _ stream) (if_pos rfl) rfl
      rfl rfl
  | sentHeaders found index allowed =>
    obtain ⟨-, -, -, -, rfl⟩ := Stream.of_sendHeaders allowed
    exact (metered.put found (Stream.speaks_sendHeaders allowed) (List.forall_mem_singleton.mpr rfl)).note rfl rfl
  | sentData found index allowed =>
    obtain ⟨-, -, -, released⟩ := Stream.of_sendData allowed
    refine (metered.put found (Stream.speaks_sendData allowed) ?_).note rfl rfl
    rw [(Prod.mk.inj released).2]
    exact fun f member => Outgoing.isGrant_of_isData (Stream.isData_release _ f member)
  | cancelled => exact (set fun t => speaks_of_aborted).note rfl rfl
  | closed =>
    refine metered.keep (.refl _) nofun fun t present => ?_
    dsimp only at present
    split at present
    · exact speaks_of_aborted present
    · exact ⟨t, present, rfl⟩

theorem Steps.metered (h : Steps .spdy3 config id (empty id) l) : l.Metered config id :=
  h.keeps (metered_empty config id) fun earlier last metered =>
    last.metered (Steps.sound earlier (sound_empty id)).orderly (Steps.fed earlier) metered

end Lane

namespace Session
variable {s t : Session} {id : Nat}

/-! ### What the peer sees -/

/-- What a wire frame grants on a stream, to one that sees it. -/
def grantSeen (id : Nat) (w : WireHeader × Bytes) : Nat :=
  if w.1.stream = id ∧ w.1.kind = Kind.windowUpdate.code then WireHeader.low31 (Bytes.toNat w.2) else 0

/-- What wire frames grant on a stream, to one that sees them. -/
def grantsSeen (id : Nat) (frames : List Bytes) : Nat := ((frames.filterMap Frame.seen?).map (grantSeen id)).sum

theorem grantsSeen_flatMap (sent : List (Outgoing × List Bytes)) :
    grantsSeen id (sent.flatMap (·.2)) = (sent.map fun e => grantsSeen id e.2).sum := by
  induction sent with
  | nil => rfl
  | cons e rest ih =>
    rw [List.map_cons, List.sum_cons, ← ih, grantsSeen, List.flatMap_cons, List.filterMap_append, List.map_append,
      List.sum_append]
    rfl

/-- What has been granted on a stream by the wire frames that were written. -/
def told (s : Session) (id : Nat) : Nat := grantsSeen id s.written

/-- A frame grants on the wire what it says, and nothing on other streams. -/
theorem grantsSeen_wire (limit : Nat) (table : Hpack.Table) {f : Outgoing} (plain : f.isPlain)
    (small : f.stream < Frame.idBound) (fair : f.isGrant → f.increment ≤ maxWindow) (id : Nat) :
    grantsSeen id (f.wire limit table).2 = if f.stream = id then f.increment else 0 := by
  cases grant : f.isGrant with
  | true =>
    obtain ⟨stream, increment, rfl⟩ : ∃ stream increment, f = .frame (.windowUpdate stream increment) := by
      cases f with
      | frame frame => cases frame <;> first | exact ⟨_, _, rfl⟩ | cases grant
      | headers | pushPromise => cases grant
    -- Only an increment that fits into 31 bits is written as it is.
    have bounded : increment < 2 ^ 31 := Nat.lt_of_le_of_lt (fair rfl) (by decide)
    obtain ⟨length, seen⟩ := Frame.seen?_wireFrame .windowUpdate 0 (show stream < 2 ^ 31 from small)
      (Bytes.ofNat 4 (WireHeader.low31 increment))
    have wire : ((Outgoing.frame (.windowUpdate stream increment)).wire limit table).2 =
      [Frame.wireFrame .windowUpdate 0 stream (Bytes.ofNat 4 (WireHeader.low31 increment))] := rfl
    rw [grantsSeen, wire, List.filterMap_cons_some seen]
    by_cases own : stream = id <;>
      simp [grantSeen, own, Frame.toNat_low31 bounded, Outgoing.stream, Frame.stream, Outgoing.increment]
  | false =>
    obtain ⟨first, rest, wire, seen⟩ := Outgoing.seen_wire limit table plain small
    have other : f.kind.code ≠ Kind.windowUpdate.code := by
      cases f with
      | frame frame => cases frame <;> first | (simp only [Outgoing.kind]; decide) | cases grant
      | headers | pushPromise => simp only [Outgoing.kind]; decide
    -- Neither the first wire frame nor what continues it is WINDOW_UPDATE.
    have silent : ∀ w ∈ first :: rest, grantSeen id w = 0 := by
      refine List.forall_mem_cons.mpr ⟨if_neg fun both => other (seen.kind ▸ both.2), fun w later => if_neg fun both => ?_⟩
      rw [(seen.later w later).1] at both
      exact absurd both.2 (by decide)
    rw [grantsSeen, wire, Outgoing.increment_of_other grant, ite_self]
    exact List.sum_eq_zero (List.forall_mem_map.mpr silent)

theorem repaid_eq (journal : List Event) (id : Nat) :
    repaid id journal = ((journal.filterMap Event.queued?).map fun f => if f.stream = id then f.increment else 0).sum := by
  induction journal with
  | nil => rfl
  | cons e rest ih =>
    have split : repaid id (e :: rest) = e.repays id + repaid id rest := by simp [repaid]
    cases e <;> simp [split, ih, Event.repays, Event.queued?, List.filterMap_cons]

/-- What is taken in comes right behind the frame that brought it. -/
theorem volume_intake_last {journal : List Event} (timely : Chronicle Timely journal) :
    volume (intake id journal) + ((journal.getLast?.map (Event.arrives id)).getD 0) ≤ arrived id journal := by
  -- By induction on the end of the journal: an acceptance refers to the event right before it.
  induction journal using List.reverseRecOn with
  | nil => exact Nat.le_refl _
  | append_singleton rest e ih =>
    have before := ih (timely.of_prefix (List.prefix_append ..))
    have last := timely rest e (List.prefix_refl _)
    have split : volume (intake id (rest ++ [e])) = volume (intake id rest) + volume (e.intake? id).toList := by
      rw [intake_append, volume_append]
      cases taken : e.intake? id <;> simp [intake, taken]
    have more : arrived id (rest ++ [e]) = arrived id rest + e.arrives id := by simp [arrived]
    have brought : volume (e.intake? id).toList ≤ (rest.getLast?.map (Event.arrives id)).getD 0 := by
      cases e with
      | accepted stream part =>
        by_cases own : stream = id
        · cases part with
          | headers => simp [Event.intake?, own, Inbound.size]
          | data bytes final =>
            rw [show rest.getLast? = _ from last]
            simp [Event.intake?, own, Inbound.size, Event.arrives]
        · simp [Event.intake?, own]
      | _ => exact Nat.zero_le _
    rw [split, more, List.getLast?_concat, Option.map_some, Option.getD_some]
    omega

section Reached
variable {config : Config} {handlers : Handlers} {schedule : Schedule} {transport : Transport}
  (h : Reaches (start .spdy3 config handlers schedule transport) t)
include h

theorem metered_start (id : Nat) : (t.lane id).Metered config id := (steps_start h id).metered

theorem fair_start {f : Outgoing} (queued : .queued f ∈ t.journal) (grant : f.isGrant) :
    0 < f.increment ∧ f.increment ≤ maxWindow :=
  (metered_start h f.stream).repaying.fair f (List.mem_filter.mpr ⟨queued, by simp [Event.about]⟩) grant

/-- The peer has not seen more granted than was put into the outbox. -/
theorem told_le (id : Nat) : t.told id ≤ repaid id t.journal := by
  obtain ⟨sent, entered, wires, front, -⟩ := (writing_start h).sent
  -- What was written comes of frames that were taken out of the outbox, and these were put in before.
  let amount (f : Outgoing) : Nat := if f.stream = id then f.increment else 0
  have each (e : Outgoing × List Bytes) (member : e ∈ sent) : grantsSeen id e.2 = amount e.1 := by
    obtain ⟨limit, table, wire⟩ := wires e member
    have entry : e.1 ∈ t.opening :: t.taken := entered ▸ List.mem_map_of_mem member
    rw [wire]
    rcases List.mem_cons.mp entry with opening | taken
    · rw [opening]
      have small : t.opening.stream < Frame.idBound := show 0 < Frame.idBound by decide
      exact grantsSeen_wire limit table rfl small (fun grant => nomatch grant) id
    · obtain ⟨plain, small⟩ := taken_small (sound_start h) taken
      have put : e.1 ∈ t.queued := (taken_subperm h).subset taken
      obtain ⟨event, inside, named⟩ := List.mem_filterMap.mp put
      obtain rfl := Event.eq_of_queued? named
      exact grantsSeen_wire limit table plain small (fun grant => (fair_start h inside grant).2) id
  calc t.told id
      ≤ grantsSeen id (sent.flatMap (·.2)) :=
        (((front.filterMap _).sublist.map _).sum_le_sum fun _ _ => Nat.zero_le _)
    _ = (sent.map fun e => amount e.1).sum := by
        rw [grantsSeen_flatMap]
        exact congrArg List.sum (List.map_congr_left each)
    _ = (t.taken.map amount).sum := by
        have all : sent.map (fun e => amount e.1) = (t.opening :: t.taken).map amount := by
          rw [← entered, List.map_map]
          rfl
        have none : amount t.opening = 0 := ite_self _
        rw [all, List.map_cons, List.sum_cons, none, Nat.zero_add]
    _ ≤ (t.queued.map amount).sum := by
        obtain ⟨list, perm, less⟩ := taken_subperm h
        rw [← (perm.map amount).sum_eq]
        exact (less.map amount).sum_le_sum fun _ _ => Nat.zero_le _
    _ = repaid id t.journal := (repaid_eq t.journal id).symm

/-- What a stream has taken in has arrived. -/
theorem volume_intake_le (id : Nat) : volume (intake id t.journal) ≤ arrived id t.journal :=
  Nat.le_of_add_right_le (volume_intake_last (timely_start h))

end Reached

/-! ### Frames that arrive -/

/-- Data on a stream that goes on, and on the side of the peer too, is taken in if it fits in the window, and else
    the stream is reset. -/
theorem dispatch_data {stream : Stream} {w : ReceiveWindow} (found : s.active? id = some stream)
    (going : stream.peerClosed = false) (has : stream.receive = some w) (hopen : s.outbox.closed = false)
    (launch : Nat → Session → Session) (bytes : Bytes) (final : Bool) :
    let u := dispatch launch s (.data id bytes final)
    if bytes.length ≤ w.room then
      u.journal = s.journal ++ [.dispatched (.data id bytes final), .accepted id (.data bytes final)] ∧
        ∃ stream', u.stream? id = some stream' ∧ stream'.isActive ∧ stream'.input = stream.input ++ [.data bytes final]
    else
      u.journal = s.journal ++ [.dispatched (.data id bytes final), .queued (.frame (.reset id ErrorCode.flowControlError))] ∧
        u.stream? id = some stream.abort := by
  intro u
  obtain ⟨present, active⟩ := of_active? found
  have own := id_of_stream? present
  obtain ⟨unreleased, unaborted⟩ := Stream.isActive_iff.mp active
  let noted := s.note (.dispatched (.data id bytes final))
  have noticed : noted.stream? id = some stream := present
  have taken := Stream.acceptData_of_going unaborted has bytes final
  have same : u = noted.onData id bytes final := rfl
  unfold onData at same
  rw [show noted.active? id = some stream from found] at same
  dsimp only at same
  rw [if_neg (by simp [going]), taken] at same
  -- The stream goes on, so the window alone decides.
  by_cases fits : bytes.length ≤ w.room
  · rw [if_pos fits] at same ⊢
    dsimp only at same
    rw [same]
    refine ⟨List.append_assoc .., ?_⟩
    generalize charged : ({ stream with
      receive := some { room := w.room - bytes.length }, peerClosed := stream.peerClosed || final,
      input := stream.input ++ [.data bytes final] } : Stream) = stream'
    have same : stream'.id = id := charged ▸ own
    have set := stream?_setStream noted (show (noted.stream? stream'.id).isSome by rw [same, noticed]; rfl)
    rw [same] at set
    exact ⟨stream', set, charged ▸ active, charged ▸ rfl⟩
  · rw [if_neg fits] at same ⊢
    dsimp only at same
    obtain ⟨journal, left⟩ := of_reset noticed (fun _ => hopen) ErrorCode.flowControlError
    rw [same]
    refine ⟨by rw [journal, if_pos active]; exact List.append_assoc .., ?_⟩
    rw [left, Stream.reset, if_pos active]

theorem journal_sendGoAway (s : Session) (code : ErrorCode) :
    ∃ events, (s.sendGoAway code).journal = s.journal ++ events ∧
      ∀ e ∈ events, e = .queued (.frame (.goAway s.lastPeer code)) := by
  unfold sendGoAway queue
  split
  · exact ⟨[], (List.append_nil _).symm, nofun⟩
  · split
    · exact ⟨[], (List.append_nil _).symm, nofun⟩
    · exact ⟨_, rfl, by simp⟩

/-- Data that fits in the window does not get its stream reset for exceeding it. -/
theorem dispatch_data_fits (hopen : ∀ stream, s.active? id = some stream → s.outbox.closed = false) {bytes : Bytes}
    (fits : ∀ stream, s.active? id = some stream → stream.peerClosed = false →
      ∃ w, stream.receive = some w ∧ bytes.length ≤ w.room) (launch : Nat → Session → Session) (final : Bool) :
    ∃ events, (dispatch launch s (.data id bytes final)).journal = s.journal ++ .dispatched (.data id bytes final) :: events ∧
      .queued (.frame (.reset id ErrorCode.flowControlError)) ∉ events := by
  let noted := s.note (.dispatched (.data id bytes final))
  have same : dispatch launch s (.data id bytes final) = noted.onData id bytes final := rfl
  have behind {u : Session} {events : List Event} (journal : u.journal = noted.journal ++ events) :
      u.journal = s.journal ++ .dispatched (.data id bytes final) :: events := journal.trans (List.append_assoc ..)
  cases found : s.active? id with
  | none =>
    rw [same, onData, show noted.active? id = none from found]
    obtain ⟨events, journal, farewell⟩ := journal_sendGoAway noted ErrorCode.protocolError
    exact ⟨events, behind journal, fun member => nomatch farewell _ member⟩
  | some stream =>
    obtain ⟨present, active⟩ := of_active? found
    cases going : stream.peerClosed with
    | true =>
      have journal := (of_reset (s := noted) present (fun _ => hopen stream found) ErrorCode.streamClosed).1
      rw [same, onData, show noted.active? id = some stream from found]
      dsimp only
      rw [if_pos going]
      rw [if_pos active] at journal
      -- The stream is reset here as well, but with another code.
      have other : ErrorCode.flowControlError ≠ ErrorCode.streamClosed := by decide
      exact ⟨_, behind journal, by simp [other]⟩
    | false =>
      obtain ⟨w, has, fits⟩ := fits stream found going
      have taken := dispatch_data found going has (hopen stream found) launch bytes final
      rw [if_pos fits] at taken
      exact ⟨[.accepted id (.data bytes final)], taken.1, by simp⟩

section Reached
variable {config : Config} {handlers : Handlers} {schedule : Schedule} {transport : Transport}
  (h : Reaches (start .spdy3 config handlers schedule transport) t)
include h

/-- At every moment of every session with flow control, for every stream: (a) where no more than the largest window is
    configured, the room in the receive window and the data that waits to be read make up that window; so data
    that arrives while the stream goes on, on both sides, is taken in just if it fits in the window beside what
    waits, and the stream is reset otherwise; and what is granted to the peer is what the handler has read while the side
    of the peer was open, as long as the outbox is open, and no more than that afterwards. (b) Whatever window is
    configured, data that keeps to the window that was announced and to the grants that were written does not get the
    stream reset for exceeding the window. (c) Each grant is at least one byte and no more than a window can hold. -/
theorem receive_path (id : Nat) :
    (config.window.toNat ≤ maxWindow →
      (∀ stream, t.stream? id = some stream →
        ∃ w, stream.receive = some w ∧ w.room + volume stream.input = config.window.toNat) ∧
      (∀ stream, t.stream? id = some stream → stream.isActive → stream.peerClosed = false → ∀ launch bytes final,
        let u := dispatch launch t (.data id bytes final)
        if volume stream.input + bytes.length ≤ config.window.toNat then
          u.journal = t.journal ++ [.dispatched (.data id bytes final), .accepted id (.data bytes final)] ∧
            ∃ stream', u.stream? id = some stream' ∧ stream'.isActive ∧
              stream'.input = stream.input ++ [.data bytes final]
        else
          u.journal = t.journal ++ [.dispatched (.data id bytes final),
              .queued (.frame (.reset id ErrorCode.flowControlError))] ∧
            u.stream? id = some stream.abort) ∧
      repaid id t.journal ≤ readEarly id t.journal ∧
      (t.outbox.closed = false → repaid id t.journal = readEarly id t.journal)) ∧
    (∃ p ∈ config.params .spdy3, p.id = Setting.initialWindow ∧ ∀ launch bytes final,
      arrived id t.journal + bytes.length ≤ p.value.toNat + t.told id →
        ∃ events, (dispatch launch t (.data id bytes final)).journal =
            t.journal ++ .dispatched (.data id bytes final) :: events ∧
          .queued (.frame (.reset id ErrorCode.flowControlError)) ∉ events) ∧
    ∀ increment, .queued (.frame (.windowUpdate id increment)) ∈ t.journal → 1 ≤ increment ∧ increment ≤ 2 ^ 31 - 1 := by
  have metered := metered_start h id
  have orderly := (sound_start h id).orderly
  -- A stream goes on only while the outbox is open.
  have going {stream : Stream} (found : t.active? id = some stream) : t.outbox.closed = false := by
    obtain ⟨present, active⟩ := of_active? found
    exact Bool.eq_false_iff.mpr fun shut => Bool.eq_false_iff.mp (orderly.closed shut stream present) active
  have repaying := metered.repaying
  rw [past_lane] at repaying
  refine ⟨fun fits => ⟨fun stream found => ?_, fun stream found active open' launch bytes final => ?_, ?_, fun stays => ?_⟩,
    ?_, fun increment queued => fair_start h queued rfl⟩
  · obtain ⟨w, has, -, whole⟩ := metered.room stream found
    exact ⟨w, has, whole fits⟩
  · obtain ⟨w, has, -, whole⟩ := metered.room stream found
    have listed : t.active? id = some stream := by
      have kept : t.listed.contains id := orderly.listed stream found active
      rw [active?, listed?, if_pos kept, found, Option.filter_some, if_pos active]
    have taken := dispatch_data listed open' has (going listed) launch bytes final
    have room := whole fits
    have same : bytes.length ≤ w.room ↔ volume stream.input + bytes.length ≤ config.window.toNat := by omega
    simpa only [same] using taken
  · simpa only [repaid_filter, readEarly_filter] using repaying.least fits
  · simpa only [repaid_filter, readEarly_filter] using repaying.all fits stays
  · refine ⟨{ id := Setting.initialWindow, value := UInt32.ofNat (min config.window.toNat maxWindow) },
      by simp [Config.params, Version.hasFlowControl], rfl, fun launch bytes final keeps => ?_⟩
    refine dispatch_data_fits (fun stream found => going found) (fun stream found open' => ?_) launch final
    obtain ⟨w, has, covered, -⟩ := metered.room stream (of_active? found).1
    refine ⟨w, has, ?_⟩
    have announced : (UInt32.ofNat (min config.window.toNat maxWindow)).toNat ≤ config.window.toNat := by
      rw [UInt32.toNat_ofNat']
      exact Nat.le_trans (Nat.mod_le ..) (Nat.min_le_left ..)
    have told := told_le h id
    have taken := volume_intake_le h id
    rw [past_lane, repaid_filter, intake_filter] at covered
    dsimp only at keeps
    omega

end Reached

/-- A session that grants each stream four bytes, and whose peer sends three and then two. The handler reads only the
    first three before the peer is gone. -/
def tight : Session :=
  let request := (Frame.headers 1 [] false none 0).encode 1 ++ (Frame.data 1 [1, 2, 3] false).encode 1
  start .spdy3 { window := 4 } { others := [.act (.read true), .yield, .act (.read true), .await] } .atOnce
    { arrivals := [{ bytes := request }, { bytes := (Frame.data 1 [4, 5] false).encode 1 }], patience := 2 }

/-- Three bytes have been granted, two wait, and two more would fit, but three would not. -/
theorem receive_path_tight :
    let t := tight.serve
    repaid 1 t.journal = 3 ∧ t.told 1 = 3 ∧ ∃ stream w, t.stream? 1 = some stream ∧ stream.receive = some w ∧
      volume stream.input = 2 ∧ w.room = 2 ∧
      .queued (.frame (.reset 1 ErrorCode.flowControlError)) ∉ (dispatch spawn t (.data 1 [6, 7] false)).journal ∧
      ((dispatch spawn t (.data 1 [6, 7, 8] false)).stream? 1) = some stream.abort := by
  intro t
  have reached : Reaches tight t := (reaches_serve rfl).1
  obtain ⟨within, announced, -⟩ := receive_path reached 1
  obtain ⟨whole, charged, least, all⟩ := within (by decide)
  have read : readEarly 1 t.journal = 3 := by decide +kernel
  have seen : t.told 1 = 3 := by decide +kernel
  obtain ⟨stream, found⟩ : ∃ stream, t.stream? 1 = some stream := Option.isSome_iff_exists.mp (by decide +kernel)
  have here : (t.stream? 1).all (fun stream => volume stream.input == 2 && stream.isActive && !stream.peerClosed) := by
    decide +kernel
  simp only [found, Option.all_some, Bool.and_eq_true, beq_iff_eq, Bool.not_eq_true'] at here
  obtain ⟨⟨waits, active⟩, going⟩ := here
  obtain ⟨w, has, room⟩ := whole stream found
  have four : ({ window := 4 } : Config).window.toNat = 4 := rfl
  refine ⟨(all (by decide +kernel)).trans read, seen, stream, w, found, has, waits, ?_, ?_, ?_⟩
  · omega
  · obtain ⟨p, member, kind, keeps⟩ := announced
    have values : ∀ p ∈ ({ window := 4 } : Config).params .spdy3, p.id = Setting.initialWindow → p.value.toNat = 4 := by decide
    have value := values p member kind
    have five : arrived 1 t.journal = 5 := by decide +kernel
    obtain ⟨events, journal, spared⟩ := keeps spawn [6, 7] false (by rw [five, value, seen]; decide)
    have before : .queued (.frame (.reset 1 ErrorCode.flowControlError)) ∉ t.journal := by decide +kernel
    rw [journal]
    simp [before, spared]
  · have refused := charged stream found active going spawn [6, 7, 8] false
    rw [if_neg (by simp [waits, four])] at refused
    exact refused.2

/-- A session whose handler ends its reply, and reads what the peer sent only when the session closes down. -/
def leftover : Session :=
  let request := (Frame.headers 1 [] false none 0).encode 1 ++ (Frame.data 1 [1, 2, 3, 4, 5] false).encode 1
  start .spdy3 {} { others := [.yield, .act (.headers [] true), .yield, .yield, .act .readAll] } .atOnce
    { arrivals := [{ bytes := request }], patience := 2 }

/-- The stream was not aborted, the side of the peer is open, and five bytes are read, but nothing is granted: the outbox is
    closed. -/
theorem receive_path_leftover :
    let t := leftover.runToEnd
    Reaches leftover t ∧ leftover.config.window.toNat ≤ maxWindow ∧
      (t.stream? 1).any (fun stream => !stream.aborted && !stream.peerClosed) ∧ readEarly 1 t.journal = 5 ∧
      repaid 1 t.journal = 0 := by
  intro t
  refine ⟨reaches_runToEnd leftover, ?_⟩
  decide +kernel

end Session

end Multiplex
