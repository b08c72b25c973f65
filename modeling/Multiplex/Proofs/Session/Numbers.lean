import Mathlib.Data.List.Nodup
import Mathlib.Data.List.Perm.Basic
import Multiplex.Proofs.Session.Interleavings
import Multiplex.Proofs.Session.Ordinary

/-! # The numbers of streams

The peer numbers its streams with odd numbers, this end its pushes with even ones, and neither uses a
number twice: the peer has to go up from the last number that it tried, and the pushes are counted
(`Numbered`). After GOAWAY no stream is opened, so the number that it gives is the last one tried in the
whole run. -/

namespace Multiplex

namespace Event

/-- The stream that an event opens, and whether this end opens it. -/
def opening? : Event → Option (Nat × Bool)
  | .opened id _ _ pushed => some (id, pushed)
  | _ => none

/-- The stream that the peer opens by an event, or that is turned away. -/
def attempt? : Event → Option Nat
  | .opened id _ _ false => some id
  | .queued (.frame (.reset id code)) => if code = ErrorCode.refusedStream then some id else none
  | _ => none

/-- The stream that GOAWAY names as the last, when it goes into the outbox. -/
def farewell? : Event → Option Nat
  | .queued (.frame (.goAway last _)) => some last
  | _ => none

/-- An event that opens no stream, turns none away, and announces no end. -/
structure IsPlain (e : Event) : Prop where
  opening : e.opening? = none
  attempt : e.attempt? = none
  farewell : e.farewell? = none

theorem isPlain_of_isOrdinary {e : Event} (ordinary : e.isOrdinary) : e.IsPlain := by
  cases e with
  | opened => cases ordinary
  | queued f =>
    cases f with
    | frame frame =>
      cases frame with
      | reset id code => exact ⟨rfl, if_neg (bne_iff_ne.mp ordinary), rfl⟩
      | goAway => cases ordinary
      | _ => exact ⟨rfl, rfl, rfl⟩
    | headers => exact ⟨rfl, rfl, rfl⟩
    | pushPromise => cases ordinary
  | _ => exact ⟨rfl, rfl, rfl⟩

end Event

namespace Session

/-- The streams that were opened, in order, and whether this end opened them. -/
def openings (s : Session) : List (Nat × Bool) := s.journal.filterMap Event.opening?

/-- The streams that one end opened, in order. -/
def opened (s : Session) (pushed : Bool) : List Nat := (s.openings.filter (·.2 == pushed)).map (·.1)

/-- The streams that the peer opened or that were turned away, in order. -/
def attempts (s : Session) : List Nat := s.journal.filterMap Event.attempt?

/-- The last streams that were named when GOAWAY went into the outbox. -/
def farewells (s : Session) : List Nat := s.journal.filterMap Event.farewell?

variable {s t u : Session}

section Append
variable {events : List Event} (journal : t.journal = s.journal ++ events)
include journal

theorem openings_append : t.openings = s.openings ++ events.filterMap Event.opening? := by
  rw [openings, journal, List.filterMap_append]
  rfl

theorem attempts_append : t.attempts = s.attempts ++ events.filterMap Event.attempt? := by
  rw [attempts, journal, List.filterMap_append]
  rfl

theorem opened_append (pushed : Bool) :
    t.opened pushed = s.opened pushed ++ ((events.filterMap Event.opening?).filter (·.2 == pushed)).map (·.1) := by
  rw [opened, openings_append journal, List.filter_append, List.map_append]
  rfl

theorem farewells_append : t.farewells = s.farewells ++ events.filterMap Event.farewell? := by
  rw [farewells, journal, List.filterMap_append]
  rfl

end Append

/-! ### Numbers -/

/-- How a session has numbered its streams. -/
structure Numbered (s : Session) : Prop where
  ids : s.streams.map (·.id) = s.openings.map (·.1)
  rising : (0 :: s.attempts).Pairwise (· < ·)
  last : s.lastPeer = s.attempts.getLastD 0
  odd : ∀ id ∈ s.attempts, id % 2 = 1 ∧ id ≤ maxStream
  peers : (s.opened false).Sublist s.attempts
  pushes : ∃ count, s.opened true = List.range' 2 count 2 ∧ s.nextPush = 2 + 2 * count
  small : ∀ id ∈ s.opened true, id ≤ maxStream
  farewells : s.farewells = if s.goAwaySent then [s.lastPeer] else []
  final : s.journal.Pairwise fun e later => e.farewell? ≠ none → later.opening? = none

namespace Numbered

theorem start (version : Version) (config : Config) (handlers : Handlers) (schedule : Schedule)
    (transport : Transport) : (Session.start version config handlers schedule transport).Numbered where
  ids := rfl
  rising := by simp [attempts, Session.start]
  last := rfl
  odd := nofun
  peers := .slnil
  pushes := ⟨0, rfl, rfl⟩
  small := nofun
  farewells := rfl
  final := .nil

/-- Events that open nothing may follow at any time. -/
theorem final_append (numbered : s.Numbered) {events : List Event} (opening : ∀ e ∈ events, e.opening? = none) :
    (s.journal ++ events).Pairwise fun e later => e.farewell? ≠ none → later.opening? = none :=
  List.pairwise_append.mpr ⟨numbered.final,
    List.pairwise_of_forall_mem_list fun _ _ later member _ => opening later member,
    fun _ _ later member _ => opening later member⟩

/-- Events that are plain change no number. -/
theorem keep (numbered : s.Numbered) {events : List Event} (journal : t.journal = s.journal ++ events)
    (plain : ∀ e ∈ events, e.IsPlain) (lastPeer : t.lastPeer = s.lastPeer) (nextPush : t.nextPush = s.nextPush)
    (goAwaySent : t.goAwaySent = s.goAwaySent) (ids : t.streams.map (·.id) = s.streams.map (·.id)) : t.Numbered := by
  have openings : t.openings = s.openings := by
    rw [openings_append journal, List.filterMap_eq_nil_iff.mpr fun e member => (plain e member).opening,
      List.append_nil]
  have attempts : t.attempts = s.attempts := by
    rw [attempts_append journal, List.filterMap_eq_nil_iff.mpr fun e member => (plain e member).attempt,
      List.append_nil]
  have farewells : t.farewells = s.farewells := by
    rw [farewells_append journal, List.filterMap_eq_nil_iff.mpr fun e member => (plain e member).farewell,
      List.append_nil]
  have opened (pushed : Bool) : t.opened pushed = s.opened pushed := by rw [opened, openings, opened]
  refine ⟨?_, attempts ▸ numbered.rising, ?_, attempts ▸ numbered.odd, ?_, ?_, opened true ▸ numbered.small, ?_, ?_⟩
  · rw [ids, openings, numbered.ids]
  · rw [lastPeer, attempts, numbered.last]
  · rw [attempts, opened]
    exact numbered.peers
  · rw [opened, nextPush]
    exact numbered.pushes
  · rw [farewells, goAwaySent, lastPeer, numbered.farewells]
  · rw [journal]
    exact numbered.final_append fun e member => (plain e member).opening

theorem ordinary (numbered : s.Numbered) (change : Ordinary s t) : t.Numbered := by
  obtain ⟨lastPeer, nextPush, goAwaySent, -⟩ := change.rest
  obtain ⟨events, journal, ordinary⟩ := change.journal
  exact numbered.keep journal (fun e member => Event.isPlain_of_isOrdinary (ordinary e member)) lastPeer nextPush
    goAwaySent change.ids

/-- The last number that the peer has tried is the greatest. -/
theorem le_lastPeer (numbered : s.Numbered) {id : Nat} (tried : id ∈ 0 :: s.attempts) : id ≤ s.lastPeer := by
  have rising := numbered.rising
  rw [numbered.last]
  rcases List.eq_nil_or_concat s.attempts with none | ⟨front, last, split⟩
  · rw [none] at tried ⊢
    exact Nat.le_of_eq (List.mem_singleton.mp tried)
  · rw [split, List.concat_eq_append, ← List.cons_append] at rising tried
    rw [split, List.concat_eq_append, List.getLastD_concat]
    rcases List.mem_append.mp tried with early | late
    · exact Nat.le_of_lt ((List.pairwise_append.mp rising).2.2 id early last (List.mem_singleton_self _))
    · exact Nat.le_of_eq (List.mem_singleton.mp late)

theorem max_attempts (numbered : s.Numbered) : s.attempts.max?.getD 0 = s.lastPeer := by
  have greatest (id : Nat) (tried : id ∈ s.attempts) : id ≤ s.lastPeer :=
    numbered.le_lastPeer (List.mem_cons_of_mem 0 tried)
  have last := numbered.last
  rcases List.eq_nil_or_concat s.attempts with none | ⟨front, back, split⟩
  · rw [last, none]
    rfl
  · rw [split, List.concat_eq_append, List.getLastD_concat] at last
    have tried : s.lastPeer ∈ s.attempts := by simp [split, last]
    rw [List.max?_eq_some_iff.mpr ⟨tried, greatest⟩, Option.getD_some]

/-- The peer goes up from the last number that it tried. -/
theorem rising_append (numbered : s.Numbered) {id : Nat} (new : s.lastPeer < id) :
    (0 :: (s.attempts ++ [id])).Pairwise (· < ·) := by
  rw [← List.cons_append]
  refine List.pairwise_append.mpr ⟨numbered.rising, List.pairwise_singleton .., fun a member b single => ?_⟩
  exact List.mem_singleton.mp single ▸ Nat.lt_of_le_of_lt (numbered.le_lastPeer member) new

/-- GOAWAY names the last number that the peer has tried. -/
theorem announced (numbered : s.Numbered) {code : ErrorCode}
    (journal : t.journal = s.journal ++ [.queued (.frame (.goAway s.lastPeer code))])
    (staying : s.goAwaySent = false) (goAwaySent : t.goAwaySent = true) (lastPeer : t.lastPeer = s.lastPeer)
    (nextPush : t.nextPush = s.nextPush) (ids : t.streams.map (·.id) = s.streams.map (·.id)) : t.Numbered := by
  have none : s.farewells = [] := numbered.farewells.trans (if_neg (by simp [staying]))
  have opened (pushed : Bool) : t.opened pushed = s.opened pushed :=
    (opened_append journal pushed).trans (List.append_nil _)
  have attempts : t.attempts = s.attempts := (attempts_append journal).trans (List.append_nil _)
  refine ⟨?_, attempts ▸ numbered.rising, ?_, attempts ▸ numbered.odd, ?_, ?_, opened true ▸ numbered.small,
    ?_, ?_⟩
  · rw [ids, openings_append journal, numbered.ids]
    exact congrArg _ (List.append_nil _).symm
  · rw [lastPeer, attempts, numbered.last]
  · rw [attempts, opened]
    exact numbered.peers
  · rw [opened, nextPush]
    exact numbered.pushes
  · rw [farewells_append journal, none, goAwaySent, lastPeer]
    rfl
  · rw [journal]
    exact numbered.final_append (by simp [Event.opening?])

/-- Before GOAWAY, nothing has been announced. -/
theorem silent (numbered : s.Numbered) (staying : s.goAwaySent = false) : ∀ e ∈ s.journal, e.farewell? = none :=
  List.filterMap_eq_nil_iff.mp (numbered.farewells.trans (if_neg (by simp [staying])))

/-- The peer tries a new number, and a stream is opened with it or not. -/
theorem tried (numbered : s.Numbered) {events : List Event} (journal : t.journal = s.journal ++ events)
    (staying : s.goAwaySent = false) {id : Nat} (odd : id % 2 ≠ 0) (new : s.lastPeer < id)
    (small : id < Frame.idBound) (attempt : events.filterMap Event.attempt? = [id]) (farewell : events.filterMap Event.farewell? = [])
    (opening : (events.filterMap Event.opening?).Sublist [(id, false)]) (lastPeer : t.lastPeer = id)
    (nextPush : t.nextPush = s.nextPush) (goAwaySent : t.goAwaySent = s.goAwaySent)
    (ids : t.streams.map (·.id) = s.streams.map (·.id) ++ (events.filterMap Event.opening?).map (·.1)) :
    t.Numbered := by
  have attempts : t.attempts = s.attempts ++ [id] := attempt ▸ attempts_append journal
  have none : s.farewells = [] := numbered.farewells.trans (if_neg (by simp [staying]))
  -- What the peer opens leaves the numbers of pushes as they were.
  have own : t.opened true = s.opened true := by
    rw [opened_append journal, List.filter_eq_nil_iff.mpr, List.map_nil, List.append_nil]
    intro o member
    simp [List.mem_singleton.mp (opening.subset member)]
  refine ⟨?_, attempts ▸ numbered.rising_append new, ?_, ?_, ?_, ?_, own ▸ numbered.small, ?_, ?_⟩
  · rw [ids, openings_append journal, List.map_append, numbered.ids]
  · rw [lastPeer, attempts, List.getLastD_concat]
  · rw [attempts]
    refine List.forall_mem_append.mpr ⟨numbered.odd, ?_⟩
    have bound : id ≤ maxStream := Nat.le_of_lt_succ small
    simpa [bound] using odd
  · rw [attempts, opened_append journal]
    exact numbered.peers.append ((List.filter_sublist.trans opening).map _)
  · rw [own, nextPush]
    exact numbered.pushes
  · rw [farewells_append journal, none, farewell, goAwaySent, staying]
    rfl
  · rw [journal]
    refine List.pairwise_of_forall_mem_list fun e member later _ announced => absurd ?_ announced
    exact (List.mem_append.mp member).elim (numbered.silent staying e) (List.filterMap_eq_nil_iff.mp farewell e)

/-- This end opens the stream of its next push. -/
theorem pushed (numbered : s.Numbered) {events : List Event} (journal : t.journal = s.journal ++ events)
    (staying : s.goAwaySent = false) (small : s.nextPush ≤ maxStream)
    (attempt : events.filterMap Event.attempt? = []) (farewell : events.filterMap Event.farewell? = [])
    (opening : events.filterMap Event.opening? = [(s.nextPush, true)]) (lastPeer : t.lastPeer = s.lastPeer)
    (nextPush : t.nextPush = s.nextPush + 2) (goAwaySent : t.goAwaySent = s.goAwaySent)
    (ids : t.streams.map (·.id) = s.streams.map (·.id) ++ [s.nextPush]) : t.Numbered := by
  have attempts : t.attempts = s.attempts := by rw [attempts_append journal, attempt, List.append_nil]
  have own : t.opened true = s.opened true ++ [s.nextPush] := by
    rw [opened_append journal, opening]
    rfl
  have peers : t.opened false = s.opened false := by
    rw [opened_append journal, opening]
    exact List.append_nil _
  refine ⟨?_, attempts ▸ numbered.rising, ?_, attempts ▸ numbered.odd, ?_, ?_, ?_, ?_, ?_⟩
  · rw [ids, openings_append journal, opening, List.map_append, numbered.ids]
    rfl
  · rw [lastPeer, attempts, numbered.last]
  · rw [attempts, peers]
    exact numbered.peers
  -- Pushes have the even numbers in turn, so the next one extends the range.
  · obtain ⟨count, earlier, next⟩ := numbered.pushes
    refine ⟨count + 1, ?_, by omega⟩
    rw [own, earlier, next, List.range'_concat]
  · rw [own]
    exact List.forall_mem_append.mpr ⟨numbered.small, by simpa using small⟩
  · rw [farewells_append journal, farewell, goAwaySent, lastPeer, numbered.farewells, List.append_nil]
  · rw [journal]
    refine List.pairwise_of_forall_mem_list fun e member later _ announced => absurd ?_ announced
    exact (List.mem_append.mp member).elim (numbered.silent staying e) (List.filterMap_eq_nil_iff.mp farewell e)

/-! ### Steps -/

theorem sendGoAway (numbered : s.Numbered) (hopen : s.outbox.closed = false) (code : ErrorCode) :
    (s.sendGoAway code).Numbered := by
  unfold Session.sendGoAway
  split
  · exact numbered
  · next staying =>
    rw [queue_of_open (s := { s with goAwaySent := true }) hopen]
    exact numbered.announced rfl (by simpa using staying) rfl rfl rfl rfl

/-- No stream has the number zero. -/
theorem stream_ne_zero (numbered : s.Numbered) {i : Nat} {stream : Stream} (found : s.stream? i = some stream) :
    stream.id ≠ 0 := by
  have listed : stream.id ∈ s.openings.map (·.1) :=
    numbered.ids ▸ List.mem_map_of_mem (List.mem_of_find?_eq_some found)
  obtain ⟨⟨id, own⟩, member, same⟩ := List.mem_map.mp listed
  have here : id ∈ s.opened own := List.mem_map.mpr ⟨(id, own), List.mem_filter.mpr ⟨member, by simp⟩, rfl⟩
  rw [← same]
  rintro rfl
  cases own with
  | false => exact absurd (numbered.odd _ (numbered.peers.subset here)).1 (by decide)
  | true =>
    obtain ⟨count, pushes, -⟩ := numbered.pushes
    obtain ⟨k, -, zero⟩ := List.mem_range'.mp (pushes ▸ here)
    omega

theorem promised (numbered : s.Numbered) (idle : s.executor.stopped = false) {i : Nat} {stream : Stream}
    (found : s.stream? i = some stream) (allowed : s.pushError? stream = none) (unused : s.stream? s.nextPush = none)
    (list : List Header) (priority : Nat) :
    (addTask s.nextPush (s.promise stream list priority)).Numbered := by
  obtain ⟨-, -, staying, -, -, small⟩ := of_pushError? allowed
  have child : (stream.id != 0) = true := bne_iff_ne.mpr (numbered.stream_ne_zero found)
  obtain ⟨new, own, -, added⟩ := addTask_promise allowed idle unused list priority
  rw [added, child]
  refine numbered.pushed rfl staying small rfl rfl rfl rfl rfl rfl ?_
  rw [List.map_append, List.map_singleton, own]

theorem effect (numbered : s.Numbered) {decoded : Except Hpack.Fault (List Header)} {frame : Frame}
    (h : Effect s decoded frame t) (hopen : s.outbox.closed = false)
    (idle : s.executor.stopped = false) (fresh : ∀ id, s.isFresh id → s.stream? id = none)
    (small : frame.stream < Frame.idBound) : t.Numbered := by
  cases h with
  | passed => exact numbered
  | left | crashed => exact numbered.ordinary (.beside rfl)
  | breach => exact numbered.sendGoAway hopen _
  | answered => exact numbered.ordinary (.queue rfl _)
  | @adopted params peer allowed =>
    have set : Ordinary s (s.adopt peer) := .beside rfl
    exact numbered.ordinary (set.trans (.queue rfl _))
  | @trailed id block priority flags stream found active going list read =>
    have set := (Ordinary.setStream (s := s) (stream.acceptHeaders list true)).ids
    exact numbered.keep rfl (by simpa using ⟨rfl, rfl, rfl⟩) rfl rfl rfl set
  | @received id bytes final stream stream' =>
    have set := (Ordinary.setStream (s := s) stream').ids
    exact numbered.keep rfl (by simpa using ⟨rfl, rfl, rfl⟩) rfl rfl rfl set
  -- A number is used up also where the stream is turned away.
  | @turnedAway id block final priority flags staying odd new rank =>
    rw [queue_of_open (s := { s with lastPeer := id }) hopen]
    exact numbered.tried rfl staying odd new small rfl rfl (List.nil_sublist _) rfl rfl rfl (List.append_nil _).symm
  | @opened id block final priority flags staying odd new room rank list read =>
    have unused : s.stream? id = none := fresh id (isFresh_of_odd odd new)
    rw [addTask_addStream (s := { s with lastPeer := id }) unused rfl idle]
    refine numbered.tried rfl staying odd new small rfl rfl (List.Sublist.refl _) rfl rfl rfl ?_
    rw [List.map_append, List.map_singleton, (Stream.reads_acceptHeaders _ _ _).id]
    rfl
  | granted found positive fits => exact numbered.ordinary (.grant found fits)
  | offended found other => exact numbered.ordinary (.reset _ other)
  | hungUp => exact numbered.ordinary (.setStream _)

theorem advance (numbered : s.Numbered) (h : Advance s t) (stable : s.Stable) (fresh : s.Fresh) : t.Numbered := by
  rcases h.ordinary with ordinary | special
  · exact numbered.ordinary ordinary
  cases special with
  | promised list priority found allowed =>
    obtain ⟨idle, unused⟩ := stable.unused fresh allowed
    exact numbered.promised idle found allowed unused list priority
  | @dispatched running frame reader next =>
    obtain ⟨hopen, idle⟩ := stable.running running
    let u : Session := { s with reader }
    have noted : Numbered { u.note (.dispatched frame) with receiveTable := u.tableAfter frame } :=
      numbered.keep rfl (by simpa using ⟨rfl, rfl, rfl⟩) rfl rfl rfl rfl
    exact noted.effect (effect_dispatch u frame) hopen idle (fun id unused => (fresh id unused).stream)
      (stable.reader.next next).1
  | wentAway running code => exact numbered.sendGoAway (stable.running running).1 code

/-- No number is used twice: each end goes up, and they use numbers of different parity. -/
theorem nodup (numbered : s.Numbered) : (s.openings.map (·.1)).Nodup := by
  have rising : (s.opened false).Pairwise (· < ·) :=
    (List.pairwise_cons.mp numbered.rising).2.sublist numbered.peers
  obtain ⟨count, pushes, -⟩ := numbered.pushes
  have apart : (s.opened true).Disjoint (s.opened false) := by
    intro id own peer
    obtain ⟨k, -, even⟩ := List.mem_range'.mp (pushes ▸ own)
    have odd := (numbered.odd id (numbered.peers.subset peer)).1
    omega
  have split : (s.opened true ++ s.opened false).Perm (s.openings.map (·.1)) := by
    have parts := (List.filter_append_perm (·.2 == true) s.openings).map (·.1)
    rw [List.map_append] at parts
    simpa [opened] using parts
  refine split.nodup_iff.mp (List.nodup_append'.mpr ⟨?_, rising.imp Nat.ne_of_lt, apart⟩)
  rw [pushes]
  exact List.nodup_range' 2

/-- What comes with GOAWAY is final. -/
theorem farewell (numbered : s.Numbered) {front back : List Event} {last : Nat} {code : ErrorCode}
    (split : s.journal = front ++ .queued (.frame (.goAway last code)) :: back) :
    (∀ e ∈ back, e.opening? = none) ∧ (∀ e ∈ front ++ back, e.farewell? = none) ∧ last = s.lastPeer := by
  have final := numbered.final
  rw [split] at final
  have farewells := numbered.farewells
  have parts : s.farewells = front.filterMap Event.farewell? ++ last :: back.filterMap Event.farewell? := by
    rw [Session.farewells, split, List.filterMap_append]
    rfl
  have announced : s.goAwaySent := by
    refine Bool.of_not_eq_false fun staying => ?_
    simp [parts, staying] at farewells
  rw [parts, if_pos announced] at farewells
  obtain ⟨early, rest⟩ | ⟨-, rest⟩ := List.append_eq_singleton_iff.mp farewells
  · obtain ⟨same, late⟩ := List.cons_eq_cons.mp rest
    refine ⟨fun e member => ?_, List.forall_mem_append.mpr ⟨?_, ?_⟩, same⟩
    · exact (List.pairwise_cons.mp (List.pairwise_append.mp final).2.1).1 e member nofun
    · exact List.filterMap_eq_nil_iff.mp early
    · exact List.filterMap_eq_nil_iff.mp late
  · cases rest

end Numbered

section Reached
variable {version : Version} {config : Config} {handlers : Handlers} {schedule : Schedule} {transport : Transport}
  (h : Reaches (start version config handlers schedule transport) t)
include h

theorem numbered_start : t.Numbered :=
  h.keeps_from (.start ..) fun earlier last numbered =>
    numbered.advance last (followed_start earlier).stable (followed_start earlier).fresh

/-- At every moment of every session, each stream has been opened once, and no two have the same number. The
    peer's have odd numbers that go up, the pushed ones the even numbers from 2 on, and none is beyond the
    greatest. Once GOAWAY has gone into the outbox no stream is opened any more, neither by the peer nor by a
    push, and GOAWAY is not repeated; it names the greatest number with which the peer opened a stream or was
    turned away in the whole run, or 0 if there was none. -/
theorem stream_numbers :
    ((t.openings.map (·.1)).Nodup ∧ t.streams.map (·.id) = t.openings.map (·.1)) ∧
    ((t.opened false).Pairwise (· < ·) ∧ ∀ id ∈ t.opened false, id % 2 = 1 ∧ id ≤ maxStream) ∧
    ((∃ count, t.opened true = List.range' 2 count 2) ∧ ∀ id ∈ t.opened true, id ≤ maxStream) ∧
    ∀ front back last code, t.journal = front ++ .queued (.frame (.goAway last code)) :: back →
      (∀ e ∈ back, e.opening? = none) ∧ (∀ e ∈ front ++ back, e.farewell? = none) ∧
      last = t.attempts.max?.getD 0 ∧ ∀ id ∈ t.opened false, id ≤ last := by
  have numbered := numbered_start h
  obtain ⟨count, pushes, -⟩ := numbered.pushes
  refine ⟨⟨numbered.nodup, numbered.ids⟩, ⟨?_, ?_⟩, ⟨⟨count, pushes⟩, numbered.small⟩, ?_⟩
  · exact (List.pairwise_cons.mp numbered.rising).2.sublist numbered.peers
  · exact fun id member => numbered.odd id (numbered.peers.subset member)
  · intro front back last code split
    obtain ⟨opening, alone, rfl⟩ := numbered.farewell split
    refine ⟨opening, alone, numbered.max_attempts.symm, fun id member => ?_⟩
    exact numbered.le_lastPeer (List.mem_cons_of_mem 0 (numbered.peers.subset member))

end Reached

/-- A session that takes one stream at a time. The handler of the first pushes two, and while it goes on the peer
    tries another one, then an even number, and then a third one. -/
def crowded : Session :=
  let request (id : Nat) := (Frame.headers id [] true none 0).encode 1
  start .spdy3 { maxStreams := 1 }
    { own := [(1, [.act (.push [] 0), .act (.push [] 0), .yield, .act (.headers [] true)])],
      others := [.act (.headers [] true)] }
    .atOnce { arrivals := [{ bytes := request 1 ++ request 3 ++ request 4 ++ request 5 }] }

/-- The second stream is turned away, and still it is the one that GOAWAY names. -/
theorem stream_numbers_crowded :
    let t := crowded.runToEnd
    t.openings = [(1, false), (2, true), (4, true)] ∧
      ∃ front back, t.journal = front ++ .queued (.frame (.goAway 3 ErrorCode.protocolError)) :: back ∧
        (∀ e ∈ back, e.opening? = none) ∧ 3 = t.attempts.max?.getD 0 := by
  intro t
  have announced : .queued (.frame (.goAway 3 ErrorCode.protocolError)) ∈ t.journal := by decide +kernel
  obtain ⟨front, back, split⟩ := List.append_of_mem announced
  obtain ⟨-, -, -, last⟩ := stream_numbers (reaches_runToEnd crowded)
  obtain ⟨opening, -, greatest, -⟩ := last front back 3 _ split
  exact ⟨by decide +kernel, front, back, split, opening, greatest⟩

/-- A session whose peer sends a request and then breaks the protocol, while the handler of the request goes on. -/
def brash : Session :=
  start .spdy3 {} { others := [.yield, .yield, .act (.headers [] true)] } .atOnce
    { arrivals := [{ bytes := (Frame.headers 1 [] true none 0).encode 1 }, { bytes := (Frame.windowUpdate 1 0).encode 1 }] }

/-- The handler pushes, on a thread of its own, and has passed all checks when GOAWAY goes into the outbox. The pushed
    stream is opened after that. -/
theorem stream_numbers_late :
    ∃ m, Slices { session := brash } m ∧
      [.queued (.frame (.goAway 1 ErrorCode.protocolError)), .opened 2 1 0 true].Sublist m.session.journal := by
  have before := slices_atInput brash 1 rfl (by decide +kernel) (by decide +kernel) (by decide +kernel)
  exact reached_of_play? before [.claim 1 [] 0, .leave ErrorCode.protocolError, .queue, .promise, .insert, .submit 2]
    (by decide +kernel)

end Session

end Multiplex
