import Multiplex.Proofs.Session.Mild

/-! # What holds at every moment among threads

A slice is steady if its change of the session is mild and it leaves the pushes and the end of the run alone (`Steady`). The
others are few (`Stir`), so what is kept by steady slices and by those few holds at every moment: how far the session has
closed down (`Phased`), which numbers its streams have and which of them have tasks (`Enrolled`), and that it looks after
every stream that goes on (`Tended`). -/

namespace Multiplex.Session

variable {s t : Session} {m n : Moment}

/-! ### New tasks -/

theorem addTask_going {id : Nat} {stream : Stream} (found : s.stream? id = some stream)
    (going : s.executor.stopped = false) :
    addTask id s = { s with
      executor := s.executor.enqueue stream.priority id,
      journal := s.journal ++ [.opened id stream.parent stream.priority stream.isPushed] } := by
  unfold addTask
  rw [found]
  exact if_neg (by simp [note, going])

/-- A task that comes after the end is cancelled at once. -/
theorem addTask_stopped {id : Nat} {stream : Stream} (found : s.stream? id = some stream) (stopped : s.executor.stopped) :
    addTask id s = (s.note (.opened id stream.parent stream.priority stream.isPushed)).cancel id := by
  unfold addTask
  rw [found]
  exact if_pos stopped

theorem nextPush_addTask (s : Session) (id : Nat) : (addTask id s).nextPush = s.nextPush := by
  unfold addTask
  split
  · rfl
  · dsimp only
    split
    · rw [cancel_rest]
      rfl
    · rfl

theorem nextPush_promise (s : Session) (stream : Stream) (list : List Header) (priority : Nat) :
    (s.promise stream list priority).nextPush = s.nextPush + 2 := by
  unfold promise queue
  dsimp only
  split <;> rfl

/-! ### Steady slices -/

/-- A slice that opens no stream, starts no task, and leaves the pushes and the end of the run alone. -/
structure Steady (m n : Moment) : Prop where
  session : Mild m.session n.session
  stage : n.phase.stage = m.phase.stage
  aborts : n.phase.aborts = m.phase.aborts
  cancels : n.phase.cancels = m.phase.cancels
  pushing : n.pushing.map (·.id) = m.pushing.map (·.id)
  unsubmitted : n.unsubmitted = m.unsubmitted

/-- What slices do that are not steady. -/
inductive Stir : Moment → Moment → Prop
  | advanced {m : Moment} {t : Session} (free : m.phase = .free) (hopen : t.outbox.closed = false)
      (h : Advance m.session t) (held : m.pushing.isSome → Lockless m.session t) : Stir m { m with session := t }
  | started {m : Moment} {id : Nat} {executor : Executor Nat} (next : m.session.executor.next? = some (id, executor)) :
      Stir m { m with session := { m.session with executor }.note (.started id) }
  | claimed {m : Moment} (p : Pushing) (own : p.id = m.session.nextPush) (small : p.id ≤ maxStream)
      (unlocked : m.pushing = none) (early : m.phase.stage = 0) :
      Stir m { m with session := { m.session with nextPush := m.session.nextPush + 2 }, pushing := some p }
  | lost {m : Moment} {t : Session} (mild : Mild m.session t) : Stir m { m with session := t, pushing := none }
  | inserted {m : Moment} {p : Pushing} (now : m.pushing = some p) :
      Stir m { m with session := m.session.addPushed p, pushing := none, unsubmitted := m.unsubmitted ++ [p.id] }
  | submitted {m : Moment} {id : Nat} (waits : id ∈ m.unsubmitted) :
      Stir m { m with session := addTask id m.session, unsubmitted := m.unsubmitted.erase id }
  | drained {m : Moment} {reason : StopReason} (free : m.phase = .free) (stopped : m.session.status = .stopped reason) :
      Stir m { m with phase := .draining }
  | closed {m : Moment} (now : m.phase = .draining) :
      Stir m { m with session := { m.session with outbox := m.session.outbox.close }, phase := .closing }
  | emptied {m : Moment} (now : m.phase = .closing) (unlocked : m.pushing = none) :
      Stir m { m with session := { m.session with listed := [] }, phase := .aborting m.session.listed }
  | aborted {m : Moment} {id : Nat} {rest : List Nat} (now : m.phase = .aborting (id :: rest)) :
      Stir m { m with session := m.session.abort id, phase := .aborting rest }
  | halted {m : Moment} (now : m.phase = .aborting []) :
      Stir m { m with
        session := { m.session with executor := m.session.executor.stop.1 },
        phase := .cancelling m.session.executor.stop.2 }
  | cancelled {m : Moment} {id : Nat} {rest : List Nat} (now : m.phase = .cancelling (id :: rest)) :
      Stir m { m with session := m.session.cancel id, phase := .cancelling rest }
  | returned {m : Moment} (now : m.phase = .cancelling []) : Stir m { m with phase := .returned }

namespace Steady

/-- Only the session changes, and which handlers have just returned. -/
theorem of_mild (mild : Mild m.session t) (returning : List (Nat × Bool)) : Steady m { m with session := t, returning } :=
  ⟨mild, rfl, rfl, rfl, rfl, rfl⟩

end Steady

theorem Decides.mild {decoded : Except Hpack.Fault (List Header)} {frame : Frame} {phase : Phase}
    (h : Decides s decoded frame t phase) : Mild s t ∧ phase.stage = 0 := by
  cases h with
  | turnAway new staying odd later full rank => exact ⟨.tried later, rfl⟩
  | _ => exact ⟨.refl s, rfl⟩

/-- How far the session has closed down. -/
structure Phased (m : Moment) : Prop where
  stopped : 1 ≤ m.phase.stage → ∃ reason, m.session.status = .stopped reason
  closed : m.session.outbox.closed = decide (2 ≤ m.phase.stage)
  empty : 2 ≤ m.phase.stage → m.session.outbox.queue.toList = []
  unlocked : 3 ≤ m.phase.stage → m.pushing = none ∧ m.session.listed = []
  halted : m.session.executor.stopped = decide (4 ≤ m.phase.stage)
  waiting : 4 ≤ m.phase.stage → m.session.unstarted = []

namespace Phased

theorem start (version : Version) (config : Config) (handlers : Handlers) (schedule : Schedule) (transport : Transport) :
    Phased { session := Session.start version config handlers schedule transport } :=
  ⟨nofun, rfl, nofun, nofun, rfl, nofun⟩

theorem steady (phased : Phased m) (steady : Steady m n) : Phased n := by
  obtain ⟨session, stage, -, -, pushing, -⟩ := steady
  obtain ⟨stopped, closed, empty, unlocked, halted, waiting⟩ := phased
  rw [← stage] at stopped closed empty unlocked halted waiting
  refine ⟨fun late => session.status ▸ stopped late, session.closed.trans closed, fun late => ?_, fun late => ⟨?_, ?_⟩,
    session.executor ▸ halted, fun late => ?_⟩
  · rw [session.shut (by simp [closed, late])]
    exact empty late
  · rw [(unlocked late).1] at pushing
    exact Option.map_eq_none_iff.mp pushing
  · exact session.listed.trans (unlocked late).2
  · rw [unstarted, session.executor]
    exact waiting late

/-- Nothing is left to be seen to while the run lasts. -/
theorem of_free (free : m.phase = .free) (hopen : m.session.outbox.closed = false)
    (going : m.session.executor.stopped = false) : Phased m := by
  have stage : m.phase.stage = 0 := by rw [free]; rfl
  refine ⟨?_, ?_, ?_, ?_, ?_, ?_⟩ <;> simp [stage, hopen, going]

theorem stir (phased : Phased m) (stir : Stir m n) : Phased n := by
  cases stir with
  | advanced free hopen h held =>
    have going : m.session.executor.stopped = false := by simpa [free, Phase.stage] using phased.halted
    exact of_free free hopen ((h.stopped_of_open hopen).trans going)
  | @started id executor next =>
    obtain ⟨stopped, closed, empty, unlocked, halted, waiting⟩ := phased
    have going : m.session.executor.stopped = false := by
      -- A stopped executor gives out no task.
      refine Bool.eq_false_iff.mpr fun stopped => ?_
      simp [Executor.next?, stopped] at next
    have same : executor.stopped = m.session.executor.stopped := (Move.started next).kept.stopped
    refine ⟨stopped, closed, empty, unlocked, same.trans halted, fun late => ?_⟩
    simp [halted, late] at going
  | claimed p own small unlocked early =>
    obtain ⟨stopped, closed, empty, -, halted, waiting⟩ := phased
    -- A push is claimed only before the list of streams is emptied.
    exact ⟨stopped, closed, empty, fun late => by simp [early] at late, halted, waiting⟩
  | lost mild =>
    obtain ⟨stopped, closed, empty, unlocked, halted, waiting⟩ := phased.steady (.of_mild mild m.returning)
    exact ⟨stopped, closed, empty, fun late => ⟨rfl, (unlocked late).2⟩, halted, waiting⟩
  | inserted now =>
    obtain ⟨stopped, closed, empty, unlocked, halted, waiting⟩ := phased
    -- An emptied list leaves no push under way that could still insert.
    exact ⟨stopped, closed, empty, fun late => by simp [(unlocked late).1] at now, halted, waiting⟩
  | @submitted id waits =>
    obtain ⟨stopped, closed, empty, unlocked, halted, waiting⟩ := phased
    cases found : m.session.stream? id with
    | none =>
      have same : addTask id m.session = m.session := by rw [addTask, found]
      rw [same]
      exact ⟨stopped, closed, empty, unlocked, halted, waiting⟩
    | some stream =>
      cases halts : m.session.executor.stopped with
      | false =>
        rw [addTask_going found halts]
        exact ⟨stopped, closed, empty, unlocked, halted, fun late => by simp [halted, late] at halts⟩
      | true =>
        rw [addTask_stopped found halts, cancel_rest]
        exact ⟨stopped, closed, empty, unlocked, halted, waiting⟩
  -- From here on the session goes from one phase to the next.
  | drained free stopped =>
    obtain ⟨-, closed, -, -, halted, -⟩ := phased
    rw [free] at closed halted
    exact ⟨fun _ => ⟨_, stopped⟩, closed, nofun, nofun, halted, nofun⟩
  | closed now =>
    obtain ⟨stopped, -, -, -, halted, -⟩ := phased
    rw [now] at stopped halted
    exact ⟨fun _ => stopped (by decide), rfl, fun _ => Queue.toList_clear _, nofun, halted, nofun⟩
  | emptied now unlocked =>
    obtain ⟨stopped, closed, empty, -, halted, -⟩ := phased
    rw [now] at stopped closed empty halted
    exact ⟨fun _ => stopped (by decide), closed, fun _ => empty (by decide), fun _ => ⟨unlocked, rfl⟩, halted, nofun⟩
  | @aborted id rest now =>
    have aborted : Phased { m with session := m.session.abort id } := phased.steady (.of_mild (.abort id) m.returning)
    obtain ⟨stopped, closed, empty, unlocked, halted, waiting⟩ := aborted
    dsimp only at stopped closed empty unlocked halted waiting
    rw [now] at stopped closed empty unlocked halted waiting
    exact ⟨stopped, closed, empty, unlocked, halted, waiting⟩
  | halted now =>
    obtain ⟨stopped, closed, empty, unlocked, -, -⟩ := phased
    rw [now] at stopped closed empty unlocked
    exact ⟨fun _ => stopped (by decide), closed, fun _ => empty (by decide), fun _ => unlocked (by decide), rfl,
      fun _ => Queue.toList_clear _⟩
  | @cancelled id rest now =>
    have noted : Phased { m with session := m.session.note (.cancelled id) } :=
      ⟨phased.stopped, phased.closed, phased.empty, phased.unlocked, phased.halted, phased.waiting⟩
    have aborted : Phased { m with session := m.session.cancel id } := noted.steady (.of_mild (.abort id) m.returning)
    obtain ⟨stopped, closed, empty, unlocked, halted, waiting⟩ := aborted
    dsimp only at stopped closed empty unlocked halted waiting
    rw [now] at stopped closed empty unlocked halted waiting
    exact ⟨stopped, closed, empty, unlocked, halted, waiting⟩
  | returned now =>
    obtain ⟨stopped, closed, empty, unlocked, halted, waiting⟩ := phased
    rw [now] at stopped closed empty unlocked halted waiting
    exact ⟨fun _ => stopped (by decide), closed, fun _ => empty (by decide), fun _ => unlocked (by decide), halted,
      fun _ => waiting (by decide)⟩

end Phased

/-! ### Streams that go on -/

/-- The session looks after each stream that goes on, or is about to abort it. -/
def Tends (aborts : List Nat) (s : Session) : Prop := ∀ stream ∈ s.streams, stream.isActive → stream.id ∈ s.listed ++ aborts

namespace Tends
variable {aborts : List Nat}

theorem mild (tends : s.Tends aborts) (mild : Mild s t) : t.Tends aborts := fun stream member active => by
  obtain ⟨old, earlier, own, went⟩ := mild.ageing stream member active
  rw [mild.listed, ← own]
  exact tends old earlier went

theorem served (tends : s.Tends aborts) (served : Served s t) : t.Tends aborts := fun stream member active => by
  obtain ⟨⟨old, earlier, own, went⟩, stays⟩ := served.lasting stream member active
  have known := tends old earlier went
  rw [own] at known
  exact List.mem_append.mpr ((List.mem_append.mp known).imp stays id)

theorem addStream (tends : s.Tends aborts) (stream : Stream) (list : List Header) (final : Bool) :
    (s.addStream stream list final).Tends aborts := fun new member active => by
  show new.id ∈ (s.listed ++ [stream.id]) ++ aborts
  rcases List.mem_append.mp member with earlier | last
  · rcases List.mem_append.mp (tends new earlier active) with here | there
    · simp [here]
    · simp [there]
  · rw [List.mem_singleton.mp last, (Stream.reads_acceptHeaders stream list final).id]
    simp

/-- A stream that is aborted need not be looked after. -/
theorem abort {id : Nat} (tends : s.Tends (id :: aborts)) : (s.abort id).Tends aborts := fun new member active => by
  have mild : Mild s (s.abort id) := .abort id
  have known := tends.mild mild new member active
  have other : new.id ≠ id := fun same => by
    unfold Session.abort at member
    split at member
    · next stream found =>
      have gone : stream.abort.isActive = false := by
        unfold Stream.abort Stream.isActive
        split <;> simp [*]
      have own : stream.abort.id = id := (Stream.acts_abort stream).id.trans (id_of_stream? found)
      obtain ⟨old, -, rfl⟩ := List.mem_map.mp member
      split at same
      · next replaced => simp [replaced, gone] at active
      · next kept => exact kept (same.trans own.symm)
    · next none => exact absurd same (by simpa using List.find?_eq_none.mp none new member)
  rw [List.mem_append, List.mem_cons] at known
  exact List.mem_append.mpr (known.imp_right fun there => there.resolve_left other)

theorem cancel (tends : s.Tends aborts) (id : Nat) : (s.cancel id).Tends aborts := by
  have noted : (s.note (.cancelled id)).Tends aborts := tends
  exact noted.mild (.abort id)

theorem addTask (tends : s.Tends aborts) (id : Nat) : (addTask id s).Tends aborts := by
  unfold Session.addTask
  split
  · exact tends
  · next stream found =>
    have noted : (s.note (.opened id stream.parent stream.priority stream.isPushed)).Tends aborts := tends
    dsimp only
    split
    · exact noted.cancel id
    · exact noted

theorem novel (tends : s.Tends aborts) (novel : Novel s t) : t.Tends aborts := by
  cases novel with
  | started next => exact tends
  | promised list priority found allowed =>
    have counted : ({ s with nextPush := s.nextPush + 2 } : Session).Tends aborts := tends
    exact ((counted.mild (.queue _ _)).addStream _ _ _).addTask _
  | @opened id odd later small rank list final =>
    have tried : ({ s with lastPeer := id } : Session).Tends aborts := tends
    exact (tried.addStream _ _ _).addTask _

end Tends

/-- The session looks after every stream that goes on. -/
def Tended (m : Moment) : Prop := m.session.Tends m.phase.aborts

namespace Tended

theorem steady (tended : Tended m) (steady : Steady m n) : Tended n := by
  rw [Tended, steady.aborts]
  exact tended.mild steady.session

theorem stir (tended : Tended m) (bounded : m.session.reader.Bounded) (stir : Stir m n) : Tended n := by
  cases stir with
  | advanced free hopen h held =>
    -- A step of the session serves the streams there are, and then may add or start one.
    obtain ⟨u, served, rfl | novel⟩ := h.whole hopen bounded
    · exact tended.served served
    · exact (tended.served served).novel novel
  | started next => exact tended
  | claimed => exact tended
  | lost mild => exact tended.mild mild
  | inserted now => exact tended.addStream _ _ _
  | submitted waits => exact tended.addTask _
  | drained free =>
    rw [Tended, free] at tended
    exact tended
  | closed now =>
    rw [Tended, now] at tended
    exact tended
  | emptied now =>
    rw [Tended, now] at tended
    intro stream member active
    -- What was listed is now what is to be aborted.
    simpa [Phase.aborts] using tended stream member active
  | @aborted id rest now =>
    rw [Tended, now] at tended
    exact tended.abort
  | halted now =>
    rw [Tended, now] at tended
    exact tended
  | @cancelled id rest now =>
    rw [Tended, now] at tended
    exact tended.cancel id
  | returned now =>
    rw [Tended, now] at tended
    exact tended

end Tended

/-! ### Numbers and tasks -/

/-- The numbers of the streams, the oldest stream first. -/
def ids (s : Session) : List Nat := s.streams.map (·.id)

/-- The peer has numbered its streams with rising odd numbers up to `last`, and the pushed streams have rising even
    numbers below `next`. -/
structure Ascending (ids : List Nat) (last next : Nat) : Prop where
  rising : ids.Pairwise fun i j => i % 2 = j % 2 → i < j
  peers : ∀ id ∈ ids, id % 2 ≠ 0 → id ≤ last
  pushes : ∀ id ∈ ids, id % 2 = 0 → 2 ≤ id ∧ id < next
  small : ∀ id ∈ ids, id ≤ maxStream
  even : next % 2 = 0 ∧ 2 ≤ next

namespace Ascending
variable {ids : List Nat} {last next id : Nat}

theorem nodup (numbers : Ascending ids last next) : ids.Nodup := by
  refine numbers.rising.imp fun {i j} rises same => ?_
  subst same
  exact Nat.lt_irrefl i (rises rfl)

theorem unused_peer (numbers : Ascending ids last next) (odd : id % 2 ≠ 0) (later : last < id) : id ∉ ids :=
  fun member => absurd (numbers.peers id member odd) (Nat.not_le.mpr later)

theorem unused_push (numbers : Ascending ids last next) : next ∉ ids := fun member =>
  Nat.lt_irrefl next (numbers.pushes next member numbers.even.1).2

theorem mono (numbers : Ascending ids last next) {last' : Nat} (more : last ≤ last') : Ascending ids last' next :=
  ⟨numbers.rising, fun id member odd => (numbers.peers id member odd).trans more, numbers.pushes, numbers.small,
    numbers.even⟩

/-- The peer goes up from the last number that it tried. -/
theorem peer (numbers : Ascending ids last next) (odd : id % 2 ≠ 0) (later : last < id) (small : id ≤ maxStream) :
    Ascending (ids ++ [id]) id next where
  rising := by
    refine List.pairwise_append.mpr ⟨numbers.rising, List.pairwise_singleton .., fun i member j single same => ?_⟩
    rw [List.mem_singleton.mp single] at same ⊢
    exact Nat.lt_of_le_of_lt (numbers.peers i member (same ▸ odd)) later
  peers := by
    refine List.forall_mem_append.mpr ⟨fun i member other => ?_, List.forall_mem_singleton.mpr fun _ => Nat.le_refl id⟩
    exact (numbers.peers i member other).trans (Nat.le_of_lt later)
  pushes := List.forall_mem_append.mpr ⟨numbers.pushes, List.forall_mem_singleton.mpr fun even => absurd even odd⟩
  small := List.forall_mem_append.mpr ⟨numbers.small, List.forall_mem_singleton.mpr small⟩
  even := numbers.even

/-- A number of a push may be lost. -/
theorem skip (numbers : Ascending ids last next) : Ascending ids last (next + 2) where
  rising := numbers.rising
  peers := numbers.peers
  pushes id member even := by
    have bounds := numbers.pushes id member even
    omega
  small := numbers.small
  even := by
    have bounds := numbers.even
    omega

/-- Each pushed stream has the number after the last one. -/
theorem push (numbers : Ascending ids last next) (small : next ≤ maxStream) :
    Ascending (ids ++ [next]) last (next + 2) where
  rising := by
    refine List.pairwise_append.mpr ⟨numbers.rising, List.pairwise_singleton .., fun i member j single same => ?_⟩
    rw [List.mem_singleton.mp single] at same ⊢
    exact (numbers.pushes i member (same.trans numbers.even.1)).2
  peers := by
    refine List.forall_mem_append.mpr ⟨numbers.peers, List.forall_mem_singleton.mpr fun odd => ?_⟩
    exact absurd numbers.even.1 odd
  pushes := by
    refine List.forall_mem_append.mpr ⟨numbers.skip.pushes, List.forall_mem_singleton.mpr fun _ => ?_⟩
    have bounds := numbers.even
    omega
  small := List.forall_mem_append.mpr ⟨numbers.small, List.forall_mem_singleton.mpr small⟩
  even := numbers.skip.even

end Ascending

/-- The number of the pushed stream that is added next. -/
def Moment.nextAdded (m : Moment) : Nat := (m.pushing.map (·.id)).getD m.session.nextPush

/-- How the streams are numbered, and which of them have tasks that were started or cancelled. -/
structure Enrolled (m : Moment) : Prop where
  reader : m.session.reader.Bounded
  numbers : Ascending m.session.ids m.session.lastPeer m.nextAdded
  claimed : ∀ id ∈ m.pushing.map (·.id), m.session.nextPush = id + 2 ∧ id ≤ maxStream
  produced : (m.session.openings.map (·.1) ++ m.unsubmitted).Perm m.session.ids
  taken : Taken (m.session.unstarted ++ m.phase.cancels) m.session.journal

theorem openings_of_assigns {events : List Event} (journal : t.journal = s.journal ++ events)
    (plain : ∀ e ∈ events, e.assigns = false) : t.openings = s.openings := by
  have none : events.filterMap Event.opening? = [] := List.filterMap_eq_nil_iff.mpr fun e member => by
    have mild := plain e member
    cases e <;> first | rfl | cases mild
  rw [openings_append journal, none, List.append_nil]

theorem stream?_of_unused {id : Nat} (unused : id ∉ s.ids) : s.stream? id = none :=
  List.find?_eq_none.mpr fun stream member same => unused (List.mem_map.mpr ⟨stream, member, by simpa using same⟩)

namespace Enrolled

theorem start (version : Version) (config : Config) (handlers : Handlers) (schedule : Schedule) (transport : Transport) :
    Enrolled { session := Session.start version config handlers schedule transport } where
  reader := (stable_start version config handlers schedule transport).reader
  numbers := ⟨.nil, nofun, nofun, nofun, show 2 % 2 = 0 ∧ 2 ≤ 2 by decide⟩
  claimed := nofun
  produced := .nil
  taken _ := rfl

/-- What neither opens a stream nor starts a task. -/
theorem keep (enrolled : Enrolled m) (served : Served m.session n.session)
    (pushing : n.pushing.map (·.id) = m.pushing.map (·.id)) (unsubmitted : n.unsubmitted = m.unsubmitted)
    (cancels : n.phase.cancels = m.phase.cancels) : Enrolled n := by
  obtain ⟨reader, numbers, claimed, produced, taken⟩ := enrolled
  obtain ⟨events, journal, plain⟩ := served.journal
  have same : n.session.ids = m.session.ids := served.ids
  have next : n.nextAdded = m.nextAdded := by rw [Moment.nextAdded, pushing, served.numbers.2, Moment.nextAdded]
  refine ⟨served.reader reader, ?_, ?_, ?_, ?_⟩
  · rw [same, next]
    exact numbers.mono served.numbers.1
  · rw [pushing, served.numbers.2]
    exact claimed
  · rw [openings_of_assigns journal plain, unsubmitted, same]
    exact produced
  · rw [unstarted, served.executor, cancels, journal]
    exact taken.append plain

theorem steady (enrolled : Enrolled m) (steady : Steady m n) : Enrolled n :=
  enrolled.keep (.of_mild steady.session) steady.pushing steady.unsubmitted steady.cancels

theorem started (enrolled : Enrolled m) {id : Nat} {executor : Executor Nat}
    (next : m.session.executor.next? = some (id, executor)) :
    Enrolled { m with session := { m.session with executor }.note (.started id) } := by
  obtain ⟨reader, numbers, claimed, produced, taken⟩ := enrolled
  have same : ({ m.session with executor }.note (.started id)).openings = m.session.openings := by
    rw [openings_append (show _ = m.session.journal ++ [.started id] from rfl)]
    exact List.append_nil _
  refine ⟨reader, numbers, claimed, ?_, ?_⟩
  · dsimp only
    rw [same]
    exact produced
  · rw [Staffed.unstarted_of_next? next] at taken
    exact taken.started

/-- A stream is added, and the executor gets its task. -/
theorem added (enrolled : Enrolled m) (events : List Event) {id parent priority : Nat} {pushed : Bool}
    (reader : t.reader = m.session.reader) (ids : t.ids = m.session.ids ++ [id])
    (numbers : Ascending t.ids t.lastPeer (Moment.nextAdded { m with session := t }))
    (claimed : ∀ id ∈ m.pushing.map (·.id), t.nextPush = id + 2 ∧ id ≤ maxStream)
    (executor : t.executor = m.session.executor.enqueue priority id) (plain : ∀ e ∈ events, e.assigns = false)
    (journal : t.journal = m.session.journal ++ events ++ [.opened id parent priority pushed]) :
    Enrolled { m with session := t } := by
  have opened : t.openings = m.session.openings ++ [(id, pushed)] := by
    let u : Session := { m.session with journal := m.session.journal ++ events }
    have same : u.openings = m.session.openings := openings_of_assigns rfl plain
    rw [openings_append (s := u) journal, same]
    rfl
  refine ⟨reader.symm ▸ enrolled.reader, numbers, claimed, ?_, ?_⟩
  · dsimp only
    rw [opened, ids, List.map_append, List.append_assoc]
    have produced := enrolled.produced.append_right [id]
    rw [List.append_assoc] at produced
    exact (List.perm_append_comm.append_left _).trans produced
  · have more : (t.unstarted ++ m.phase.cancels).Perm (id :: (m.session.unstarted ++ m.phase.cancels)) := by
      rw [unstarted, executor]
      exact (m.session.executor.queue.toList_push_perm priority id).append_right _
    dsimp only
    rw [journal]
    exact ((enrolled.taken.append plain).opened id parent priority pushed).perm more

theorem novel (enrolled : Enrolled m) (going : m.session.executor.stopped = false) (novel : Novel m.session t)
    (held : m.pushing.isSome → t.nextPush = m.session.nextPush) : Enrolled { m with session := t } := by
  have numbers := enrolled.numbers
  cases novel with
  | started next => exact enrolled.started next
  | @promised id stream list priority found allowed =>
    -- A push that is under way has the lock.
    have unlocked : m.pushing = none := by
      refine Option.not_isSome_iff_eq_none.mp fun pushing => ?_
      have same := held pushing
      rw [nextPush_addTask, nextPush_promise] at same
      omega
    have next : m.nextAdded = m.session.nextPush := by rw [Moment.nextAdded, unlocked]; rfl
    rw [next] at numbers
    obtain ⟨new, own, -, added⟩ :=
      addTask_promise allowed going (stream?_of_unused numbers.unused_push) list priority
    have ids : (addTask m.session.nextPush (m.session.promise stream list priority)).ids =
        m.session.ids ++ [m.session.nextPush] := by
      rw [Session.ids, added, List.map_append, List.map_singleton, own]
      rfl
    refine enrolled.added [.queued (.pushPromise stream.id m.session.nextPush list),
      .accepted m.session.nextPush (.headers list true)] (by rw [added]) ids ?_ ?_ (by rw [added]) ?_
      (by rw [added, List.append_assoc]; rfl)
    · have small := (of_pushError? allowed).2.2.2.2.2
      rw [Moment.nextAdded, unlocked, Option.map_none, Option.getD_none, ids, added]
      exact numbers.push small
    · rw [unlocked]
      exact nofun
    · simp [Event.assigns]
  | @opened id odd later small rank list final =>
    have unused := stream?_of_unused (numbers.unused_peer odd later)
    let new := m.session.newStream id 0 rank
    have added := addTask_addStream (s := { m.session with lastPeer := id }) unused (show new.id = id from rfl) going list
      final
    have ids : (addTask id ({ m.session with lastPeer := id }.addStream (m.session.newStream id 0 rank) list final)).ids =
        m.session.ids ++ [id] := by
      rw [Session.ids, added, List.map_append, List.map_singleton, (Stream.reads_acceptHeaders _ _ _).id]
      rfl
    refine enrolled.added [.accepted id (.headers list final)] (by rw [added]) ids ?_ ?_ (by rw [added])
      (List.forall_mem_singleton.mpr rfl) (by rw [added, List.append_assoc]; rfl)
    · rw [ids, added]
      exact numbers.peer odd later small
    · rw [added]
      exact enrolled.claimed

/-- The task of a pushed stream comes to the executor, or is cancelled at once if that has stopped. -/
theorem submitted (enrolled : Enrolled m) {id : Nat} (waits : id ∈ m.unsubmitted) :
    Enrolled { m with session := addTask id m.session, unsubmitted := m.unsubmitted.erase id } := by
  obtain ⟨reader, numbers, claimed, produced, taken⟩ := enrolled
  -- The stream is there, as its number was produced when it was inserted.
  obtain ⟨stream, found⟩ : ∃ stream, m.session.stream? id = some stream := by
    obtain ⟨stream, member, own⟩ := List.mem_map.mp (produced.subset (List.mem_append_right _ waits))
    exact Option.isSome_iff_exists.mp (List.find?_isSome.mpr ⟨stream, member, by simpa using own⟩)
  have rest : (m.unsubmitted).Perm (id :: m.unsubmitted.erase id) := List.perm_cons_erase waits
  let e : Event := .opened id stream.parent stream.priority stream.isPushed
  have opened := taken.opened id stream.parent stream.priority stream.isPushed
  have submitted : ((m.session.openings ++ [(id, stream.isPushed)]).map (·.1) ++ m.unsubmitted.erase id).Perm
      m.session.ids := by
    rw [List.map_append, List.append_assoc]
    exact (rest.symm.append_left _).trans produced
  cases halts : m.session.executor.stopped with
  | false =>
    rw [addTask_going found halts]
    refine ⟨reader, numbers, claimed, ?_, opened.perm ?_⟩
    · rw [openings_append (show _ = m.session.journal ++ [e] from rfl)]
      exact submitted
    · exact (m.session.executor.queue.toList_push_perm stream.priority id).append_right _
  | true =>
    rw [addTask_stopped found halts]
    have mild : Mild ((m.session.note e).note (.cancelled id)) ((m.session.note e).cancel id) := .abort id
    have noted : Enrolled { m with
        session := (m.session.note e).note (.cancelled id), unsubmitted := m.unsubmitted.erase id } := by
      refine ⟨reader, numbers, claimed, ?_, opened.cancelled⟩
      rw [openings_append (show _ = m.session.journal ++ [e, .cancelled id] by simp [note])]
      exact submitted
    exact noted.keep (.of_mild mild) rfl rfl rfl

theorem stir (enrolled : Enrolled m) (phased : Phased m) (stir : Stir m n) : Enrolled n := by
  cases stir with
  | @advanced t free hopen h held =>
    obtain ⟨u, served, rfl | novel⟩ := h.whole hopen enrolled.reader
    · exact enrolled.keep served rfl rfl rfl
    · have going : u.executor.stopped = false := by
        rw [served.executor, phased.halted, free]
        rfl
      have before : Enrolled { m with session := u } := enrolled.keep served rfl rfl rfl
      refine before.novel going novel fun pushing => ?_
      rw [(held pushing).numbers.2, served.numbers.2]
  | started next => exact enrolled.started next
  | claimed p own small unlocked early =>
    obtain ⟨reader, numbers, -, produced, taken⟩ := enrolled
    have next : m.nextAdded = p.id := by rw [Moment.nextAdded, unlocked, own]; rfl
    rw [next] at numbers
    refine ⟨reader, numbers, fun id member => ?_, produced, taken⟩
    cases member
    exact ⟨congrArg (· + 2) own.symm, small⟩
  | @lost t mild =>
    have kept : Enrolled { m with session := t } := enrolled.keep (.of_mild mild) rfl rfl rfl
    obtain ⟨reader, numbers, claimed, produced, taken⟩ := kept
    refine ⟨reader, ?_, by simp, produced, taken⟩
    unfold Moment.nextAdded at numbers ⊢
    dsimp only at numbers claimed ⊢
    cases pushing : m.pushing with
    | none => rwa [pushing] at numbers
    | some p =>
      rw [pushing] at numbers claimed
      -- The number of the push that fails is skipped, and never comes up again.
      rw [Option.map_none, Option.getD_none, (claimed p.id rfl).1]
      exact numbers.skip
  | @inserted p now =>
    obtain ⟨reader, numbers, claimed, produced, taken⟩ := enrolled
    rw [Moment.nextAdded, now] at numbers
    rw [now] at claimed
    obtain ⟨next, small⟩ := claimed p.id rfl
    have added := (Stream.reads_acceptHeaders
      (m.session.newStream p.id p.parent (min p.priority Priority.lowest)) p.list true).id
    have ids : (m.session.addPushed p).ids = m.session.ids ++ [p.id] := by
      unfold ids addPushed addStream
      rw [note, List.map_append, List.map_singleton, added]
      rfl
    have journal : (m.session.addPushed p).journal = m.session.journal ++ [.accepted p.id (.headers p.list true)] := rfl
    -- The insertion is no opening yet: the task is submitted later.
    have plain : ∀ e ∈ [Event.accepted p.id (.headers p.list true)], e.assigns = false := List.forall_mem_singleton.mpr rfl
    refine ⟨reader, ?_, by simp, ?_, ?_⟩
    · unfold Moment.nextAdded
      dsimp only
      rw [ids, Option.map_none, Option.getD_none, show (m.session.addPushed p).nextPush = p.id + 2 from next]
      exact numbers.push small
    · dsimp only
      rw [openings_of_assigns journal plain, ids, ← List.append_assoc]
      exact produced.append_right _
    · dsimp only
      rw [journal]
      exact taken.append plain
  | @submitted id waits => exact enrolled.submitted waits
  | halted now =>
    obtain ⟨reader, numbers, claimed, produced, taken⟩ := enrolled
    rw [now] at taken
    exact ⟨reader, numbers, claimed, produced, taken.perm (by simp [unstarted, Phase.cancels, Executor.stop])⟩
  | @cancelled id rest now =>
    have cancelled : Enrolled { m with session := m.session.note (.cancelled id), phase := .cancelling rest } := by
      obtain ⟨reader, numbers, claimed, produced, taken⟩ := enrolled
      have same : (m.session.note (.cancelled id)).openings = m.session.openings :=
        (openings_append rfl).trans (List.append_nil _)
      refine ⟨reader, numbers, claimed, ?_, ?_⟩
      · dsimp only
        rw [same]
        exact produced
      · rw [now] at taken
        exact (taken.perm List.perm_middle.symm).cancelled
    exact cancelled.keep (.of_mild (.abort id)) rfl rfl rfl
  | @aborted id rest now => exact enrolled.keep (.of_mild (.abort id)) rfl rfl (by rw [now]; rfl)
  | drained now | closed now | emptied now | returned now =>
    obtain ⟨reader, numbers, claimed, produced, taken⟩ := enrolled
    rw [now] at taken
    exact ⟨reader, numbers, claimed, produced, taken⟩

end Enrolled

/-! ### Every moment -/

/-- What holds at every moment of a run among threads. -/
structure Governed (m : Moment) : Prop where
  phased : Phased m
  enrolled : Enrolled m
  tended : Tended m

namespace Governed

theorem start (version : Version) (config : Config) (handlers : Handlers) (schedule : Schedule) (transport : Transport) :
    Governed { session := Session.start version config handlers schedule transport } :=
  ⟨.start .., .start .., nofun⟩

theorem steady (governed : Governed m) (steady : Steady m n) : Governed n :=
  ⟨governed.phased.steady steady, governed.enrolled.steady steady, governed.tended.steady steady⟩

end Governed

end Multiplex.Session
