import Multiplex.Proofs.Session.Threads

/-! # Checking interleavings

A list of turns tells which of the threads goes on and what it does (`Turn`). A list is checked turn by turn (`play?`), and
one that is accepted is a chain of slices (`slices_of_play?`). So whether there is a certain run among threads can be
computed. -/

namespace Multiplex.Session

variable {s : Session} {m n : Moment}

/-! ### Turns -/

/-- What one of the threads does next. -/
inductive Turn where
  -- A handler.
  | act (id index : Nat) (action : Action)
  | claim (id : Nat) (list : List Header) (priority : Nat)
  | promise
  | lose (index : Nat)
  | insert
  | submit (id : Nat)
  | fail (id : Nat)
  | finish (id : Nat)
  -- The session while it runs.
  | leave (code : ErrorCode)
  | queue
  | write
  /-- The next frame, which is DATA or brings new limits, is taken up. -/
  | decide
  | accept
  /-- One of the new limits is followed. -/
  | store
  /-- All of them are. -/
  | adopt
  -- The session at its end.
  | drain
  | close
  | empty
  | abort
  | halt
  | cancel
  | quit

namespace Moment

/-- What a turn makes of a moment, if it can be taken. -/
def take? (m : Moment) : Turn → Option Moment
  | .act id index action =>
    (m.session.stream? id).bind fun stream =>
      let (t, reply) := perform addTask m.session stream action
      if m.pushing = none ∧ m.session.pushes stream action = false ∧ t.nextPush = m.session.nextPush then
        some { m with session := t.note (.stepped id index (.act action) reply) }
      else none
  | .claim id list priority =>
    (m.session.stream? id).bind fun stream =>
      if m.pushing = none ∧ m.phase.stage = 0 ∧ m.session.pushError? stream = none then
        some { m with
          session := { m.session with nextPush := m.session.nextPush + 2 },
          pushing := some { parent := id, id := m.session.nextPush, list, priority, rank := stream.priority } }
      else none
  | .promise =>
    m.pushing.bind fun p =>
      if p.promised = false ∧ m.session.outbox.closed = false then
        some { m with
          session := m.session.queue (.pushPromise p.parent p.id p.list) p.rank,
          pushing := some { p with promised := true } }
      else none
  | .lose index =>
    m.pushing.bind fun p =>
      if p.promised = false ∧ m.session.outbox.closed then
        some { m with
          session := m.session.note (.stepped p.parent index (.act (.push p.list p.priority)) (.refused .aborted)),
          pushing := none }
      else none
  | .insert =>
    m.pushing.bind fun p =>
      if p.promised then
        some { m with session := m.session.addPushed p, pushing := none, unsubmitted := m.unsubmitted ++ [p.id] }
      else none
  | .submit id =>
    if id ∈ m.unsubmitted then
      some { m with session := addTask id m.session, unsubmitted := m.unsubmitted.erase id }
    else none
  | .fail id => some { m with session := m.session.note (.failed id), returning := (id, true) :: m.returning }
  | .finish id =>
    (m.session.stream? id).bind fun stream =>
      if (id, true) ∈ m.returning ∧ m.pushing = none then
        some { m with
          session := m.session.reset stream ErrorCode.internalError,
          returning := m.returning.erase (id, true) }
      else none
  | .leave code =>
    if m.phase = .free ∧ m.session.status = .running ∧ m.session.goAwaySent = false then
      some { m with
        session := { m.session with goAwaySent := true },
        phase := .queueing (.frame (.goAway m.session.lastPeer code)) 0 }
    else none
  | .queue =>
    match m.phase with
    | .queueing f priority => some { m with session := m.session.queue f priority, phase := .free }
    | _ => none
  | .write =>
    m.session.outbox.pop?.bind fun (f, outbox) =>
      if m.phase = .free ∧ m.session.status = .running ∧ outbox.closed = false then
        some { m with session := { m.session with outbox }.writeOutgoing f }
      else none
  | .decide =>
    match m.session.reader.next? with
    | some (.data id bytes final, reader) =>
      let t := m.session.takeUp (.data id bytes final) reader
      (t.active? id).bind fun stream =>
        if m.phase = .free ∧ m.pushing = none ∧ m.session.status = .running ∧ stream.peerClosed = false then
          some { m with session := t, phase := .accepting id (.data bytes final) }
        else none
    | some (.settings false params, reader) =>
      let t := m.session.takeUp (.settings false params) reader
      match t.peer.applyAll t.version params with
      | .ok peer =>
        if m.phase = .free ∧ m.pushing = none ∧ m.session.status = .running then
          some { m with session := t, phase := .adopting peer [.window, .pieceLimit, .mayPush] }
        else none
      | .error _ => none
    | _ => none
  | .accept =>
    match m.phase with
    | .accepting id part =>
      (m.session.stream? id).bind fun stream =>
        if m.pushing = none then
          some { m with session := (m.session.accept stream part).1, phase := (m.session.accept stream part).2 }
        else none
    | _ => none
  | .store =>
    match m.phase with
    | .adopting peer (copy :: rest) =>
      if m.pushing = none then some { m with session := m.session.store peer copy, phase := .adopting peer rest }
      else none
    | _ => none
  | .adopt =>
    match m.phase with
    | .adopting peer [] =>
      some { m with session := { m.session with peer }, phase := .queueing (.frame (.settings true [])) 0 }
    | _ => none
  | .drain =>
    match m.session.status with
    | .stopped _ => if m.phase = .free then some { m with phase := .draining } else none
    | _ => none
  | .close =>
    if m.phase = .draining then
      some { m with session := { m.session with outbox := m.session.outbox.close }, phase := .closing }
    else none
  | .empty =>
    if m.phase = .closing ∧ m.pushing = none then
      some { m with session := { m.session with listed := [] }, phase := .aborting m.session.listed }
    else none
  | .abort =>
    match m.phase with
    | .aborting (id :: rest) => some { m with session := m.session.abort id, phase := .aborting rest }
    | _ => none
  | .halt =>
    if m.phase = .aborting [] then
      some { m with
        session := { m.session with executor := m.session.executor.stop.1 },
        phase := .cancelling m.session.executor.stop.2 }
    else none
  | .cancel =>
    match m.phase with
    | .cancelling (id :: rest) => some { m with session := m.session.cancel id, phase := .cancelling rest }
    | _ => none
  | .quit => if m.phase = .cancelling [] then some { m with phase := .returned } else none

/-- What turns make of a moment, one after the other. -/
def play? (m : Moment) (turns : List Turn) : Option Moment := turns.foldlM take? m

end Moment

/-- To write a frame needs none of the locks of a push. -/
theorem lockless_writeOutgoing (s : Session) (outbox : Outbox) (f : Outgoing) :
    Lockless s ({ s with outbox }.writeOutgoing f) := by
  unfold writeOutgoing
  dsimp only
  rw [(sent_writeAll _ _).rest]
  exact ⟨rfl, rfl, ⟨rfl, rfl⟩, ⟨rfl, rfl⟩⟩

/-- A turn that is bound to a condition is taken if the condition holds. -/
theorem eq_of_taken {P : Prop} [Decidable P] (h : (if P then some m else none) = some n) : P ∧ m = n := by
  obtain ⟨fits, same⟩ := Option.ite_none_right_eq_some.mp h
  exact ⟨fits, Option.some.inj same⟩

theorem slice_of_take? {turn : Turn} (h : m.take? turn = some n) : Slice m n := by
  cases turn with
  | act id index action =>
    obtain ⟨stream, found, taken⟩ := Option.bind_eq_some_iff.mp h
    obtain ⟨⟨unlocked, plain, numbers⟩, rfl⟩ := eq_of_taken taken
    exact .moved (.acted index found plain) numbers (by simp [unlocked])
  | claim id list priority =>
    obtain ⟨stream, found, taken⟩ := Option.bind_eq_some_iff.mp h
    obtain ⟨⟨unlocked, early, allowed⟩, rfl⟩ := eq_of_taken taken
    exact .claimed list priority unlocked found early allowed
  | promise =>
    obtain ⟨p, now, taken⟩ := Option.bind_eq_some_iff.mp h
    obtain ⟨⟨first, hopen⟩, rfl⟩ := eq_of_taken taken
    exact .promised now first hopen
  | lose index =>
    obtain ⟨p, now, taken⟩ := Option.bind_eq_some_iff.mp h
    obtain ⟨⟨first, closed⟩, rfl⟩ := eq_of_taken taken
    exact .lost index now first closed
  | insert =>
    obtain ⟨p, now, taken⟩ := Option.bind_eq_some_iff.mp h
    obtain ⟨done, rfl⟩ := eq_of_taken taken
    exact .inserted now done
  | submit id =>
    obtain ⟨waits, rfl⟩ := eq_of_taken h
    exact .submitted waits
  | fail id =>
    cases h
    exact .failed id
  | finish id =>
    obtain ⟨stream, found, taken⟩ := Option.bind_eq_some_iff.mp h
    obtain ⟨⟨waits, unlocked⟩, rfl⟩ := eq_of_taken taken
    exact .finished waits found (by simp [unlocked])
  | leave code =>
    obtain ⟨⟨free, running, staying⟩, rfl⟩ := eq_of_taken h
    exact .left free running staying code
  | queue =>
    simp only [Moment.take?] at h
    split at h
    · next now =>
      cases h
      exact .queued now
    · cases h
  | write =>
    obtain ⟨⟨f, outbox⟩, next, taken⟩ := Option.bind_eq_some_iff.mp h
    obtain ⟨⟨free, running, hopen⟩, rfl⟩ := eq_of_taken taken
    refine .advanced free ?_ (.wrote running next) fun _ => lockless_writeOutgoing ..
    rw [outbox_writeOutgoing]
    exact hopen
  | decide =>
    -- The next frame is DATA, or it brings new limits; no other frame is taken up by a turn.
    simp only [Moment.take?] at h
    split at h
    · next next =>
      obtain ⟨stream, found, taken⟩ := Option.bind_eq_some_iff.mp h
      obtain ⟨⟨free, unlocked, running, going⟩, rfl⟩ := eq_of_taken taken
      exact .decided free unlocked running next (.data found going)
    · next next =>
      split at h
      · next allowed =>
        obtain ⟨⟨free, unlocked, running⟩, rfl⟩ := eq_of_taken h
        exact .decided free unlocked running next (.adopt allowed)
      · cases h
    · cases h
  | accept =>
    simp only [Moment.take?] at h
    split at h
    · next now =>
      obtain ⟨stream, found, taken⟩ := Option.bind_eq_some_iff.mp h
      obtain ⟨unlocked, rfl⟩ := eq_of_taken taken
      exact .accepted now found (by simp [unlocked])
    · cases h
  | store =>
    simp only [Moment.take?] at h
    split at h
    · next now =>
      obtain ⟨unlocked, rfl⟩ := eq_of_taken h
      exact .stored now fun _ => unlocked
    · cases h
  | adopt =>
    simp only [Moment.take?] at h
    split at h
    · next now =>
      cases h
      exact .adopted now
    · cases h
  | drain =>
    simp only [Moment.take?] at h
    split at h
    · next stopped =>
      obtain ⟨free, rfl⟩ := eq_of_taken h
      exact .drained free stopped
    · cases h
  | close =>
    obtain ⟨now, rfl⟩ := eq_of_taken h
    exact .closed now
  | empty =>
    obtain ⟨⟨now, unlocked⟩, rfl⟩ := eq_of_taken h
    exact .emptied now unlocked
  | abort =>
    simp only [Moment.take?] at h
    split at h
    · next now =>
      cases h
      exact .aborted now
    · cases h
  | halt =>
    obtain ⟨now, rfl⟩ := eq_of_taken h
    exact .halted now
  | cancel =>
    simp only [Moment.take?] at h
    split at h
    · next now =>
      cases h
      exact .cancelled now
    · cases h
  | quit =>
    obtain ⟨now, rfl⟩ := eq_of_taken h
    exact .returned now

/-- Turns that can be taken are a run among threads. -/
theorem slices_of_play? {turns : List Turn} (h : m.play? turns = some n) : Slices m n := by
  induction turns generalizing m with
  | nil =>
    cases h
    exact .refl _
  | cons turn rest ih =>
    rw [Moment.play?, List.foldlM_cons] at h
    obtain ⟨next, taken, later⟩ := Option.bind_eq_some_iff.mp h
    exact (Slices.single (slice_of_take? taken)).trans (ih later)

/-- What can be seen to hold after turns holds at some moment of a run. -/
theorem reached_of_play? {first : Moment} {P : Moment → Prop} [DecidablePred P] (before : Slices first m)
    (turns : List Turn) (holds : (m.play? turns).any (decide <| P ·)) : ∃ n, Slices first n ∧ P n := by
  obtain ⟨n, played, holds⟩ := (Option.any_eq_true ..).mp holds
  exact ⟨n, before.trans (slices_of_play? played), of_decide_eq_true holds⟩

/-- So does what can be seen to hold then and between that moment and a later one. -/
theorem reached_of_plays? {first : Moment} {P : Moment → Prop} {Q : Moment → Moment → Prop} [DecidablePred P]
    [DecidableRel Q] (before : Slices first m) (turns later : List Turn)
    (holds : (m.play? turns).any fun n => decide (P n) && (n.play? later).any (decide <| Q n ·)) :
    ∃ n o, Slices first n ∧ P n ∧ Slices n o ∧ Q n o := by
  obtain ⟨n, reached, so, more⟩ := reached_of_play? (P := fun n => P n ∧ (n.play? later).any (decide <| Q n ·))
    before turns (by simpa only [Bool.decide_and, Bool.decide_eq_true] using holds)
  obtain ⟨o, after, holds⟩ := reached_of_play? (.refl n) later more
  exact ⟨n, o, reached, so, after, holds⟩

/-! ### Beginnings -/

/-- A session that has written its first frame. -/
def begun (s : Session) : Session :=
  { s with status := .running }.write ((Frame.settings false (s.config.params s.version)).encode 0) .initialWriteFailed

/-- A session that has polled the transport and has read what came then. -/
def atInput (s : Session) : Session := (s.poll.prune.readMore s.poll.prune.isIdle).1

theorem reaches_rounds (count : Nat) (running : s.status = .running) : Reaches s (rounds count s) := by
  induction count generalizing s with
  | zero => exact .refl s
  | succ count ih =>
    have went : Reaches s s.round := (reaches_poll running).1.trans (reaches_round running)
    unfold rounds
    dsimp only
    split
    · next still => exact went.trans (ih (isRunning_iff.mp still))
    · exact went

/-- A session has gone through rounds, and is in the middle of the next. -/
theorem slices_atInput (s : Session) (count : Nat) (ready : s.status = .ready) (going : s.begun.status = .running)
    (running : (rounds count s.begun).status = .running) (hopen : (rounds count s.begun).atInput.outbox.closed = false) :
    Slices { session := s } { session := (rounds count s.begun).atInput } := by
  let t := rounds count s.begun
  have round : Reaches s t := (Reaches.single (.began ready)).trans (reaches_rounds count going)
  obtain ⟨polled, still⟩ := reaches_poll running
  have read := (reaches_readMore (s := t.poll.prune) still t.poll.prune.isIdle).1
  exact slices_of_reaches (((round.trans polled).trans (.single (.pruned still))).trans read) hopen

end Multiplex.Session
