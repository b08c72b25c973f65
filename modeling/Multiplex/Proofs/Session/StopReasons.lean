import Multiplex.Proofs.Session.Conservation
import Multiplex.Proofs.Session.Delivery
import Multiplex.Proofs.Session.Handles
import Multiplex.Proofs.Session.Interleavings
import Multiplex.Proofs.Session.Tasks

/-! # Why sessions stop

Each way a run can end says what the session has read and written by then (`stop_reasons`). What a step reads and
writes is read off the step (`Transfers`), and how the rounds end is read off the rounds (`Concludes`). -/

namespace Multiplex

/-- Whether an event is a read or an attempt to write. -/
def Event.isTransfer : Event → Bool
  | .read .. | .wrote _ | .writeFailed => true
  | _ => false

theorem Event.isTransfer_of_isExchange {e : Event} (inner : e.isExchange = false) : e.isTransfer = false := by
  cases e <;> first | rfl | cases inner

/-- Whether a frame grants the peer more credit. -/
def Outgoing.IsCredit (f : Outgoing) : Prop := ∃ id increment, f = .frame (.windowUpdate id increment)

namespace Session

open Multiplex.Frame (Kind)

variable {s t u : Session} {first : Bytes}

/-! ### Reads and writes -/

/-- The reads and the attempts to write, in order. -/
def transfers (s : Session) : List Event := s.journal.filter Event.isTransfer

theorem transfers_append (events : List Event) (journal : t.journal = s.journal ++ events) :
    t.transfers = s.transfers ++ events.filter Event.isTransfer := by
  rw [transfers, journal, List.filter_append]
  rfl

theorem Kept.transfers (kept : Kept s t) : t.transfers = s.transfers := by
  obtain ⟨events, journal, inner⟩ := kept.journal
  have none : events.filter Event.isTransfer = [] := by
    refine List.filter_eq_nil_iff.mpr fun e member => ?_
    simp [Event.isTransfer_of_isExchange (inner e member)]
  rw [transfers_append events journal, none, List.append_nil]

theorem Limited.transfers (limited : Limited s t) : t.transfers = s.transfers := (Kept.transfers limited).trans rfl

/-- What a step reads and writes, and what becomes of the session by it. -/
inductive Transfers (s t : Session) : Prop
  | nothing (same : t.transfers = s.transfers) (status : t.status = s.status ∨ s.Unbroken ∧ t.Unbroken)
  | began (ready : s.status = .ready) (still : t.status = .running)
      (wrote : t.transfers = s.transfers ++ [.wrote ((Frame.settings false (s.config.params s.version)).encode 0)])
  | refused (ready : s.status = .ready) (stopped : t.status = .stopped .initialWriteFailed)
      (failed : t.transfers = s.transfers ++ [.writeFailed])
  | carried (running : s.status = .running) (still : t.status = .running) (events : List Event)
      (sound : .writeFailed ∉ events) (more : t.transfers = s.transfers ++ events)
  | broke (running : s.status = .running) (stopped : t.status = .stopped .writeFailed) (events : List Event)
      (sound : .writeFailed ∉ events) (more : t.transfers = s.transfers ++ (events ++ [.writeFailed]))

theorem unbroken_of_running (running : s.status = .running) : s.Unbroken := by simp [Unbroken, running]

theorem Advance.transfers (h : Advance s t) : Transfers s t := by
  cases h with
  | moved h => exact .nothing h.kept.transfers (.inl h.kept.status)
  | began ready =>
    unfold write
    split
    · exact .began ready rfl (transfers_append [.wrote _] rfl)
    · exact .refused ready rfl (transfers_append [.writeFailed] rfl)
  | polled => exact .nothing ((transfers_append [.polled] rfl).trans (List.append_nil _)) (.inl rfl)
  | counted | arrived | pruned | closed => exact .nothing rfl (.inl rfl)
  | read running => exact .carried running running [.read ..] (by simp) (transfers_append [.read ..] rfl)
  | @dispatched running frame reader next =>
    let u : Session := { s with reader }
    have noted : (u.note (.dispatched frame)).transfers = s.transfers :=
      (transfers_append [.dispatched frame] rfl).trans (List.append_nil _)
    refine .nothing ((effect_dispatch u frame).limited.transfers.trans noted) ?_
    rcases status_dispatch u frame with same | crashed
    · exact .inl same
    · have unbroken : (dispatch addTask u frame).Unbroken := by simp [Unbroken, crashed]
      exact .inr ⟨unbroken_of_running running, unbroken⟩
  | wentAway running code => exact .nothing (limited_sendGoAway s code).transfers (.inl (status_sendGoAway s code))
  | @wrote running f outbox next =>
    let v : Session := note { s with outbox, sendTable := (f.wire s.peer.maxFrame s.sendTable).1 } (.taken f)
    have noted : v.transfers = s.transfers := (transfers_append [.taken f] rfl).trans (List.append_nil _)
    have wires (frames : List Bytes) : (frames.map Event.wrote).filter Event.isTransfer = frames.map Event.wrote :=
      List.filter_eq_self.mpr (by simp [Event.isTransfer])
    -- A frame may take several writes; the first that fails is the last of them.
    rcases journal_writeAll (f.wire s.peer.maxFrame s.sendTable).2 (s := v) running with
      ⟨still, journal⟩ | ⟨stopped, done, rest, -, -, journal⟩
    · refine .carried running still ((f.wire s.peer.maxFrame s.sendTable).2.map .wrote) (by simp) ?_
      exact (transfers_append _ journal).trans (by rw [noted, wires])
    · refine .broke running stopped (done.map .wrote) (by simp) ?_
      refine (transfers_append _ journal).trans ?_
      rw [noted, List.filter_append, wires]
      rfl
  | gone running | finished running =>
    exact .nothing rfl (.inr ⟨unbroken_of_running running, by simp [Unbroken, stop]⟩)
  | halted =>
    have kept := Kept.foldl_cancel s.executor.stop.2 { s with executor := s.executor.stop.1 }
    exact .nothing kept.transfers (.inl kept.status)

/-- What a session has read and written: `first` before all else, and nothing after a write that failed. -/
structure Transferred (first : Bytes) (s : Session) : Prop where
  ready : s.status = .ready → s.transfers = []
  refused : s.status = .stopped .initialWriteFailed → s.transfers = [.writeFailed]
  whole : s.Unbroken → ∃ later, s.transfers = .wrote first :: later ∧ .writeFailed ∉ later
  broken : s.status = .stopped .writeFailed →
    ∃ later, s.transfers = .wrote first :: (later ++ [.writeFailed]) ∧ .writeFailed ∉ later

theorem Transferred.of_unbroken (unbroken : s.Unbroken)
    (whole : ∃ later, s.transfers = .wrote first :: later ∧ .writeFailed ∉ later) : Transferred first s :=
  ⟨fun ready => absurd ready unbroken.1, fun refused => absurd refused unbroken.2.1, fun _ => whole,
    fun broken => absurd broken unbroken.2.2⟩

theorem Transferred.advance (done : Transferred first s) (h : Advance s t)
    (greeting : (Frame.settings false (s.config.params s.version)).encode 0 = first) : Transferred first t := by
  cases h.transfers with
  | nothing same status =>
    -- Either nothing has changed, or the session was and is one whose writes have all succeeded.
    rcases status with status | ⟨before, after⟩
    · refine ⟨?_, ?_, ?_, ?_⟩
      · rw [same, status]
        exact done.ready
      · rw [same, status]
        exact done.refused
      · rw [same, Unbroken, status]
        exact done.whole
      · rw [same, status]
        exact done.broken
    · exact .of_unbroken after (same ▸ done.whole before)
  | began ready still wrote =>
    refine .of_unbroken (unbroken_of_running still) ⟨[], ?_, List.not_mem_nil⟩
    rw [wrote, done.ready ready, greeting]
    rfl
  | refused ready stopped failed =>
    refine ⟨by simp [stopped], fun _ => ?_, fun whole => absurd stopped whole.2.1, by simp [stopped]⟩
    rw [failed, done.ready ready]
    rfl
  | carried running still events sound more =>
    obtain ⟨later, before, clean⟩ := done.whole (unbroken_of_running running)
    refine .of_unbroken (unbroken_of_running still) ⟨later ++ events, ?_, by simp [clean, sound]⟩
    rw [more, before]
    rfl
  | broke running stopped events sound more =>
    obtain ⟨later, before, clean⟩ := done.whole (unbroken_of_running running)
    refine ⟨by simp [stopped], by simp [stopped], fun whole => absurd stopped whole.2.2, fun _ => ?_⟩
    refine ⟨later ++ events, ?_, by simp [clean, sound]⟩
    rw [more, before, List.append_assoc]
    rfl

/-! ### How rounds end -/

theorem status_dispatchUpTo (count : Nat) (running : s.status = .running) :
    (dispatchUpTo count s).status = .running ∨ (dispatchUpTo count s).status = .crashed := by
  induction count generalizing s with
  | zero => exact .inl running
  | succ count ih =>
    unfold dispatchUpTo
    split
    · exact .inl running
    · next frame reader next =>
      have kept := (moves_dispatch launches_spawn { s with reader } frame).kept.status
      dsimp only
      split
      · next still => exact ih (isRunning_iff.mp still)
      · next halted =>
        rcases status_dispatch { s with reader } frame with same | crashed
        · exact absurd (isRunning_iff.mpr (kept.trans (same.trans running))) halted
        · exact .inr (kept.trans crashed)

theorem status_takeInput (running : s.status = .running) (status : ReadStatus) :
    (s.takeInput status).status = .running ∨ (s.takeInput status).status = .crashed := by
  have taken := status_dispatchUpTo s.reader.ready.length running
  unfold takeInput
  dsimp only
  split
  · exact taken
  · cases status with
    | success => exact taken
    | error => exact (status_sendGoAway s.dispatchReady _).symm ▸ taken
    | closed =>
      dsimp only
      split
      · exact (status_sendGoAway s.dispatchReady.prune _).symm ▸ taken
      · exact taken

theorem status_flushUpTo (count : Nat) (running : s.status = .running) :
    (flushUpTo count s).status = .running ∨ (flushUpTo count s).status = .stopped .writeFailed := by
  induction count generalizing s with
  | zero => exact .inl running
  | succ count ih =>
    unfold flushUpTo
    split
    · exact .inl running
    · next f outbox next =>
      dsimp only
      split
      · next still => exact ih (isRunning_iff.mp still)
      · next halted =>
        rcases status_writeOutgoing { s with outbox } f with same | stopped
        · exact absurd (isRunning_iff.mpr (same.trans running)) halted
        · exact .inr stopped

theorem status_flush (running : s.status = .running) :
    s.flush.status = .running ∨ s.flush.status = .stopped .writeFailed := status_flushUpTo _ running

/-- How the rounds of a session end that comes from `s`. -/
inductive Concludes (s : Session) : Session → Prop
  | gone {u : Session} (reached : Reaches s u) (gone : u.poll.transport.isGone) : Concludes s (u.poll.stop .peerGone)
  | finished {u : Session} (reached : Reaches s u) (running : u.status = .running) (announced : u.goAwaySent)
      (idle : u.isIdle) : Concludes s (u.stop .finished)
  | broke {t : Session} (stopped : t.status = .stopped .writeFailed) : Concludes s t
  | crashed {t : Session} (crashed : t.status = .crashed) : Concludes s t

theorem Concludes.after (ends : Concludes u t) (reached : Reaches s u) : Concludes s t := by
  cases ends with
  | gone later gone => exact .gone (reached.trans later) gone
  | finished later running announced idle => exact .finished (reached.trans later) running announced idle
  | broke stopped => exact .broke stopped
  | crashed crashed => exact .crashed crashed

theorem Concludes.of_peerGone (ends : Concludes s t) (stopped : t.status = .stopped .peerGone) :
    ∃ u : Session, u.poll.transport.isGone ∧ t = u.poll.stop .peerGone := by
  cases ends with
  | @gone u reached gone => exact ⟨u, gone, rfl⟩
  | finished => cases stopped
  | broke broken => simp [broken] at stopped
  | crashed crashed => simp [crashed] at stopped

theorem Concludes.of_finished (ends : Concludes s t) (stopped : t.status = .stopped .finished) :
    ∃ u, Reaches s u ∧ u.status = .running ∧ u.goAwaySent ∧ u.isIdle ∧ t = u.stop .finished := by
  cases ends with
  | gone => cases stopped
  | @finished u reached running announced idle => exact ⟨u, reached, running, announced, idle, rfl⟩
  | broke broken => simp [broken] at stopped
  | crashed crashed => simp [crashed] at stopped

theorem Concludes.status_ne (ends : Concludes s t) : t.status ≠ .stopped .initialWriteFailed := by
  cases ends with
  | gone | finished => nofun
  | broke broken => simp [broken]
  | crashed crashed => simp [crashed]

theorem concludes_round (running : s.status = .running) : Concludes s s.round ∨ s.round.status = .running := by
  obtain ⟨went, polled⟩ := reaches_poll running
  have pruned : Reaches s s.poll.prune := went.trans (.single (.pruned polled))
  obtain ⟨read, still⟩ := reaches_readMore (s := s.poll.prune) polled s.poll.prune.isIdle
  unfold round
  dsimp only
  split
  · next gone => exact .inl (.gone (.refl s) gone)
  split
  · next done =>
    obtain ⟨idle, announced⟩ := Bool.and_eq_true_iff.mp done
    exact .inl (.finished pruned polled announced idle)
  -- Only whether the session still runs matters of what the read brought.
  generalize s.poll.prune.readMore s.poll.prune.isIdle = input at read still
  have taken := (pruned.trans read).trans (reaches_takeInput still input.2)
  split
  · next halted =>
    rcases status_takeInput still input.2 with same | crashed
    · simp [isRunning, same] at halted
    · exact .inl (.crashed crashed)
  next going =>
  replace going : (input.1.takeInput input.2).status = .running := by simpa [isRunning] using going
  have flushed := taken.trans (reaches_flush going)
  split
  · next halted =>
    rcases status_flush going with same | stopped
    · simp [isRunning, same] at halted
    · exact .inl (.broke stopped)
  next more =>
  replace more : (input.1.takeInput input.2).flush.status = .running := by simpa [isRunning] using more
  split
  · next done =>
    obtain ⟨announced, idle⟩ := Bool.and_eq_true_iff.mp done
    exact .inl (.finished (flushed.trans (.single (.pruned more))) more announced idle)
  · exact .inr more

theorem concludes_rounds (count : Nat) (running : s.status = .running)
    (enough : s.transport.patience ≤ s.transport.polls + count) : Concludes s (rounds (count + 1) s) := by
  have stopped := (rounds_stop count running enough).2
  -- By induction on the bound for the rounds; with none left the last round has stopped the session.
  induction count generalizing s with
  | zero =>
    rw [rounds] at stopped ⊢
    split at stopped
    · next still => exact absurd (isRunning_iff.mp still) stopped
    · next halted =>
      rw [if_neg halted]
      exact (concludes_round running).resolve_right stopped
  | succ count ih =>
    have went : Reaches s s.round := (reaches_poll running).1.trans (reaches_round running)
    obtain ⟨later, same⟩ := polls_round running
    rw [rounds] at stopped ⊢
    split at stopped
    · next still =>
      rw [if_pos still]
      exact (ih (isRunning_iff.mp still) (by omega) stopped).after went
    · next halted =>
      rw [if_neg halted]
      exact (concludes_round running).resolve_right stopped

theorem concludes_serve (ready : s.status = .ready) :
    s.transport.write ((Frame.settings false (s.config.params s.version)).encode 0) = none ∧
        s.serve.status = .stopped .initialWriteFailed ∨
      Concludes s s.serve := by
  have began := Reaches.single (.began ready)
  unfold serve
  generalize (Frame.settings false (s.config.params s.version)).encode 0 = first at began ⊢
  unfold write at began ⊢
  dsimp only
  split at began
  · next transport wrote =>
    rw [wrote]
    exact .inr ((concludes_rounds _ rfl (Nat.le_add_left ..)).after began)
  · next refused =>
    rw [refused]
    exact .inl ⟨rfl, rfl⟩

/-! ### Runs -/

theorem status_shutDown (s : Session) : s.shutDown.status = s.status := (kept_shutDown s).status

theorem goAwaySent_shutDown (s : Session) : s.shutDown.goAwaySent = s.goAwaySent := by
  rw [(kept_shutDown s).rest]
  rfl

section Reached
variable {version : Version} {config : Config} {handlers : Handlers} {schedule : Schedule} {transport : Transport}
  (h : Reaches (start version config handlers schedule transport) t)
include h

theorem transferred_start : Transferred ((Frame.settings false (config.params version)).encode 0) t := by
  refine h.keeps_from ⟨fun _ => rfl, nofun, fun whole => absurd rfl whole.1, nofun⟩ fun earlier last done => ?_
  have followed := followed_start earlier
  refine done.advance last ?_
  rw [followed.version, followed.config]
  rfl

/-- A frame that was taken out of the outbox is seen on the wire, as long as no write has failed. -/
theorem seen_of_taken (whole : t.Unbroken) {f : Outgoing} (taken : f ∈ t.taken) :
    ∃ w ∈ t.wire f.stream, w.1.kind = f.kind.code ∧ w.1.endsReply = f.final := by
  obtain ⟨sent, entered, seen, -, all⟩ := wire_sent (sound_start h) (writing_start h) f.stream
  have entry : f ∈ sent.map (·.1) := by
    rw [entered]
    exact List.mem_filter.mpr ⟨List.mem_cons_of_mem _ taken, by simp⟩
  obtain ⟨e, member, rfl⟩ := List.mem_map.mp entry
  obtain ⟨first, rest, frames, one⟩ := seen e member
  refine ⟨first, ?_, one.kind, one.final⟩
  rw [all whole, seenOf, List.filterMap_flatMap]
  exact List.mem_flatMap.mpr ⟨e, member, frames ▸ List.mem_cons_self⟩

/-- In an idle session every stream is over, and was ended by its reply, by the session or by the peer. -/
theorem ended_of_idle (running : t.status = .running) (idle : t.isIdle) {id : Nat} {stream : Stream}
    (found : t.stream? id = some stream) :
    stream.isActive = false ∧ ((t.wire id).any (·.1.endsReply) ∨ (t.wire id).any (·.1.isReset) ∨
      (lifetime id t.journal).any (·.hangsUp id)) := by
  have hopen := ((followed_start h).stable.running running).1
  have sound := sound_start h id
  have whole := unbroken_of_running running
  have inactive := inactive_of_idle sound.orderly idle found
  refine ⟨inactive, ?_⟩
  -- A reply that has ended was released with its end; any other stream has an excuse for being over.
  cases released : stream.finalReleased with
  | true =>
    have finals := (sound.balanced stream found (.inr released)).finals.any
    rw [Ledger.finals, List.any_map, released, ← sound.voiced.order hopen, Lane.line, waiting_of_idle idle, List.map_nil,
      List.append_nil, lane_taken] at finals
    obtain ⟨f, member, final⟩ := List.any_eq_true.mp finals
    obtain ⟨taken, own⟩ := List.mem_filter.mp (List.mem_filter.mp member).1
    obtain rfl : f.stream = id := by simpa using own
    obtain ⟨w, seen, -, ends⟩ := seen_of_taken h whole taken
    exact .inl (List.any_eq_true.mpr ⟨w, seen, ends.trans final⟩)
  | false =>
    have aborted : stream.aborted := by simpa [Stream.isActive, released] using inactive
    rcases (steps_start h id).accounted.excused hopen stream found aborted released with reset | hungUp
    · obtain ⟨e, member, resets⟩ := List.any_eq_true.mp (any_filter reset)
      obtain ⟨f, rfl, own, kind⟩ : ∃ f, e = .queued f ∧ f.stream = id ∧ f.kind = .reset := by
        unfold Event.resets at resets
        split at resets
        · exact ⟨_, rfl, beq_iff_eq.mp resets, rfl⟩
        · cases resets
      have queued : f ∈ t.queued := List.mem_filterMap.mpr ⟨_, member, rfl⟩
      have taken := (taken_perm h hopen (waiting_of_idle idle)).mem_iff.mpr queued
      obtain ⟨w, seen, same, -⟩ := seen_of_taken h whole taken
      refine .inr (.inl (List.any_eq_true.mpr ⟨w, own ▸ seen, ?_⟩))
      rw [WireHeader.isReset, same, kind]
      rfl
    · rw [past_lane, lifetime_filter] at hungUp
      exact .inr (.inr (any_filter hungUp))

/-- What is left of a session that was idle after GOAWAY when it has closed down: one GOAWAY was written, nothing that
    was put into the outbox was lost, and no stream was opened since. -/
theorem settled_shutDown (running : t.status = .running) (announced : t.goAwaySent) (idle : t.isIdle) :
    let u := (t.stop .finished).shutDown
    (heads u.written).countP (·.kind == Kind.goAway.code) = 1 ∧
      (u.taken.Perm u.queued ∧ u.written = u.encoding.sendings.flatMap (·.wire)) ∧
      ∀ id, (u.stream? id).isSome → (t.stream? id).isSome := by
  intro u
  have stopped : Reaches (start version config handlers schedule transport) (t.stop .finished) :=
    h.trans (.single (.finished running announced idle))
  have down : Reaches (t.stop .finished) u := reaches_shutDown rfl
  have leaving : u.goAwaySent := (goAwaySent_shutDown (t.stop .finished)).trans announced
  have unbroken : u.Unbroken := by
    rw [Unbroken, show u.status = _ from status_shutDown (t.stop .finished)]
    simp [stop]
  have perm : u.taken.Perm u.queued := by
    have hopen := ((followed_start h).stable.running running).1
    have all : t.taken.Perm t.queued := taken_perm h hopen (waiting_of_idle idle)
    exact perm_shutDown stopped rfl all
  have reached := stopped.trans down
  refine ⟨(countP_goAway reached).2 leaving perm unbroken, ⟨perm, (writing_start reached).whole unbroken⟩, ?_⟩
  intro id present
  -- GOAWAY has been announced, so a lane without a stream stays without one.
  refine Option.isSome_iff_ne_none.mpr fun absent => ?_
  have followed := followed_start stopped
  have later := (down.lanes followed.stable followed.fresh).lanes id
  have none : u.stream? id = none := later.unopened announced absent
  simp [none] at present

end Reached

/-! ### After the last round -/

/-- What becomes of a session that has stopped with every stream over: nothing is exchanged with the peer, and nothing is put
    into the outbox but credit for the peer. -/
structure Trails (s t : Session) : Prop where
  status : t.status = s.status
  leaving : t.goAwaySent = s.goAwaySent
  journal : ∃ events, t.journal = s.journal ++ events ∧
    ∀ e ∈ events, e.isExchange = false ∧ ∀ f, e.queued? = some f → f.IsCredit

namespace Trails

theorem of_journal (status : t.status = s.status) (leaving : t.goAwaySent = s.goAwaySent)
    (journal : t.journal = s.journal) : Trails s t := ⟨status, leaving, [], journal.trans (List.append_nil _).symm, nofun⟩

theorem refl (s : Session) : Trails s s := of_journal rfl rfl rfl

theorem trans (first : Trails s t) (second : Trails t u) : Trails s u where
  status := second.status.trans first.status
  leaving := second.leaving.trans first.leaving
  journal := by
    obtain ⟨early, split, trailing⟩ := first.journal
    obtain ⟨late, split', trailing'⟩ := second.journal
    exact ⟨early ++ late, by rw [split', split, List.append_assoc], List.forall_mem_append.mpr ⟨trailing, trailing'⟩⟩

theorem note {e : Event} (inner : e.isExchange = false) (silent : e.queued? = none) : Trails s (s.note e) :=
  ⟨rfl, rfl, [e], rfl, List.forall_mem_singleton.mpr ⟨inner, by simp [silent]⟩⟩

theorem queue {f : Outgoing} (credit : f.IsCredit) (priority : Nat) : Trails s (s.queue f priority) := by
  unfold Session.queue
  split
  · exact refl s
  · refine ⟨rfl, rfl, [.queued f], rfl, List.forall_mem_singleton.mpr ⟨rfl, fun g same => ?_⟩⟩
    cases same
    exact credit

theorem queueAll {frames : List Outgoing} (credit : ∀ f ∈ frames, f.IsCredit) (priority : Nat) :
    Trails s (s.queueAll frames priority) := by
  unfold Session.queueAll
  induction frames generalizing s with
  | nil => exact refl s
  | cons f rest ih =>
    obtain ⟨first, others⟩ := List.forall_mem_cons.mp credit
    exact (queue first priority).trans (ih others)

theorem update (stream : Stream) {frames : List Outgoing} (credit : ∀ f ∈ frames, f.IsCredit) :
    Trails s (s.update stream frames) := by
  have set : Trails s (s.setStream stream) := of_journal rfl rfl rfl
  exact set.trans (queueAll credit _)

/-- A stream that is over is not reset. -/
theorem reset {stream : Stream} (inactive : stream.isActive = false) (code : ErrorCode) :
    Trails s (s.reset stream code) := by
  have silent : stream.reset code = (stream, []) := by
    unfold Stream.reset
    rw [inactive]
    rfl
  unfold Session.reset
  rw [silent]
  exact update stream nofun

theorem cancel (s : Session) (id : Nat) : Trails s (s.cancel id) := by
  rw [cancel_rest]
  exact ⟨rfl, rfl, [.cancelled id], rfl, List.forall_mem_singleton.mpr ⟨rfl, nofun⟩⟩

theorem foldl_cancel (ids : List Nat) (s : Session) : Trails s (ids.foldl Session.cancel s) := by
  induction ids generalizing s with
  | nil => exact refl s
  | cons id rest ih => exact (cancel s id).trans (ih _)

theorem quiet_journal (trails : Trails s t) :
    ∃ events, t.journal = s.journal ++ events ∧ ∀ e ∈ events, e.taken? = none ∧ e.wrote? = none := by
  obtain ⟨events, journal, trailing⟩ := trails.journal
  refine ⟨events, journal, fun e member => ?_⟩
  have other := (trailing e member).1
  cases e <;> first | exact ⟨rfl, rfl⟩ | cases other

theorem written (trails : Trails s t) : t.written = s.written := by
  obtain ⟨events, journal, quiet⟩ := trails.quiet_journal
  rw [written_append journal, List.filterMap_eq_nil_iff.mpr fun e member => (quiet e member).2, List.append_nil]

theorem taken (trails : Trails s t) : t.taken = s.taken := by
  obtain ⟨events, journal, quiet⟩ := trails.quiet_journal
  rw [Session.taken, journal, List.filterMap_append, List.filterMap_eq_nil_iff.mpr fun e member => (quiet e member).1,
    List.append_nil]
  rfl

theorem queued (trails : Trails s t) : ∃ late, t.queued = s.queued ++ late ∧ ∀ f ∈ late, f.IsCredit := by
  obtain ⟨events, journal, trailing⟩ := trails.journal
  refine ⟨events.filterMap Event.queued?, by rw [Session.queued, journal, List.filterMap_append]; rfl, fun f member => ?_⟩
  obtain ⟨e, member, same⟩ := List.mem_filterMap.mp member
  exact (trailing e member).2 f same

end Trails

/-- Every stream is over. -/
def Spoken (s : Session) : Prop := ∀ id stream, s.stream? id = some stream → stream.WellFormed ∧ stream.isActive = false

theorem Move.trails (h : Move s t) (leaving : s.goAwaySent) (spoken : s.Spoken) : Trails s t := by
  cases h with
  | started next => exact ⟨rfl, rfl, [_], rfl, List.forall_mem_singleton.mpr ⟨rfl, nofun⟩⟩
  | @acted id stream index action found plain =>
    refine Trails.trans ?_ (.note rfl rfl)
    obtain ⟨well, inactive⟩ := spoken id stream found
    -- A stream that is over refuses to send, so only reads are left, which grant credit.
    obtain ⟨e, -, mute⟩ := mute_of_inactive s well inactive
    cases action with
    | info => exact .refl s
    | read => exact .update _ fun f member => ⟨_, Stream.frames_read stream f member⟩
    | readAll => exact .update _ fun f member => ⟨_, Stream.frames_readUpTo _ stream f member⟩
    | headers list final =>
      rw [(mute addTask).1]
      exact .refl s
    | data bytes final =>
      rw [(mute addTask).2]
      exact .refl s
    | push list priority =>
      obtain ⟨e, refused⟩ : ∃ e, s.pushError? stream = some e := by
        simpa [pushes, Option.isSome_iff_exists] using plain
      simp only [perform, refused]
      exact .refl s
  | promised list priority found allowed =>
    obtain ⟨-, -, staying, -⟩ := of_pushError? allowed
    exact absurd leaving (Bool.eq_false_iff.mp staying)
  | pushed | resumed => exact .note rfl rfl
  | parked | unparked => exact .of_journal rfl rfl rfl
  | @woken stream p found => exact (Trails.update _ fun f member => ⟨_, Stream.frames_read stream f member⟩).trans (.note rfl rfl)
  | returned id =>
    have noted : Trails s (s.note (.ended id)) := .note rfl rfl
    unfold Session.returned
    dsimp only
    split
    · next stream found =>
      split
      · exact noted
      · exact noted.trans (.reset (spoken id stream found).2 _)
    · exact noted
  | brokeDown id =>
    have noted : Trails s (s.note (.failed id)) := .note rfl rfl
    unfold Session.brokeDown
    dsimp only
    split
    · next stream found => exact noted.trans (.reset (spoken id stream found).2 _)
    · exact noted

theorem Advance.trails {reason : StopReason} (h : Advance s t) (stopped : s.status = .stopped reason)
    (leaving : s.goAwaySent) (spoken : s.Spoken) : Trails s t := by
  cases h with
  | moved h => exact h.trails leaving spoken
  | closed => exact .of_journal rfl rfl rfl
  | halted =>
    have set : Trails s { s with executor := s.executor.stop.1 } := .of_journal rfl rfl rfl
    exact set.trans (.foldl_cancel ..)
  | began ready => simp [stopped] at ready
  | polled running | counted running | arrived running | read running | dispatched running | wentAway running
  | pruned running | wrote running | gone running | finished running => simp [stopped] at running

/-- What becomes of a session that was idle after GOAWAY: all that was put into the outbox before was written, and what is
    put in later grants the peer credit. No stream is opened any more. -/
theorem trails_finished {version : Version} {config : Config} {handlers : Handlers} {schedule : Schedule}
    {transport : Transport} (h : Reaches (start version config handlers schedule transport) s) (running : s.status = .running)
    (announced : s.goAwaySent) (idle : s.isIdle) (rest : Reaches (s.stop .finished) t) :
    Trails (s.stop .finished) t ∧ ∀ id, (t.stream? id).isSome → (s.stream? id).isSome := by
  have stopped : Reaches (start version config handlers schedule transport) (s.stop .finished) :=
    h.trans (.single (.finished running announced idle))
  have followed := followed_start stopped
  have known {u : Session} (rest : Reaches (s.stop .finished) u) (id : Nat) (present : (u.stream? id).isSome) :
      (s.stream? id).isSome := by
    refine Option.isSome_iff_ne_none.mpr fun absent => ?_
    have none : u.stream? id = none :=
      ((rest.lanes followed.stable followed.fresh).lanes id).unopened announced absent
    simp [none] at present
  refine ⟨?_, known rest⟩
  refine rest.keeps_from (.refl _) fun {u v} earlier last trails => trails.trans ?_
  have sane := (Matures.of_reaches stopped (sane_start version config handlers schedule transport)).sane
  have matures := Matures.of_reaches earlier sane
  refine last.trails trails.status (trails.leaving.trans announced) fun id stream found => ?_
  refine ⟨(matures.sane.orderly id).well stream found, ?_⟩
  -- The stream was known when the session stopped; it was over then, and stays so.
  obtain ⟨old, before⟩ := Option.isSome_iff_exists.mp (known earlier id (Option.isSome_of_eq_some found))
  obtain ⟨stream', found', ages⟩ := matures.ages id old before
  cases found.symm.trans found'
  have inactive := inactive_of_idle (sound_start h id).orderly idle before
  exact Bool.eq_false_iff.mpr fun active => Bool.eq_false_iff.mp inactive (ages.active active)

section Ready
variable (ready : s.status = .ready)
include ready

/-- A run ends where its rounds end, and closes down there unless it has crashed. -/
theorem runToEnd_of_ready :
    s.runToEnd.status = s.serve.status ∧ (s.serve.status ≠ .crashed → s.runToEnd = s.serve.shutDown) := by
  rw [runToEnd, if_pos ready]
  dsimp only
  split
  · next crashed => exact ⟨rfl, fun other => absurd crashed other⟩
  · exact ⟨status_shutDown _, fun _ => rfl⟩

theorem write_of_refused (stopped : s.runToEnd.status = .stopped .initialWriteFailed) :
    s.transport.write ((Frame.settings false (s.config.params s.version)).encode 0) = none := by
  rw [(runToEnd_of_ready ready).1] at stopped
  rcases concludes_serve ready with ⟨refused, -⟩ | ends
  · exact refused
  · exact absurd stopped ends.status_ne

theorem runToEnd_of_peerGone (stopped : s.runToEnd.status = .stopped .peerGone) :
    ∃ u : Session, u.poll.transport.isGone ∧ s.runToEnd = (u.poll.stop .peerGone).shutDown := by
  obtain ⟨status, down⟩ := runToEnd_of_ready ready
  rw [status] at stopped
  rcases concludes_serve ready with ⟨-, refused⟩ | ends
  · simp [refused] at stopped
  obtain ⟨u, gone, serve⟩ := ends.of_peerGone stopped
  exact ⟨u, gone, serve ▸ down (by simp [stopped])⟩

theorem runToEnd_of_finished (stopped : s.runToEnd.status = .stopped .finished) :
    ∃ u, Reaches s u ∧ u.status = .running ∧ u.goAwaySent ∧ u.isIdle ∧ s.serve = u.stop .finished ∧
      s.runToEnd = (u.stop .finished).shutDown := by
  obtain ⟨status, down⟩ := runToEnd_of_ready ready
  rw [status] at stopped
  rcases concludes_serve ready with ⟨-, refused⟩ | ends
  · simp [refused] at stopped
  obtain ⟨u, reached, running, announced, idle, serve⟩ := ends.of_finished stopped
  exact ⟨u, reached, running, announced, idle, serve, serve ▸ down (by simp [stopped])⟩

end Ready

/-- What a run has written when it has finished, whatever handlers do between and after the steps of the session: all that
    was in the outbox when the session stopped, which was empty and every stream over then, with its end or RST_STREAM
    written or RST_STREAM taken from the peer while it went on. What is not written was put in later, and grants the peer
    credit. -/
theorem written_finished {version : Version} {config : Config} {handlers : Handlers} {schedule : Schedule}
    {transport : Transport} (h : Reaches (start version config handlers schedule transport) t)
    (finished : t.status = .stopped .finished) :
    (heads t.written).countP (·.kind == Kind.goAway.code) = 1 ∧ t.written = t.encoding.sendings.flatMap (·.wire) ∧
      (∃ late, t.queued.Perm (t.taken ++ late) ∧ ∀ f ∈ late, f.IsCredit) ∧
      ∃ u, Reaches (start version config handlers schedule transport) u ∧ Reaches (u.stop .finished) t ∧
        u.taken.Perm u.queued ∧ ∀ id, (t.stream? id).isSome → ∃ stream, u.stream? id = some stream ∧
          stream.isActive = false ∧ ((u.wire id).any (·.1.endsReply) ∨ (u.wire id).any (·.1.isReset) ∨
            (lifetime id u.journal).any (·.hangsUp id)) := by
  obtain ⟨u, reached, running, announced, idle, rest⟩ := h.finishes nofun finished
  obtain ⟨trails, known⟩ := trails_finished reached running announced idle rest
  have hopen := ((followed_start reached).stable.running running).1
  have all : u.taken.Perm u.queued := taken_perm reached hopen (waiting_of_idle idle)
  obtain ⟨late, queued, credit⟩ := trails.queued
  have unbroken : t.Unbroken := by simp [Unbroken, finished]
  refine ⟨?_, (writing_start h).whole unbroken, ⟨late, ?_, credit⟩, u, reached, rest, all, fun id present => ?_⟩
  · rw [trails.written]
    exact (countP_goAway reached).2 announced all (unbroken_of_running running)
  · rw [queued, trails.taken]
    exact all.symm.append_right late
  · obtain ⟨stream, found⟩ := Option.isSome_iff_exists.mp (known id present)
    exact ⟨stream, found, ended_of_idle reached running idle found⟩

/-- Nothing is exchanged with the peer. -/
def Aloof (s t : Session) : Prop := ∃ events, t.journal = s.journal ++ events ∧ ∀ e ∈ events, e.isExchange = false

namespace Aloof

theorem of_journal (journal : t.journal = s.journal) : Aloof s t := ⟨[], journal.trans (List.append_nil _).symm, nofun⟩

theorem refl (s : Session) : Aloof s s := of_journal rfl

theorem of_kept (kept : Kept s t) : Aloof s t := kept.journal

theorem trans (first : Aloof s t) (second : Aloof t u) : Aloof s u := by
  obtain ⟨early, split, inner⟩ := first
  obtain ⟨late, split', inner'⟩ := second
  exact ⟨early ++ late, by rw [split', split, List.append_assoc], List.forall_mem_append.mpr ⟨inner, inner'⟩⟩

end Aloof

/-- Once a session has stopped, nothing is exchanged with the peer. -/
theorem Reaches.aloof {reason : StopReason} (h : Reaches s t) (stopped : s.status = .stopped reason) : Aloof s t := by
  -- The reason stays with the session, which rules out all steps of a running one.
  have still : t.status = .stopped reason ∧ Aloof s t := by
    refine h.keeps (P := fun u => u.status = .stopped reason ∧ Aloof s u) ⟨stopped, .refl s⟩ fun {u v} last ⟨stopped, aloof⟩ => ?_
    cases last with
    | moved h => exact ⟨h.kept.status.trans stopped, aloof.trans (.of_kept h.kept)⟩
    | closed => exact ⟨stopped, aloof.trans (.of_journal rfl)⟩
    | halted =>
      have kept := Kept.foldl_cancel u.executor.stop.2 { u with executor := u.executor.stop.1 }
      have set : Aloof u { u with executor := u.executor.stop.1 } := .of_journal rfl
      exact ⟨kept.status.trans stopped, aloof.trans (set.trans (.of_kept kept))⟩
    | began ready => simp [stopped] at ready
    | polled running | counted running | arrived running | read running | dispatched running | wentAway running
    | pruned running | wrote running | gone running | finished running => simp [stopped] at running
  exact still.2

/-- What is left of a session after the poll that has found the peer gone. -/
theorem polled_gone {v : Session} (moves : Moves (u.note .polled) v)
    (rest : Reaches ({ v with transport := v.transport.poll }.stop .peerGone) t) :
    ∃ back, t.journal = u.journal ++ .polled :: back ∧ ∀ e ∈ back, e.isExchange = false := by
  have stopped : Aloof v ({ v with transport := v.transport.poll }.stop .peerGone) := .of_journal rfl
  have later : Aloof (u.note .polled) t := ((Aloof.of_kept moves.kept).trans stopped).trans (rest.aloof rfl)
  obtain ⟨back, journal, inner⟩ := later
  exact ⟨back, by rw [journal]; exact (List.append_cons ..).symm, inner⟩

/-- What a session has read and written when it has stopped, by the reason for which it stopped, whatever handlers do
    between its steps and after them. The first write is the frame that announces the limits. If that one fails, nothing else
    is written or read. If the peer is gone, nothing is exchanged with it after the last poll, which has found it gone. If a
    later write fails, it is the last transfer. If the session finishes, one GOAWAY was written, all that was in the outbox
    before the session stopped was taken out and written, and every stream that was ever opened was over by then, with its
    end or RST_STREAM written or RST_STREAM taken from the peer while it went on. At no moment of any run has more than one
    GOAWAY been written.

    If no handler goes on once the session has stopped, all that was ever put into the outbox was written when it has
    finished. If one does, credit for the peer may be left out (`stop_reasons_leftover`). -/
theorem stop_reasons (version : Version) (config : Config) (handlers : Handlers) (schedule : Schedule)
    (transport : Transport) :
    let s := start version config handlers schedule transport
    let first := (Frame.settings false (config.params version)).encode 0
    (∀ t, Reaches s t →
      (t.status = .ready ∨ t.status = .stopped .initialWriteFailed ∨ ∃ later, t.transfers = .wrote first :: later) ∧
      (t.status = .stopped .initialWriteFailed → t.transfers = [.writeFailed]) ∧
      (t.status = .stopped .writeFailed → ∃ front, t.transfers = front ++ [.writeFailed] ∧ .writeFailed ∉ front) ∧
      (t.status = .stopped .finished →
        (heads t.written).countP (·.kind == Kind.goAway.code) = 1 ∧ t.written = t.encoding.sendings.flatMap (·.wire) ∧
          (∃ late, t.queued.Perm (t.taken ++ late) ∧ ∀ f ∈ late, f.IsCredit) ∧
          ∃ u, Reaches s u ∧ Reaches (u.stop .finished) t ∧ u.taken.Perm u.queued ∧
            ∀ id, (t.stream? id).isSome → ∃ stream, u.stream? id = some stream ∧ stream.isActive = false ∧
              ((u.wire id).any (·.1.endsReply) ∨ (u.wire id).any (·.1.isReset) ∨
                (lifetime id u.journal).any (·.hangsUp id))) ∧
      (heads t.written).countP (·.kind == Kind.goAway.code) ≤ 1) ∧
    (∀ u v, Reaches s u → u.status = .running → Moves (u.note .polled) v → v.transport.poll.isGone →
      ∀ t, Reaches ({ v with transport := v.transport.poll }.stop .peerGone) t →
        ∃ back, t.journal = u.journal ++ .polled :: back ∧ ∀ e ∈ back, e.isExchange = false) ∧
    let t := s.runToEnd
    (t.status = .stopped .initialWriteFailed ∨ ∃ later, t.transfers = .wrote first :: later) ∧
    (t.status = .stopped .initialWriteFailed → transport.write first = none ∧ t.transfers = [.writeFailed]) ∧
    (t.status = .stopped .peerGone → t.transport.isGone ∧
      ∃ front back, t.journal = front ++ .polled :: back ∧ ∀ e ∈ back, e.isExchange = false) ∧
    (t.status = .stopped .writeFailed → ∃ front, t.transfers = front ++ [.writeFailed] ∧ .writeFailed ∉ front) ∧
    (t.status = .stopped .finished →
      (heads t.written).countP (·.kind == Kind.goAway.code) = 1 ∧
      (t.taken.Perm t.queued ∧ t.written = t.encoding.sendings.flatMap (·.wire)) ∧
      ∀ id, (t.stream? id).isSome → ∃ stream, s.serve.stream? id = some stream ∧ stream.isActive = false ∧
        ((s.serve.wire id).any (·.1.endsReply) ∨ (s.serve.wire id).any (·.1.isReset) ∨
          (lifetime id s.serve.journal).any (·.hangsUp id))) := by
  intro s first
  have begins {t : Session} (h : Reaches s t) (begun : t.status ≠ .ready) :
      t.status = .stopped .initialWriteFailed ∨ ∃ later, t.transfers = .wrote first :: later := by
    have transferred : Transferred first t := transferred_start h
    by_cases refused : t.status = .stopped .initialWriteFailed
    · exact .inl refused
    refine .inr ?_
    by_cases broken : t.status = .stopped .writeFailed
    · obtain ⟨later, all, -⟩ := transferred.broken broken
      exact ⟨_, all⟩
    · obtain ⟨later, all, -⟩ := transferred.whole ⟨begun, refused, broken⟩
      exact ⟨_, all⟩
  have breaks {t : Session} (h : Reaches s t) (broken : t.status = .stopped .writeFailed) :
      ∃ front, t.transfers = front ++ [.writeFailed] ∧ .writeFailed ∉ front := by
    have transferred : Transferred first t := transferred_start h
    obtain ⟨later, all, sound⟩ := transferred.broken broken
    exact ⟨.wrote first :: later, all, by simp [sound]⟩
  refine ⟨fun t reached => ⟨?_, (transferred_start reached).refused, breaks reached, written_finished reached,
    (countP_goAway reached).1⟩, fun u v reached running moves gone t rest => polled_gone moves rest, ?_⟩
  · by_cases ready : t.status = .ready
    · exact .inl ready
    · exact .inr (begins reached ready)
  intro t
  -- The run in which nothing comes between is one of these.
  have reached : Reaches s t := reaches_runToEnd s
  refine ⟨?_, ?_, ?_, breaks reached, ?_⟩
  · exact begins reached ((runToEnd_of_ready (s := s) rfl).1 ▸ (reaches_serve (s := s) rfl).2.2)
  · intro refused
    exact ⟨write_of_refused (s := s) rfl refused, (transferred_start reached).refused refused⟩
  · intro stopped
    obtain ⟨u, gone, down⟩ := runToEnd_of_peerGone (s := s) rfl stopped
    rw [show t = _ from down]
    exact ⟨(kept_shutDown (u.poll.stop .peerGone)).transport ▸ gone, u.journal,
      polled_gone (moves_poll u) (reaches_shutDown rfl)⟩
  · intro finished
    -- The session was idle in its last round, so nothing was left for the shutdown to drop.
    obtain ⟨u, early, running, announced, idle, serve, down⟩ := runToEnd_of_finished (s := s) rfl finished
    obtain ⟨once, all, unopened⟩ := settled_shutDown early running announced idle
    rw [show t = _ from down, serve]
    refine ⟨once, all, fun id present => ?_⟩
    obtain ⟨stream, found⟩ := Option.isSome_iff_exists.mp (unopened id present)
    exact ⟨stream, found, ended_of_idle early running idle found⟩

/-- A session whose peer opens three streams and resets the third, and whose handlers end one reply, return without
    one, and suspend. -/
def trio (writable : Option Nat) (patience : Nat) : Session :=
  let request (id : Nat) := (Frame.headers id [] true none 0).encode id
  start .spdy3 {} { own := [(1, [.act (.headers [] true)]), (3, [])], others := [.yield, .yield] } .atOnce
    { arrivals := [{ bytes := request 1 ++ request 3 ++ request 5 ++ (Frame.reset 5 0).encode 5 }], writable, patience }

/-- The streams end in three ways, and the session in four. -/
theorem stop_reasons_trio :
    let t := (trio none 40).runToEnd
    (t.status = .stopped .finished ∧ (∃ late, t.queued.Perm (t.taken ++ late) ∧ ∀ f ∈ late, f.IsCredit) ∧
      (heads t.written).countP (·.kind == Kind.goAway.code) = 1 ∧ t.taken.Perm t.queued ∧
      (∃ stream, (trio none 40).serve.stream? 5 = some stream ∧ stream.isActive = false) ∧
      (t.wire 1).any (·.1.endsReply) ∧ (t.wire 3).any (·.1.isReset) ∧ (lifetime 5 t.journal).any (·.hangsUp 5)) ∧
    (trio (some 0) 40).runToEnd.transfers = [.writeFailed] ∧
    (∃ front, (trio (some 2) 40).runToEnd.transfers = front ++ [.writeFailed] ∧ .writeFailed ∉ front) ∧
    ∃ front back, (trio none 1).runToEnd.journal = front ++ .polled :: back ∧ ∀ e ∈ back, e.isExchange = false := by
  intro t
  have reasons (writable : Option Nat) (patience : Nat) :=
    let s := trio writable patience
    stop_reasons s.version s.config s.handlers s.schedule s.transport
  refine ⟨?_, ?_, ?_, ?_⟩
  · have done : t.status = .stopped .finished := by decide +kernel
    obtain ⟨each, -, -, -, -, -, finished⟩ := reasons none 40
    obtain ⟨-, -, late, -⟩ := (each t (reaches_runToEnd _)).2.2.2.1 done
    obtain ⟨once, ⟨perm, -⟩, streams⟩ := finished done
    obtain ⟨stream, found, inactive, -⟩ := streams 5 (by decide +kernel)
    exact ⟨done, late, once, perm, ⟨stream, found, inactive⟩, by decide +kernel⟩
  · obtain ⟨-, -, -, refused, -⟩ := reasons (some 0) 40
    exact (refused (by decide +kernel)).2
  · obtain ⟨-, -, -, -, -, broken, -⟩ := reasons (some 2) 40
    exact broken (by decide +kernel)
  · obtain ⟨-, -, -, -, gone, -⟩ := reasons none 1
    exact (gone (by decide +kernel)).2

/-- A session that finishes before its handler has read the request. -/
def tardy : Session :=
  let request := (Frame.headers 1 [] false none 0).encode 1 ++ (Frame.data 1 [1, 2, 3, 4, 5] false).encode 1
  start .spdy3 {} { others := [.yield, .act (.headers [] true)] } .atOnce { arrivals := [{ bytes := request }] }

/-- The handler reads the request between the last look at the outbox and the closing of it. What grants credit for it comes
    into the outbox, and is never written. -/
theorem stop_reasons_leftover :
    ∃ m, Slices { session := tardy } m ∧ m.phase = .returned ∧ m.session.status = .stopped .finished ∧
      .frame (.windowUpdate 1 5) ∈ m.session.queued ∧ .frame (.windowUpdate 1 5) ∉ m.session.taken ∧
      m.session.outbox.closed ∧ m.session.outbox.queue.toList = [] := by
  have served : Slices { session := tardy } { session := tardy.serve } :=
    slices_of_reaches (reaches_serve rfl).1 (by decide +kernel)
  exact reached_of_play? served [.act 1 2 .readAll, .drain, .close, .empty, .halt, .quit] (by decide +kernel)

end Session

end Multiplex
