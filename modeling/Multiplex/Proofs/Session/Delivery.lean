import Multiplex.Proofs.Session.Ending

/-! # From handlers to the wire

What a handler has sent goes out as far as the credit of its stream reaches, in order and with its end at the
end; and if the session finishes, all of it is written (`send_path`). -/

namespace Multiplex.Session

open Multiplex.Frame (Kind)

variable {s t : Session} {version : Version} {config : Config} {handlers : Handlers} {schedule : Schedule}
  {transport : Transport}

/-! ### Finished sessions -/

/-- A session finishes once, after GOAWAY and with nothing left to do. -/
theorem Advance.finishes (h : Advance s t) (done : t.status = .stopped .finished) :
    s.status = .stopped .finished ∨
      s.status = .running ∧ s.goAwaySent ∧ s.isIdle ∧ t = s.stop .finished := by
  -- Of all steps, one alone sets this status: the others keep it, or stop for another reason.
  cases h with
  | moved h => exact .inl (h.kept.status ▸ done)
  | began =>
    rcases status_write { s with status := .running } ((Frame.settings false (s.config.params s.version)).encode 0)
      .initialWriteFailed with same | stopped
    · rw [same] at done
      cases done
    · rw [stopped] at done
      cases done
  | polled | counted | arrived | read | pruned | closed => exact .inl done
  | @dispatched running frame reader next =>
    rcases status_dispatch { s with reader } frame with same | crashed
    · exact .inl (same ▸ done)
    · rw [crashed] at done
      cases done
  | wentAway running code => exact .inl (status_sendGoAway s code ▸ done)
  | @wrote running f outbox next =>
    rcases status_writeOutgoing { s with outbox } f with same | stopped
    · exact .inl (same ▸ done)
    · rw [stopped] at done
      cases done
  | gone => cases done
  | finished running announced idle => exact .inr ⟨running, announced, idle, rfl⟩
  | halted =>
    have same := (Kept.foldl_cancel s.executor.stop.2 { s with executor := s.executor.stop.1 }).status
    exact .inl (same.symm.trans done)

theorem Reaches.finishes (h : Reaches s t) (going : s.status ≠ .stopped .finished)
    (done : t.status = .stopped .finished) :
    ∃ u, Reaches s u ∧ u.status = .running ∧ u.goAwaySent ∧ u.isIdle ∧ Reaches (u.stop .finished) t := by
  induction h with
  | refl => exact absurd done going
  | tail earlier last ih =>
    rcases last.finishes done with before | ⟨running, announced, idle, rfl⟩
    · obtain ⟨u, reached, running, announced, idle, rest⟩ := ih before
      exact ⟨u, reached, running, announced, idle, rest.trans (.single last)⟩
    · exact ⟨_, earlier, running, announced, idle, .refl _⟩

/-- In an idle session every stream is over, whether or not the session still looks after it. -/
theorem inactive_of_idle {id : Nat} {stream : Stream} (orderly : (s.lane id).Orderly id) (idle : s.isIdle)
    (found : s.stream? id = some stream) : stream.isActive = false := by
  refine Bool.eq_false_iff.mpr fun active => ?_
  have listed : s.listed.contains id := orderly.listed stream found active
  have member : stream ∈ s.listedStreams :=
    List.mem_filter.mpr ⟨List.mem_of_find?_eq_some found, by rw [id_of_stream? found]; exact listed⟩
  simpa [active] using List.all_eq_true.mp (Bool.and_eq_true_iff.mp idle).1 stream member

theorem waiting_of_idle (idle : s.isIdle) (id : Nat) : (s.lane id).waiting = [] := by
  simp [lane, Queue.isEmpty_iff.mp (Bool.and_eq_true_iff.mp idle).2]

/-- In a finished session every stream that was not reset has delivered its reply. -/
theorem delivered_of_finished (h : Reaches (start version config handlers schedule transport) t) {id : Nat}
    {stream : Stream} (found : t.stream? id = some stream) (done : t.status = .stopped .finished)
    (kept : t.journal.any (·.resets id) = false) (heard : (lifetime id t.journal).any (·.hangsUp id) = false) :
    (t.lane id).Delivered id := by
  obtain ⟨u, reached, running, announced, idle, rest⟩ := h.finishes nofun done
  have followed := followed_start reached
  have sound := sound_start reached id
  have accounted := (steps_start reached id).accounted
  have hopen := (followed.stable.running running).1
  have later : Lane.Steps version config id (u.lane id) (t.lane id) := by
    have chain := (rest.lanes ((Advance.finished running announced idle).stable followed.stable) followed.fresh).lanes id
    rwa [show (u.stop .finished).version = version from followed.version,
      show (u.stop .finished).config = config from followed.config] at chain
  refine later.delivered sound ?_
  -- The stream was there when the session finished, and no stream went on then.
  rcases (u.stream? id).eq_none_or_eq_some with absent | ⟨before, present⟩
  · have none : t.stream? id = none := later.unopened announced absent
    rw [none] at found
    cases found
  have inactive := inactive_of_idle sound.orderly idle present
  have released : before.finalReleased := by
    refine Bool.of_not_eq_false fun unreleased => ?_
    have aborted : before.aborted := by simpa [Stream.isActive, unreleased] using inactive
    rcases accounted.excused hopen before present aborted unreleased with reset | hungUp
    · have whole := any_filter (any_grows later.past reset)
      simp [kept] at whole
    · have whole := any_grows (lifetime_grows later.past) hungUp
      rw [past_lane, lifetime_filter] at whole
      have whole := any_filter whole
      simp [heard] at whole
  have waiting := waiting_of_idle idle id
  refine ⟨⟨before, present, released⟩, by simp [waiting], ?_⟩
  have order := sound.voiced.order hopen
  rwa [Lane.line, waiting, List.map_nil, List.append_nil] at order

/-! ### The send path -/

theorem ledger_lane (s : Session) (id : Nat) : (s.lane id).ledger id = s.ledger id := Ledger.foldl_filter _

/-- The data that is seen on the wire when a reply has been delivered is what was sent, and its last frame is
    the one that ends it. -/
theorem seen_of_delivered (h : Reaches (start version config handlers schedule transport) t) {id : Nat}
    {stream : Stream} (found : t.stream? id = some stream) (whole : t.Unbroken) (delivered : (t.lane id).Delivered id) :
    ((t.wire id).filter (·.1.kind == Kind.data.code)).flatMap (·.2) = (t.ledger id).sent ∧
      ∃ front last, (t.wire id).filter (·.1.isReply) = front ++ [last] ∧ last.1.endsReply ∧
        ∀ w ∈ front, w.1.endsReply = false := by
  have sound := sound_start h
  obtain ⟨sent, entered, seen, -, all⟩ := wire_sent sound (writing_start h) id
  -- The opening SETTINGS belongs to the connection, which has no stream.
  have connection : t.opening.stream ≠ id := by
    rintro rfl
    have none : t.stream? 0 = none := ((sound 0).voiced.zero rfl).1
    rw [show t.opening.stream = 0 from rfl, none] at found
    cases found
  rw [List.filter_cons_of_neg (by simpa using connection), ← lane_taken] at entered
  obtain ⟨same, present, done⟩ := delivered.ended
  obtain rfl : stream = same := Option.some.inj (found.symm.trans present)
  have balance := (sound id).balanced stream found (.inr done)
  have messages := delivered.taken
  rw [ledger_lane] at balance messages
  rw [all whole]
  constructor
  · have bytes := balance.bytes
    rw [((sound id).orderly.well stream found).released done |>.2, Chunk.join_nil, List.append_nil] at bytes
    rw [payload_seen seen, entered, ← Outgoing.payload_filter, messages]
    exact bytes
  · have kinds := congrArg (List.map Prod.snd) (replies_seen seen)
    rw [List.map_map, List.map_map, entered, messages] at kinds
    have finals := balance.finals
    rw [done] at finals
    obtain ⟨early, split, unended⟩ := finals.last
    obtain ⟨front, rest, parts, earlier, final⟩ := List.map_eq_append_iff.mp (kinds.trans split)
    obtain ⟨last, rfl, ends⟩ := List.map_eq_singleton_iff.mp final
    refine ⟨front, last, parts, ends, fun w member => unended _ ?_⟩
    exact earlier ▸ List.mem_map_of_mem member

/-- What a handler sends on a stream goes out as far as the credit of the stream reaches, at every moment that
    the stream is not aborted: the data frames that have gone into the outbox carry the first bytes of what was
    sent, as many as the window that the stream started with and the grants of the peer allow, or all of them
    without flow control; the last frame, and no other, ends the reply, once the handler has ended it and all
    else has gone out; and until then the stream goes on. When the session finishes, and the stream was
    neither reset by the session nor, while it went on, by the peer, all that was sent has been written, with
    the end at the end. -/
theorem send_path (h : Reaches (start version config handlers schedule transport) t) {id : Nat} {stream : Stream}
    (found : t.stream? id = some stream) :
    let k := t.ledger id
    (stream.aborted = false →
      (∃ window, k.window = some window ∧
        k.payload = if version.hasFlowControl then k.sent.take (window + k.granted) else k.sent) ∧
      ((∃ f ∈ k.released, f.final) ↔ k.ended ∧ k.payload = k.sent) ∧
      (∀ f ∈ k.released.dropLast, f.final = false) ∧
      (stream.isActive = false ↔ ∃ f ∈ k.released, f.final)) ∧
    (t.status = .stopped .finished → t.journal.any (·.resets id) = false →
      (lifetime id t.journal).any (·.hangsUp id) = false →
        ((t.wire id).filter (·.1.kind == Kind.data.code)).flatMap (·.2) = k.sent ∧
        ∃ front last, (t.wire id).filter (·.1.isReply) = front ++ [last] ∧ last.1.endsReply ∧
          ∀ w ∈ front, w.1.endsReply = false) := by
  intro k
  have sound := (steps_start h id).sound (Lane.sound_empty id)
  have well := sound.orderly.well stream found
  refine ⟨fun going => ?_, fun done kept heard => ?_⟩
  · have balance := sound.balanced stream found (.inl going)
    rw [ledger_lane] at balance
    -- The end of the reply is in the ledger just when the stream has released it.
    have final : (∃ f ∈ k.released, f.final) ↔ stream.finalReleased := by
      have any := balance.finals.any
      rw [Ledger.finals, List.any_map] at any
      rw [← any]
      exact List.any_eq_true.symm
    refine ⟨balance.payload_eq well, final.trans (balance.finalReleased_iff well going), fun f member => ?_, ?_⟩
    · refine balance.finals.dropLast _ ?_
      rw [Ledger.finals, ← List.map_dropLast]
      exact List.mem_map_of_mem member
    · rw [final]
      simp [Stream.isActive, going]
  · have unbroken : t.Unbroken := by simp [Unbroken, done]
    exact seen_of_delivered h found unbroken (delivered_of_finished h found done kept heard)

/-- A session whose peer opens one stream with a window of three bytes, and grants it four more. The handler
    replies with five bytes. -/
def narrow : Session :=
  let limits := (Frame.settings false [{ id := Setting.initialWindow, value := 3 }]).encode 0
  let request := (Frame.headers 1 [] true none 0).encode 1
  let grant := (Frame.windowUpdate 1 4).encode 0
  start .spdy3 {} { others := [.act (.headers [] false), .act (.data [1, 2, 3, 4, 5] true)] } .atOnce
    { arrivals := [{ bytes := limits ++ request }, { bytes := grant }] }

/-- The reply goes out in two pieces, because the window cuts it. -/
theorem send_path_narrow :
    let t := narrow.runToEnd
    ∃ stream, t.stream? 1 = some stream ∧ stream.aborted = false ∧ t.status = .stopped .finished ∧
      (t.ledger 1).payload = [1, 2, 3, 4, 5] ∧ (t.ledger 1).released.length = 3 ∧
      ((t.wire 1).filter (·.1.kind == Kind.data.code)).flatMap (·.2) = [1, 2, 3, 4, 5] := by
  intro t
  obtain ⟨stream, found⟩ : ∃ stream, t.stream? 1 = some stream := Option.isSome_iff_exists.mp (by decide +kernel)
  have going : (t.stream? 1).any (·.aborted) = false := by decide +kernel
  rw [found] at going
  have done : t.status = .stopped .finished := by decide +kernel
  have sent : (t.ledger 1).sent = [1, 2, 3, 4, 5] := by decide +kernel
  obtain ⟨moment, finish⟩ := send_path (reaches_runToEnd narrow) found
  obtain ⟨⟨window, opened, payload⟩, -⟩ := moment going
  obtain ⟨written, -⟩ := finish done (by decide +kernel) (by decide +kernel)
  have three : (t.ledger 1).window = some 3 := by decide +kernel
  have four : (t.ledger 1).granted = 4 := by decide +kernel
  obtain rfl : 3 = window := Option.some.inj (three.symm.trans opened)
  refine ⟨stream, found, going, done, ?_, by decide +kernel, written.trans sent⟩
  rw [payload, sent, four]
  rfl

end Multiplex.Session
