import Multiplex.Proofs.Stream.Identity
import Multiplex.Proofs.Stream.Release

/-! # Well-formed streams

The flags of a stream and what its send window holds back agree (`WellFormed`), and every operation keeps
them in agreement. None of the flags is ever taken back (`Ages`), so that a stream that is over stays
over. -/

namespace Multiplex.Stream

/-- The flags of a stream tell the truth about its reply. -/
structure WellFormed (s : Stream) : Prop where
  /-- A reply that has gone out was sent, and none of it waits. -/
  released : s.finalReleased → s.finalSent ∧ s.pending = []
  /-- A reply begins with headers. -/
  begun : s.finalSent ∨ s.pending ≠ [] → s.headersSent
  /-- The last that waits, and nothing else, is final, once the last has been sent and until it is released. -/
  ends : s.aborted = false → Ends (s.finalSent && !s.finalReleased) (s.pending.map (·.final))
  /-- Only what costs something waits, and only without credit. -/
  held : ∀ c rest, s.pending = c :: rest → s.send.enabled ∧ s.send.credit = 0 ∧ c.bytes ≠ []
  cleared : s.aborted → s.pending = []

/-- No flag of `s` is taken back in `t`. -/
structure Ages (s t : Stream) : Prop where
  closed : s.peerClosed → t.peerClosed
  begun : s.headersSent → t.headersSent
  sent : s.finalSent → t.finalSent
  released : s.finalReleased → t.finalReleased
  aborted : s.aborted → t.aborted

variable {s t u : Stream}

theorem Ages.refl (s : Stream) : Ages s s :=
  ⟨fun flag => flag, fun flag => flag, fun flag => flag, fun flag => flag, fun flag => flag⟩

theorem Ages.trans (first : Ages s t) (second : Ages t u) : Ages s u :=
  ⟨second.closed ∘ first.closed, second.begun ∘ first.begun, second.sent ∘ first.sent,
    second.released ∘ first.released, second.aborted ∘ first.aborted⟩

theorem isActive_iff : s.isActive ↔ s.finalReleased = false ∧ s.aborted = false := by
  simp [isActive]

theorem Ages.unreleased (ages : Ages s t) (unreleased : t.finalReleased = false) : s.finalReleased = false := by
  rw [Bool.eq_false_iff] at unreleased ⊢
  intro done
  exact unreleased (ages.released done)

theorem Ages.going (ages : Ages s t) (going : t.aborted = false) : s.aborted = false := by
  rw [Bool.eq_false_iff] at going ⊢
  intro gone
  exact going (ages.aborted gone)

theorem Ages.active (ages : Ages s t) (active : t.isActive) : s.isActive := by
  obtain ⟨unreleased, going⟩ := isActive_iff.mp active
  exact isActive_iff.mpr ⟨ages.unreleased unreleased, ages.going going⟩

/-! ### Operations of the peer and of the session -/

theorem wellFormed_new (id parent priority : Nat) (receive : Option ReceiveWindow) (send : SendWindow) :
    WellFormed { id, parent, priority, receive, send } :=
  ⟨nofun, by simp, fun _ => rfl, nofun, nofun⟩

theorem Reads.wellFormed (reads : Reads s t) (well : s.WellFormed) : t.WellFormed := by
  rw [reads.rest]
  exact ⟨well.released, well.begun, well.ends, well.held, well.cleared⟩

theorem Reads.ages (reads : Reads s t) : Ages s t := by
  refine ⟨reads.closed, ?_, ?_, ?_, ?_⟩
  all_goals
    rw [reads.rest]
    exact fun flag => flag

theorem ages_abort (s : Stream) : Ages s s.abort := by
  unfold Stream.abort
  split
  · exact .refl s
  · exact ⟨fun flag => flag, fun flag => flag, fun flag => flag, fun flag => flag, fun _ => rfl⟩

theorem ages_reset (s : Stream) (code : ErrorCode) : Ages s (s.reset code).1 := by
  unfold Stream.reset
  split
  · exact ages_abort s
  · exact .refl s

theorem ages_release (s : Stream) : Ages s s.release.1 :=
  ⟨fun flag => flag, fun flag => flag, fun flag => flag, fun flag => by simp [release, flag], fun flag => flag⟩

theorem WellFormed.abort (well : s.WellFormed) : s.abort.WellFormed := by
  unfold Stream.abort
  split
  · exact well
  · refine ⟨?_, ?_, nofun, nofun, fun _ => rfl⟩
    · intro done
      exact ⟨(well.released done).1, rfl⟩
    · intro sent
      exact well.begun (sent.imp_right (absurd rfl))

theorem WellFormed.reset (well : s.WellFormed) (code : ErrorCode) : (s.reset code).1.WellFormed := by
  unfold Stream.reset
  split
  · exact well.abort
  · exact well

/-- What is released leaves a stream well-formed, if it was but for what its window holds back. -/
theorem wellFormed_release (going : s.aborted = false) (released : s.finalReleased → s.finalSent ∧ s.pending = [])
    (begun : s.finalSent ∨ s.pending ≠ [] → s.headersSent)
    (ends : Ends (s.finalSent && !s.finalReleased) (s.pending.map (·.final))) : s.release.1.WellFormed := by
  have whole := s.send.ends_release s.pending ends
  rw [List.map_append] at whole
  obtain ⟨-, rest, last⟩ := whole.split
  have join := s.send.join_release s.pending
  refine ⟨?_, ?_, ?_, ?_, ?_⟩
  · intro done
    rcases Bool.or_eq_true_iff.mp done with before | now
    · obtain ⟨sent, nothing⟩ := released before
      exact ⟨sent, by simp [release, nothing]⟩
    · obtain ⟨sent, nothing⟩ := last (by simpa using now)
      exact ⟨(Bool.and_eq_true_iff.mp sent).1, List.map_eq_nil_iff.mp nothing⟩
  · intro sent
    refine begun (sent.imp_right fun waits nothing => waits ?_)
    simp [release, nothing]
  · intro _
    simpa [release, Bool.and_assoc, Function.comp_def] using rest
  · intro c rest waits
    obtain ⟨on, spent, costs⟩ := s.send.waiting_release s.pending waits
    exact ⟨(s.send.enabled_release s.pending).trans on, spent, costs⟩
  · intro aborted
    exact absurd (show s.aborted = true from aborted) (by simp [going])

/-- A grant goes to the window of a stream that goes on. -/
theorem of_grant {increment : Nat} {frames : List Outgoing} (going : s.aborted = false)
    (granted : s.grant increment = .ok (t, frames)) :
    s.send.credit + increment ≤ maxWindow ∧
      (t, frames) = ({ s with send := { s.send with credit := s.send.credit + increment } }).release := by
  unfold Stream.grant SendWindow.grant at granted
  rw [if_neg (by simp [going])] at granted
  by_cases fits : s.send.credit + increment ≤ maxWindow
  · rw [if_pos fits] at granted
    exact ⟨fits, (Except.ok.inj granted).symm⟩
  · rw [if_neg fits] at granted
    cases granted

theorem ages_grant {increment : Nat} {frames : List Outgoing}
    (granted : s.grant increment = .ok (t, frames)) : Ages s t := by
  unfold Stream.grant at granted
  split at granted
  · cases granted
    exact .refl s
  · split at granted <;> cases granted
    next send _ =>
    have ages := ages_release { s with send }
    exact ⟨ages.closed, ages.begun, ages.sent, ages.released, ages.aborted⟩

theorem WellFormed.grant {increment : Nat} {frames : List Outgoing} (well : s.WellFormed)
    (granted : s.grant increment = .ok (t, frames)) : t.WellFormed := by
  unfold Stream.grant at granted
  split at granted
  · cases granted
    exact well
  · next going =>
    replace going : s.aborted = false := by simpa using going
    split at granted <;> cases granted
    exact wellFormed_release going well.released well.begun (well.ends going)

/-! ### Operations of handlers -/

/-- Headers are sent on a stream that goes on and has not begun its reply. -/
theorem of_sendHeaders {list : List Header} {final : Bool} {frames : List Outgoing}
    (sent : s.sendHeaders list final = .ok (t, frames)) :
    s.aborted = false ∧ s.finalSent = false ∧ s.headersSent = false ∧
      t = { s with headersSent := true, finalSent := final, finalReleased := s.finalReleased || final } ∧
      frames = [.headers s.id list final none] := by
  unfold Stream.sendHeaders at sent
  split at sent
  · cases sent
  next going =>
  split at sent
  · cases sent
  next unended =>
  split at sent
  · cases sent
  next unbegun =>
  cases sent
  exact ⟨by simpa using going, by simpa using unended, by simpa using unbegun, rfl, rfl⟩

theorem WellFormed.pending_of_unbegun (well : s.WellFormed) (unbegun : s.headersSent = false) : s.pending = [] := by
  cases waits : s.pending with
  | nil => rfl
  | cons => exact absurd (well.begun (.inr (by simp [waits]))) (Bool.eq_false_iff.mp unbegun)

theorem WellFormed.unreleased (well : s.WellFormed) (unended : s.finalSent = false) : s.finalReleased = false :=
  Bool.eq_false_iff.mpr fun done => Bool.eq_false_iff.mp unended (well.released done).1

theorem ages_sendHeaders {list : List Header} {final : Bool} {frames : List Outgoing}
    (sent : s.sendHeaders list final = .ok (t, frames)) : Ages s t := by
  obtain ⟨-, unended, -, rfl, -⟩ := of_sendHeaders sent
  exact ⟨fun flag => flag, fun _ => rfl, fun flag => absurd flag (Bool.eq_false_iff.mp unended),
    fun flag => by simp [flag], fun flag => flag⟩

theorem WellFormed.sendHeaders {list : List Header} {final : Bool} {frames : List Outgoing}
    (well : s.WellFormed) (sent : s.sendHeaders list final = .ok (t, frames)) : t.WellFormed := by
  obtain ⟨going, unended, unbegun, rfl, -⟩ := of_sendHeaders sent
  have nothing := well.pending_of_unbegun unbegun
  have unreleased := well.unreleased unended
  refine ⟨?_, fun _ => rfl, ?_, well.held, well.cleared⟩
  · intro done
    exact ⟨by simpa [unreleased] using done, nothing⟩
  · intro _
    simp [nothing, unreleased, Ends]

/-- The pieces that data is sent in. -/
def piecesOf (limit : Nat) (bytes : Bytes) : List Bytes :=
  if bytes.isEmpty then [[]] else Bytes.pieces limit bytes

theorem piecesOf_ne_nil (limit : Nat) (bytes : Bytes) : piecesOf limit bytes ≠ [] := by
  unfold piecesOf
  cases bytes with
  | nil => simp
  | cons b rest => simp [Bytes.pieces_cons]

theorem flatten_piecesOf (limit : Nat) (bytes : Bytes) : (piecesOf limit bytes).flatten = bytes := by
  unfold piecesOf
  cases bytes with
  | nil => rfl
  | cons b rest => exact Bytes.flatten_pieces limit (b :: rest)

theorem ends_chunksOf (final : Bool) {pieces : List Bytes} (some : pieces ≠ []) :
    Ends final ((chunksOf final pieces).map (·.final)) := by
  fun_induction chunksOf final pieces with
  | case1 => exact absurd rfl some
  | case2 bytes => cases final <;> simp [Ends]
  | case3 bytes rest more ih => exact ih more

theorem join_chunksOf (final : Bool) (pieces : List Bytes) :
    Chunk.join (chunksOf final pieces) = pieces.flatten := by
  fun_induction chunksOf final pieces with
  | case1 => rfl
  | case2 bytes => simp
  | case3 bytes rest more ih => simp [ih]

/-- The stream that sends data, before anything is released. -/
def withData (s : Stream) (bytes : Bytes) (final : Bool) (limit : Nat) : Stream :=
  { s with pending := s.pending ++ chunksOf final (piecesOf limit bytes), finalSent := final }

/-- Data is sent on a stream that goes on and has begun its reply but not ended it. -/
theorem of_sendData {bytes : Bytes} {final : Bool} {limit : Nat} {frames : List Outgoing}
    (sent : s.sendData bytes final limit = .ok (t, frames)) :
    s.aborted = false ∧ s.finalSent = false ∧ s.headersSent ∧
      (t, frames) = (s.withData bytes final limit).release := by
  unfold sendData at sent
  split at sent
  · cases sent
  next going =>
  split at sent
  · cases sent
  next unended =>
  split at sent
  · cases sent
  next begun =>
  exact ⟨by simpa using going, by simpa using unended, by simpa using begun, (Except.ok.inj sent).symm⟩

theorem ages_sendData {bytes : Bytes} {final : Bool} {limit : Nat} {frames : List Outgoing}
    (sent : s.sendData bytes final limit = .ok (t, frames)) : Ages s t := by
  obtain ⟨-, unended, -, same⟩ := of_sendData sent
  obtain ⟨rfl, -⟩ := Prod.mk.inj same
  have added : Ages s (s.withData bytes final limit) :=
    ⟨fun flag => flag, fun flag => flag, fun flag => absurd flag (Bool.eq_false_iff.mp unended), fun flag => flag,
      fun flag => flag⟩
  exact added.trans (ages_release _)

/-- What a stream that goes on waits to send still ends with the last it has sent. -/
theorem WellFormed.ends_withData (well : s.WellFormed) (going : s.aborted = false) (unended : s.finalSent = false)
    (bytes : Bytes) (final : Bool) (limit : Nat) :
    Ends ((s.withData bytes final limit).finalSent && !(s.withData bytes final limit).finalReleased)
      ((s.withData bytes final limit).pending.map (·.final)) := by
  have unreleased := well.unreleased unended
  have ends := well.ends going
  rw [unended, Bool.false_and] at ends
  have later := ends.append (ends_chunksOf final (piecesOf_ne_nil limit bytes))
  rw [← List.map_append] at later
  simpa [withData, unreleased] using later

theorem WellFormed.sendData {bytes : Bytes} {final : Bool} {limit : Nat} {frames : List Outgoing}
    (well : s.WellFormed) (sent : s.sendData bytes final limit = .ok (t, frames)) : t.WellFormed := by
  obtain ⟨going, unended, begun, same⟩ := of_sendData sent
  obtain ⟨rfl, -⟩ := Prod.mk.inj same
  have unreleased : (s.withData bytes final limit).finalReleased = false := well.unreleased unended
  exact wellFormed_release (s := s.withData bytes final limit) going
    (fun done => absurd done (Bool.eq_false_iff.mp unreleased)) (fun _ => begun)
    (well.ends_withData going unended bytes final limit)

end Multiplex.Stream
