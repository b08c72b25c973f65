import Multiplex.Proofs.Stream.WellFormed

/-! # The books of a stream

A ledger records what a handler has sent on a stream, what the peer has granted it, and what has gone into
the outbox. It balances with the stream (`Ledger.Balances`): what has gone out and what waits is what was
sent, and it is paid for by the credit. A balanced ledger of a well-formed stream leaves no choice of what
has gone out (`Ledger.Balances.payload_eq`). -/

namespace Multiplex

namespace Outgoing

/-- Whether a frame is a part of a reply. -/
def isMessage : Outgoing → Bool
  | .frame (.data ..) | .frame (.headers ..) | .headers .. => true
  | _ => false

/-- Whether the reply ends with a frame. -/
def final : Outgoing → Bool
  | .frame (.data _ _ final) | .frame (.headers _ _ final ..) | .headers _ _ final _ => final
  | _ => false

def payload : Outgoing → Bytes
  | .frame (.data _ bytes _) => bytes
  | _ => []

/-- Whether a frame opens a reply. -/
def opensReply : Outgoing → Bool
  | .headers .. => true
  | _ => false

def isData : Outgoing → Bool
  | .frame (.data ..) => true
  | _ => false

/-- Only the parts of a reply carry data. -/
theorem payload_filter (frames : List Outgoing) :
    (frames.filter (·.isMessage)).flatMap (·.payload) = frames.flatMap (·.payload) := by
  induction frames with
  | nil => rfl
  | cons f rest ih =>
    cases part : f.isMessage with
    | true => rw [List.filter_cons_of_pos part, List.flatMap_cons, List.flatMap_cons, ih]
    | false =>
      have none : f.payload = [] := by
        cases f with
        | frame frame => cases frame <;> first | rfl | cases part
        | headers | pushPromise => rfl
      rw [List.filter_cons_of_neg (by simp [part]), List.flatMap_cons, none, ih]
      rfl

end Outgoing

/-- A reply that has begun is headers and, behind them, data. -/
def Replies (begun : Bool) : List Outgoing → Prop
  | [] => begun = false
  | f :: rest => begun = true ∧ f.opensReply ∧ ∀ g ∈ rest, g.isData

/-- Data continues a reply that has begun. -/
theorem Replies.append {begun : Bool} {frames more : List Outgoing} (reply : Replies begun frames)
    (started : more ≠ [] → begun) (data : ∀ f ∈ more, f.isData) : Replies begun (frames ++ more) := by
  cases frames with
  | nil =>
    have none : more = [] := by
      refine Classical.byContradiction fun some => ?_
      exact Bool.eq_false_iff.mp reply (started some)
    rw [none]
    exact reply
  | cons f rest =>
    obtain ⟨going, opens, old⟩ := reply
    exact ⟨going, opens, fun g member => (List.mem_append.mp member).elim (old g) (data g)⟩

theorem Replies.unbegun {begun : Bool} {frames : List Outgoing} (reply : Replies begun frames)
    (unbegun : begun = false) : frames = [] := by
  cases frames with
  | nil => rfl
  | cons f rest => exact absurd reply.1 (Bool.eq_false_iff.mp unbegun)

theorem Stream.isData_release (s : Stream) : ∀ f ∈ s.release.2, f.isData := by
  simp [release, Outgoing.isData]

theorem Outgoing.isMessage_of_isData {f : Outgoing} (data : f.isData) : f.isMessage := by
  cases f with
  | frame frame => cases frame <;> first | rfl | cases data
  | headers | pushPromise => cases data

/-- What was sent on a stream, granted to it, and released. -/
@[ext] structure Ledger where
  /-- The window that the stream started with, if it was opened. -/
  window : Option Nat
  /-- The data that the handler has sent. -/
  sent : Bytes := []
  /-- The handler has ended its reply. -/
  ended : Bool := false
  /-- What the peer has granted. -/
  granted : Nat := 0
  /-- The parts of the reply that have gone into the outbox. -/
  released : List Outgoing := []

namespace Ledger

def payload (k : Ledger) : Bytes := k.released.flatMap (·.payload)

/-- The frames that the reply may have ended with. -/
def finals (k : Ledger) : List Bool := k.released.map (·.final)

theorem unended {k : Ledger} (finals : Ends false k.finals) : ∀ f ∈ k.released, f.final = false := by
  have none := finals.any
  rw [List.any_eq_false] at none
  intro f member
  refine Bool.eq_false_iff.mpr fun final => ?_
  exact none true (final ▸ List.mem_map_of_mem member) rfl

/-- The ledger of a stream and the stream agree. -/
structure Balances (flow : Bool) (k : Ledger) (s : Stream) : Prop where
  bytes : k.payload ++ Chunk.join s.pending = k.sent
  enabled : s.send.enabled = flow
  credit : ∃ window, k.window = some window ∧
    (flow → s.send.credit + k.payload.length = window + k.granted)
  finals : Ends s.finalReleased k.finals
  ended : s.finalSent = k.ended
  reply : Replies s.headersSent k.released

namespace Balances
variable {flow : Bool} {k : Ledger} {s t : Stream}

theorem transfer (balance : Balances flow k s) (send : t.send = s.send) (pending : t.pending = s.pending)
    (headersSent : t.headersSent = s.headersSent) (finalSent : t.finalSent = s.finalSent) (finalReleased : t.finalReleased = s.finalReleased) :
    Balances flow k t :=
  ⟨by rw [pending]; exact balance.bytes, by rw [send]; exact balance.enabled,
    by rw [send]; exact balance.credit, by rw [finalReleased]; exact balance.finals,
    by rw [finalSent]; exact balance.ended, by rw [headersSent]; exact balance.reply⟩

theorem release (balance : Balances flow k s) (cleared : s.finalReleased → s.pending = [])
    (begun : s.pending ≠ [] → s.headersSent)
    (ends : Ends (s.finalSent && !s.finalReleased) (s.pending.map (·.final))) :
    Balances flow { k with released := k.released ++ s.release.2 } s.release.1 := by
  have payload : Ledger.payload { k with released := k.released ++ s.release.2 } =
      k.payload ++ Chunk.join (s.send.release s.pending).released := by
    simp [Ledger.payload, Stream.release, List.flatMap_map, Outgoing.payload, Chunk.join]
  refine ⟨?_, ?_, ?_, ?_, balance.ended, ?_⟩
  · rw [payload, List.append_assoc]
    exact (congrArg (k.payload ++ ·) (s.send.join_release s.pending)).trans balance.bytes
  · exact (s.send.enabled_release s.pending).trans balance.enabled
  · obtain ⟨window, opened, paid⟩ := balance.credit
    refine ⟨window, opened, fun on => ?_⟩
    have before := paid on
    have now := s.send.credit_release s.pending (balance.enabled.trans on)
    rw [payload, List.length_append]
    simp only [Stream.release]
    omega
  -- Released chunks and those that stay have the same ends in the same order.
  · have whole := s.send.ends_release s.pending ends
    rw [List.map_append] at whole
    have first := whole.split.1
    have finals : Ledger.finals { k with released := k.released ++ s.release.2 } =
        k.finals ++ (s.send.release s.pending).released.map (·.final) := by
      simp [Ledger.finals, Stream.release, Outgoing.final]
    rw [finals]
    cases done : s.finalReleased with
    | false =>
      have before := balance.finals
      rw [done] at before
      simpa [Stream.release, done, Function.comp_def] using before.append first
    | true => simpa [Stream.release, cleared done, done] using done ▸ balance.finals
  · refine balance.reply.append (fun some => begun fun none => some ?_) s.isData_release
    simp [Stream.release, none]

theorem grant (balance : Balances flow k s) (increment : Nat) :
    Balances flow { k with granted := k.granted + increment }
      { s with send := { s.send with credit := s.send.credit + increment } } := by
  refine ⟨balance.bytes, balance.enabled, ?_, balance.finals, balance.ended, balance.reply⟩
  obtain ⟨window, opened, paid⟩ := balance.credit
  refine ⟨window, opened, fun on => ?_⟩
  have before := paid on
  change s.send.credit + increment + k.payload.length = window + (k.granted + increment)
  omega

theorem withData (balance : Balances flow k s) (unended : s.finalSent = false) (bytes : Bytes) (final : Bool)
    (limit : Nat) :
    Balances flow { k with sent := k.sent ++ bytes, ended := k.ended || final }
      (s.withData bytes final limit) := by
  have open_ : k.ended = false := balance.ended.symm.trans unended
  refine ⟨?_, balance.enabled, balance.credit, balance.finals, by simp [Stream.withData, open_],
    balance.reply⟩
  have added : Chunk.join (s.withData bytes final limit).pending = Chunk.join s.pending ++ bytes := by
    simp [Stream.withData, Stream.join_chunksOf, Stream.flatten_piecesOf]
  rw [added, ← List.append_assoc]
  exact congrArg (· ++ bytes) balance.bytes

theorem sendHeaders {list : List Header} {final : Bool} {frames : List Outgoing} (balance : Balances flow k s)
    (unreleased : s.finalReleased = false) (sent : s.sendHeaders list final = .ok (t, frames)) :
    Balances flow { k with ended := k.ended || final, released := k.released ++ frames } t := by
  obtain ⟨-, unended, unbegun, rfl, rfl⟩ := Stream.of_sendHeaders sent
  have open_ : k.ended = false := balance.ended.symm.trans unended
  let frame : Outgoing := .headers s.id list final none
  let after : Ledger := { k with ended := k.ended || final, released := k.released ++ [frame] }
  have payload : after.payload = k.payload := by simp [after, frame, Ledger.payload, Outgoing.payload]
  change Balances flow after _
  refine ⟨by rw [payload]; exact balance.bytes, balance.enabled, by rw [payload]; exact balance.credit, ?_,
    by simp [after, open_], ?_⟩
  · have before := balance.finals
    rw [unreleased] at before
    have last : Ends final [final] := by cases final <;> simp [Ends]
    simpa [after, frame, Ledger.finals, Outgoing.final, unreleased] using before.append last
  · have before := balance.reply
    rw [unbegun] at before
    cases unreplied : k.released with
    | nil => simp [after, unreplied, Replies, frame, Outgoing.opensReply]
    | cons f rest => simp [unreplied, Replies] at before

/-! ### What has gone out -/

/-- What has gone out is what was sent, as far as the credit reaches. -/
theorem payload_eq (balance : Balances flow k s) (well : s.WellFormed) :
    ∃ window, k.window = some window ∧
      k.payload = if flow then k.sent.take (window + k.granted) else k.sent := by
  obtain ⟨window, opened, paid⟩ := balance.credit
  refine ⟨window, opened, ?_⟩
  have bytes := balance.bytes
  cases waits : s.pending with
  | nil =>
    rw [waits, Chunk.join_nil, List.append_nil] at bytes
    split
    · next on =>
      rw [← bytes, List.take_of_length_le (by have := paid on; omega)]
    · exact bytes
  | cons c rest =>
    obtain ⟨on, spent, -⟩ := well.held c rest waits
    rw [balance.enabled] at on
    have length : k.payload.length = window + k.granted := by
      have := paid on
      omega
    rw [if_pos on, ← bytes, ← length, List.take_left]

/-- The end has gone out if and only if the reply was ended and all of it has gone out. -/
theorem finalReleased_iff (balance : Balances flow k s) (well : s.WellFormed) (going : s.aborted = false) :
    s.finalReleased ↔ k.ended ∧ k.payload = k.sent := by
  have bytes := balance.bytes
  constructor
  · intro done
    obtain ⟨sent, nothing⟩ := well.released done
    rw [nothing, Chunk.join_nil, List.append_nil] at bytes
    exact ⟨balance.ended ▸ sent, bytes⟩
  · rintro ⟨ended, whole⟩
    have none : Chunk.join s.pending = [] := by
      rw [whole] at bytes
      exact List.append_right_eq_self.mp bytes
    have nothing : s.pending = [] := by
      cases waits : s.pending with
      | nil => rfl
      | cons c rest =>
        rw [waits, Chunk.join_cons] at none
        exact absurd (List.append_eq_nil_iff.mp none).1 (well.held c rest waits).2.2
    have ends := well.ends going
    rw [nothing, balance.ended, ended] at ends
    simpa [Ends] using ends

end Balances

end Ledger

end Multiplex
