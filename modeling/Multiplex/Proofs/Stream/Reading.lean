import Multiplex.Proofs.Stream.WellFormed

/-! # Reading a stream

What the peer says on a stream is a message (`Message`). It waits in the stream part by part, and a read takes the
first part that waits. What concerns the reply alone leaves the message as it is (`Hears`). -/

namespace Multiplex

/-! ### Messages -/

/-- Whether a part of a message is data. -/
def Inbound.isData : Inbound → Bool
  | .data .. => true
  | .headers .. => false

/-- What a peer says on a stream: headers, data behind them, and perhaps headers again that end it. At most the
    last part is final, and it is if the message has ended. -/
structure Message (ended : Bool) (parts : List Inbound) : Prop where
  shape : ∃ list final body trailers, parts = .headers list final :: (body ++ trailers) ∧
    (∀ part ∈ body, part.isData) ∧ (trailers = [] ∨ ∃ list, trailers = [.headers list true])
  ends : Ends ended (parts.map (·.final))

namespace Message
variable {ended : Bool} {parts : List Inbound}

theorem opening (list : List Header) (final : Bool) : Message final [.headers list final] :=
  ⟨⟨list, final, [], [], rfl, nofun, .inl rfl⟩, by cases final <;> simp [Ends, Inbound.final]⟩

/-- A message has ended once one of its parts is final. -/
theorem ended_iff (message : Message ended parts) : ended ↔ ∃ part ∈ parts, part.final := by
  have any := message.ends.any
  rw [List.any_map] at any
  rw [← any]
  exact List.any_eq_true

/-- A message that goes on has no trailers. -/
theorem untrailed (message : Message false parts) :
    ∃ list body, parts = .headers list false :: body ∧ ∀ part ∈ body, part.isData := by
  obtain ⟨list, final, body, trailers, rfl, data, trailed⟩ := message.shape
  have unended : ∀ part ∈ (.headers list final :: (body ++ trailers) : List Inbound), part.final = false := fun part member =>
    Bool.eq_false_iff.mpr fun final => nomatch message.ended_iff.mpr ⟨part, member, final⟩
  obtain rfl : final = false := unended _ List.mem_cons_self
  rcases trailed with rfl | ⟨other, rfl⟩
  · exact ⟨list, body, by rw [List.append_nil], data⟩
  · nomatch unended (.headers other true) (by simp)

theorem data (message : Message false parts) (bytes : Bytes) (final : Bool) :
    Message final (parts ++ [.data bytes final]) where
  shape := by
    obtain ⟨list, body, rfl, data⟩ := message.untrailed
    refine ⟨list, false, body ++ [.data bytes final], [], by simp, fun part member => ?_, .inl rfl⟩
    rcases List.mem_append.mp member with before | last
    · exact data part before
    · exact List.mem_singleton.mp last ▸ rfl
  ends := by
    have last : Ends final [final] := by cases final <;> simp [Ends]
    rw [List.map_append]
    exact message.ends.append last

theorem trailers (message : Message false parts) (list : List Header) :
    Message true (parts ++ [.headers list true]) where
  shape := by
    obtain ⟨first, body, rfl, data⟩ := message.untrailed
    exact ⟨first, false, body, [.headers list true], rfl, data, .inr ⟨list, rfl⟩⟩
  ends := by
    rw [List.map_append]
    exact message.ends.append (by simp [Ends, Inbound.final])

end Message

namespace Stream
variable {s t u : Stream}

/-! ### What the peer says -/

/-- The message of the peer is the same in `t` as in `s`, and so is what it belongs to. -/
structure Hears (s t : Stream) : Prop where
  input : t.input = s.input
  peerClosed : t.peerClosed = s.peerClosed
  parent : t.parent = s.parent
  priority : t.priority = s.priority

theorem Hears.refl (s : Stream) : Hears s s := ⟨rfl, rfl, rfl, rfl⟩

theorem hears_abort (s : Stream) : Hears s s.abort := by
  unfold abort
  split <;> exact ⟨rfl, rfl, rfl, rfl⟩

theorem hears_reset (s : Stream) (code : ErrorCode) : Hears s (s.reset code).1 := by
  unfold reset
  split
  · exact hears_abort s
  · exact .refl s

theorem hears_grant {increment : Nat} {frames : List Outgoing} (granted : s.grant increment = .ok (t, frames)) :
    Hears s t := by
  unfold Stream.grant at granted
  split at granted
  · cases granted
    exact .refl s
  · split at granted <;> cases granted
    exact ⟨rfl, rfl, rfl, rfl⟩

theorem hears_sendHeaders {list : List Header} {final : Bool} {frames : List Outgoing}
    (sent : s.sendHeaders list final = .ok (t, frames)) : Hears s t := by
  obtain ⟨-, -, -, rfl, -⟩ := of_sendHeaders sent
  exact ⟨rfl, rfl, rfl, rfl⟩

theorem hears_sendData {bytes : Bytes} {final : Bool} {limit : Nat} {frames : List Outgoing}
    (sent : s.sendData bytes final limit = .ok (t, frames)) : Hears s t := by
  obtain ⟨-, -, -, same⟩ := of_sendData sent
  obtain ⟨rfl, -⟩ := Prod.mk.inj same
  exact ⟨rfl, rfl, rfl, rfl⟩

theorem hears_grantBack (s : Stream) (length : Nat) : Hears s (s.grantBack length).1 := by
  unfold grantBack
  split <;> exact ⟨rfl, rfl, rfl, rfl⟩

theorem acceptHeaders_of_going (going : s.aborted = false) (list : List Header) (final : Bool) :
    s.acceptHeaders list final =
      { s with peerClosed := s.peerClosed || final, input := s.input ++ [.headers list final] } :=
  if_neg (by simp [going])

/-- What a stream that goes on accepts as data waits behind what waited. -/
theorem of_acceptData (going : s.aborted = false) {bytes : Bytes} {final : Bool}
    (accepted : s.acceptData bytes final = .ok t) :
    t.input = s.input ++ [.data bytes final] ∧ t.peerClosed = (s.peerClosed || final) := by
  unfold acceptData at accepted
  rw [if_neg (by simp [going])] at accepted
  split at accepted <;> cases accepted
  next charged =>
  unfold charge at charged
  split at charged
  · cases charged
    exact ⟨rfl, rfl⟩
  · split at charged <;> cases charged
    exact ⟨rfl, rfl⟩

/-! ### Reads -/

/-- A stream that was aborted gives nothing. -/
theorem read_of_aborted (gone : s.aborted) : s.read = (s, none, []) := if_pos gone

/-- A read takes the first part that waits, and leaves the others. -/
theorem read_of_going (going : s.aborted = false) :
    s.read.2.1 = s.input.head? ∧ s.read.1.input = s.input.tail := by
  unfold read
  rw [if_neg (by simp [going])]
  split
  · next none => simp [none]
  · next waits => simp [waits]
  · next bytes final rest waits =>
    have same := (hears_grantBack { s with input := rest } bytes.length).input
    exact ⟨by rw [waits]; rfl, by rw [waits]; exact same⟩

/-- What a read gives and what it leaves is what waited. -/
theorem parts_read (s : Stream) : s.read.2.1.toList ++ s.read.1.input = s.input := by
  cases going : s.aborted with
  | true => rw [read_of_aborted going, Option.toList_none, List.nil_append]
  | false =>
    obtain ⟨part, rest⟩ := read_of_going going
    rw [part, rest]
    cases s.input <;> rfl

theorem parts_readUpTo (count : Nat) (s : Stream) : (s.readUpTo count).2.1 ++ (s.readUpTo count).1.input = s.input := by
  induction count generalizing s with
  | zero => rfl
  | succ count ih =>
    have first := parts_read s
    unfold readUpTo
    split
    · next same => rwa [same] at first
    · next t part frames same =>
      rw [same] at first
      exact (congrArg (part :: ·) (ih t)).trans first

theorem peerClosed_read (s : Stream) : s.read.1.peerClosed = s.peerClosed := by
  unfold read
  split
  · rfl
  split
  · rfl
  · rfl
  · next bytes final rest _ => exact (hears_grantBack { s with input := rest } bytes.length).peerClosed

theorem peerClosed_readUpTo (count : Nat) (s : Stream) : (s.readUpTo count).1.peerClosed = s.peerClosed := by
  induction count generalizing s with
  | zero => rfl
  | succ count ih =>
    have first := peerClosed_read s
    unfold readUpTo
    split
    · next same => rwa [same] at first
    · next same =>
      rw [same] at first
      exact (ih _).trans first

/-- A read waits on a stream that goes on, and on which nothing waits and more may come. -/
theorem mustWait_iff : s.mustWait ↔ s.aborted = false ∧ s.input = [] ∧ s.peerClosed = false := by
  simp [mustWait, and_assoc]

end Stream

end Multiplex
