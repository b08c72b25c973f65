import Multiplex.Stream

/-! # What operations leave alone

Whatever happens to a stream, it keeps its identifier, its parent and its priority, and the frames that it
puts into the outbox are its own (`Acts`). What concerns the message of the peer leaves the reply alone
(`Reads`). -/

namespace Multiplex.Stream

/-! ### The message of the peer -/

/-- `t` is `s` but for the message of the peer, and takes nothing in that `s` does not. -/
structure Reads (s t : Stream) : Prop where
  rest : t = { s with input := t.input, peerClosed := t.peerClosed, receive := t.receive }
  closed : s.peerClosed → t.peerClosed

section Reads
variable {s t u : Stream}

theorem Reads.refl (s : Stream) : Reads s s := ⟨rfl, fun closed => closed⟩

theorem Reads.trans (first : Reads s t) (second : Reads t u) : Reads s u :=
  ⟨by rw [second.rest, first.rest], second.closed ∘ first.closed⟩

theorem Reads.id (reads : Reads s t) : t.id = s.id := by rw [reads.rest]

theorem reads_acceptHeaders (s : Stream) (list : List Header) (final : Bool) :
    Reads s (s.acceptHeaders list final) := by
  unfold acceptHeaders
  split
  · exact .refl s
  · exact ⟨rfl, fun closed => by simp [closed]⟩

theorem reads_charge {length : Nat} (charged : s.charge length = .ok t) : Reads s t := by
  unfold charge at charged
  split at charged
  · cases charged
    exact .refl s
  · split at charged <;> cases charged
    exact ⟨rfl, fun closed => closed⟩

theorem reads_acceptData {bytes : Bytes} {final : Bool} (accepted : s.acceptData bytes final = .ok t) :
    Reads s t := by
  unfold acceptData at accepted
  split at accepted
  · cases accepted
    exact .refl s
  · split at accepted <;> cases accepted
    next charged => exact (reads_charge charged).trans ⟨rfl, fun closed => by simp [closed]⟩

theorem reads_grantBack (s : Stream) (length : Nat) : Reads s (s.grantBack length).1 := by
  unfold grantBack
  split
  · exact .refl s
  · exact ⟨rfl, fun closed => closed⟩

theorem reads_read (s : Stream) : Reads s s.read.1 := by
  unfold read
  split
  · exact .refl s
  · split
    · exact .refl s
    · exact ⟨rfl, fun closed => closed⟩
    · next bytes final rest _ =>
      have taken : Reads s { s with input := rest } := ⟨rfl, fun closed => closed⟩
      exact taken.trans (reads_grantBack _ bytes.length)

theorem reads_readUpTo (count : Nat) (s : Stream) : Reads s (s.readUpTo count).1 := by
  induction count generalizing s with
  | zero => exact .refl s
  | succ count ih =>
    have first := reads_read s
    unfold readUpTo
    split
    · next same =>
      rw [same] at first
      exact first
    · next same =>
      rw [same] at first
      exact first.trans (ih _)

end Reads

/-! ### The frames of a stream -/

/-- `s` becomes `t` and puts `frames` into the outbox. -/
structure Acts (s t : Stream) (frames : List Outgoing) : Prop where
  id : t.id = s.id
  parent : t.parent = s.parent
  priority : t.priority = s.priority
  own : ∀ f ∈ frames, f.stream = s.id

section Acts
variable {s t u : Stream} {frames : List Outgoing}

theorem Reads.acts (reads : Reads s t) (own : ∀ f ∈ frames, f.stream = s.id) : Acts s t frames :=
  ⟨reads.id, by rw [reads.rest], by rw [reads.rest], own⟩

theorem Reads.silent (reads : Reads s t) : Acts s t [] := reads.acts nofun

theorem acts_abort (s : Stream) : Acts s s.abort [] := by
  unfold abort
  split <;> exact ⟨rfl, rfl, rfl, nofun⟩

theorem acts_reset (s : Stream) (code : ErrorCode) : Acts s (s.reset code).1 (s.reset code).2 := by
  unfold reset
  split
  · have aborted := acts_abort s
    exact ⟨aborted.id, aborted.parent, aborted.priority, by simp [Outgoing.stream, Frame.stream]⟩
  · exact ⟨rfl, rfl, rfl, nofun⟩

theorem acts_release (s : Stream) : Acts s s.release.1 s.release.2 :=
  ⟨rfl, rfl, rfl, by simp [release, Outgoing.stream, Frame.stream]⟩

theorem acts_grant {increment : Nat} (granted : s.grant increment = .ok (t, frames)) : Acts s t frames := by
  unfold grant at granted
  split at granted
  · cases granted
    exact ⟨rfl, rfl, rfl, nofun⟩
  · split at granted <;> cases granted
    next send _ => exact ⟨rfl, rfl, rfl, (acts_release { s with send }).own⟩

/-- Only window updates answer a read. -/
theorem frames_read (s : Stream) :
    ∀ f ∈ s.read.2.2, ∃ increment, f = .frame (.windowUpdate s.id increment) := by
  unfold read
  split
  · nofun
  · split
    · nofun
    · nofun
    · unfold grantBack
      dsimp only
      split
      · nofun
      · dsimp only
        split
        · nofun
        · simp

theorem frames_readUpTo (count : Nat) (s : Stream) :
    ∀ f ∈ (s.readUpTo count).2.2, ∃ increment, f = .frame (.windowUpdate s.id increment) := by
  induction count generalizing s with
  | zero => nofun
  | succ count ih =>
    have first := reads_read s
    have updates := frames_read s
    unfold readUpTo
    split
    · nofun
    · next t part early same =>
      rw [same] at first updates
      intro f member
      rcases List.mem_append.mp member with front | back
      · exact updates f front
      · have same : t.id = s.id := first.id
        exact same ▸ ih t f back

/-- A read on a stream that was aborted is not answered. -/
theorem alive_read (s : Stream) (answered : s.read.2.2 ≠ []) : s.aborted = false := by
  refine Bool.eq_false_iff.mpr fun aborted => answered ?_
  rw [read, if_pos aborted]

theorem alive_readUpTo (count : Nat) (s : Stream) (answered : (s.readUpTo count).2.2 ≠ []) : s.aborted = false := by
  refine Bool.eq_false_iff.mpr fun aborted => answered ?_
  cases count with
  | zero => rfl
  | succ count => rw [readUpTo, read, if_pos aborted]

theorem acts_read (s : Stream) : Acts s s.read.1 s.read.2.2 :=
  (reads_read s).acts fun f member => by
    obtain ⟨increment, rfl⟩ := frames_read s f member
    rfl

theorem acts_readUpTo (count : Nat) (s : Stream) :
    Acts s (s.readUpTo count).1 (s.readUpTo count).2.2 :=
  (reads_readUpTo count s).acts fun f member => by
    obtain ⟨increment, rfl⟩ := frames_readUpTo count s f member
    rfl

theorem acts_sendHeaders {list : List Header} {final : Bool}
    (sent : s.sendHeaders list final = .ok (t, frames)) : Acts s t frames := by
  unfold sendHeaders at sent
  split at sent
  · cases sent
  split at sent
  · cases sent
  split at sent
  · cases sent
  cases sent
  exact ⟨rfl, rfl, rfl, by simp [Outgoing.stream]⟩

theorem acts_sendData {bytes : Bytes} {final : Bool} {limit : Nat}
    (sent : s.sendData bytes final limit = .ok (t, frames)) : Acts s t frames := by
  unfold sendData at sent
  split at sent
  · cases sent
  split at sent
  · cases sent
  split at sent
  · cases sent
  cases sent
  exact ⟨rfl, rfl, rfl, (acts_release _).own⟩

end Acts

end Multiplex.Stream
