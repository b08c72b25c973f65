import Mathlib.Algebra.BigOperators.Group.List.Basic
import Mathlib.Algebra.GroupWithZero.Nat
import Multiplex.Proofs.Stream.Reading

/-! # The receive window of a stream

Data that arrives takes room from the window, and data that is read gives it back, as far as a window can hold it
(`Repays`). What concerns the reply alone leaves the window and what waits as they are (`Speaks`). -/

namespace Multiplex

/-! ### Amounts -/

/-- How many bytes of data a part of a message brings. -/
def Inbound.size : Inbound → Nat
  | .data bytes _ => bytes.length
  | .headers .. => 0

/-- How many bytes of data parts of a message bring. -/
def volume (parts : List Inbound) : Nat := (parts.map (·.size)).sum

/-- What a frame grants the peer. -/
def Outgoing.increment : Outgoing → Nat
  | .frame (.windowUpdate _ increment) => increment
  | _ => 0

/-- What frames grant the peer. -/
def increments (frames : List Outgoing) : Nat := (frames.map (·.increment)).sum

@[simp] theorem volume_append (front back : List Inbound) : volume (front ++ back) = volume front + volume back := by
  simp [volume]

@[simp] theorem volume_cons (part : Inbound) (rest : List Inbound) : volume (part :: rest) = part.size + volume rest := by
  simp [volume]

@[simp] theorem volume_nil : volume [] = 0 := rfl

@[simp] theorem increments_append (front back : List Outgoing) :
    increments (front ++ back) = increments front + increments back := by
  simp [increments]

@[simp] theorem increments_nil : increments [] = 0 := rfl

namespace Stream
variable {s t u : Stream} {w w' w'' : ReceiveWindow}

/-! ### The reply -/

/-- `t` is `s` but for the reply and its end. -/
def Speaks (s t : Stream) : Prop :=
  t = { s with send := t.send, pending := t.pending, headersSent := t.headersSent, finalSent := t.finalSent,
               finalReleased := t.finalReleased, aborted := t.aborted }

theorem speaks_abort (s : Stream) : Speaks s s.abort := by
  unfold abort
  split <;> rfl

theorem speaks_reset (s : Stream) (code : ErrorCode) : Speaks s (s.reset code).1 := by
  unfold reset
  split
  · exact speaks_abort s
  · rfl

theorem speaks_grant {increment : Nat} {frames : List Outgoing} (granted : s.grant increment = .ok (t, frames)) :
    Speaks s t := by
  unfold Stream.grant at granted
  split at granted
  · cases granted
    rfl
  · split at granted <;> cases granted
    rfl

theorem speaks_sendHeaders {list : List Header} {final : Bool} {frames : List Outgoing}
    (sent : s.sendHeaders list final = .ok (t, frames)) : Speaks s t := by
  obtain ⟨-, -, -, rfl, -⟩ := of_sendHeaders sent
  rfl

theorem speaks_sendData {bytes : Bytes} {final : Bool} {limit : Nat} {frames : List Outgoing}
    (sent : s.sendData bytes final limit = .ok (t, frames)) : Speaks s t := by
  obtain ⟨-, -, -, same⟩ := of_sendData sent
  obtain ⟨rfl, -⟩ := Prod.mk.inj same
  rfl

/-! ### What arrives -/

/-- Data is taken in just if it fits in the window, and takes its room there. -/
theorem acceptData_of_going (going : s.aborted = false) (has : s.receive = some w) (bytes : Bytes) (final : Bool) :
    s.acceptData bytes final =
      if bytes.length ≤ w.room then
        .ok { s with receive := some { room := w.room - bytes.length }, peerClosed := s.peerClosed || final,
                     input := s.input ++ [.data bytes final] }
      else .error (.windowExceeded bytes.length w.room) := by
  unfold acceptData charge ReceiveWindow.charge
  by_cases fits : bytes.length ≤ w.room
  · simp [going, has, fits]
  · simp [going, has, fits]

/-! ### What is read -/

/-- `s` is read from and becomes `t`, its window `w` becomes `w'`, and `frames` go into the outbox. As long as the window
    can hold all that waits, what is read is given back in full, and the peer is told all of it, unless it has ended
    its side. -/
structure Repays (s t : Stream) (w w' : ReceiveWindow) (frames : List Outgoing) : Prop where
  receive : t.receive = some w'
  peerClosed : t.peerClosed = s.peerClosed
  covered : w.room + increments frames ≤ w'.room
  whole : w.room + volume s.input ≤ maxWindow → w'.room + volume t.input = w.room + volume s.input
  told : w.room + volume s.input ≤ maxWindow → s.peerClosed = false → increments frames + volume t.input = volume s.input
  hushed : s.peerClosed → frames = []

theorem Repays.refl (has : s.receive = some w) : Repays s s w w [] :=
  ⟨has, rfl, Nat.le_refl _, fun _ => rfl, fun _ _ => Nat.zero_add _, fun _ => rfl⟩

theorem Repays.trans {frames others : List Outgoing} (first : Repays s t w w' frames) (second : Repays t u w' w'' others) :
    Repays s u w w'' (frames ++ others) where
  receive := second.receive
  peerClosed := second.peerClosed.trans first.peerClosed
  covered := by
    have := first.covered
    have := second.covered
    rw [increments_append]
    omega
  whole fits := (second.whole (first.whole fits ▸ fits)).trans (first.whole fits)
  told fits going := by
    have := first.told fits going
    have := second.told (first.whole fits ▸ fits) (first.peerClosed.trans going)
    rw [increments_append]
    omega
  hushed closed := by rw [first.hushed closed, second.hushed (first.peerClosed.trans closed), List.append_nil]

/-- What is given back is what was read, or what the window has room for. -/
theorem grantBack_of_has (has : s.receive = some w) (length : Nat) :
    s.grantBack length =
      ({ s with receive := some { room := w.room + min length (maxWindow - w.room) } },
        if s.peerClosed || min length (maxWindow - w.room) == 0 then []
        else [.frame (.windowUpdate s.id (min length (maxWindow - w.room)))]) := by
  unfold grantBack ReceiveWindow.grantBack
  rw [has]
  by_cases none : min length (maxWindow - w.room) = 0
  · simp [none]
  · simp [none]

/-- A read that gives nothing does nothing. -/
theorem read_of_nothing (nothing : s.read.2.1 = none) : s.read = (s, none, []) := by
  unfold read at nothing ⊢
  split at nothing
  · next gone => rw [if_pos gone]
  · next going =>
    rw [if_neg going]
    split at nothing <;> first | rfl | cases nothing

theorem repays_read (has : s.receive = some w) : ∃ w', Repays s s.read.1 w w' s.read.2.2 := by
  unfold read
  split
  · exact ⟨w, .refl has⟩
  · next going =>
    split
    · exact ⟨w, .refl has⟩
    · next list final rest waits =>
      exact ⟨w, ⟨has, rfl, Nat.le_refl _, by simp [waits, Inbound.size], by simp [waits, Inbound.size], fun _ => rfl⟩⟩
    · next bytes final rest waits =>
      let front : Stream := { s with input := rest }
      have given := grantBack_of_has (s := front) has bytes.length
      rw [show ({ s with input := rest } : Stream).grantBack bytes.length = front.grantBack bytes.length from rfl, given]
      -- The room grows by what is read, unless that would take it past the largest window.
      have waiting : volume s.input = bytes.length + volume rest := by rw [waits, volume_cons]; rfl
      refine ⟨{ room := w.room + min bytes.length (maxWindow - w.room) }, rfl, rfl, ?_, fun fits => ?_, fun fits going => ?_, ?_⟩
      · dsimp only
        split
        · exact Nat.le_add_right ..
        · exact Nat.le_refl _
      · dsimp only [front]
        omega
      · have all : min bytes.length (maxWindow - w.room) = bytes.length := by omega
        dsimp only [front]
        rw [all, going, Bool.false_or]
        split
        · next none =>
          have none : bytes.length = 0 := by simpa using none
          rw [increments_nil, waiting, none]
        · exact waiting.symm
      · intro closed
        simp [front, closed]

theorem repays_readUpTo (count : Nat) (has : s.receive = some w) :
    ∃ w', Repays s (s.readUpTo count).1 w w' (s.readUpTo count).2.2 := by
  induction count generalizing s w with
  | zero => exact ⟨w, .refl has⟩
  | succ count ih =>
    obtain ⟨w', first⟩ := repays_read has
    unfold readUpTo
    split
    · next t frames same =>
      have nothing := read_of_nothing (by rw [same])
      obtain rfl : t = s := congrArg Prod.fst (same.symm.trans nothing)
      exact ⟨w, .refl has⟩
    · next t part frames same =>
      rw [same] at first
      obtain ⟨w'', later⟩ := ih first.receive
      exact ⟨w'', first.trans later⟩

/-- Every grant is at least one byte, and no more than a window can hold. -/
theorem increment_read (s : Stream) : ∀ f ∈ s.read.2.2, 0 < f.increment ∧ f.increment ≤ maxWindow := by
  unfold read
  split
  · nofun
  split
  · nofun
  · nofun
  · next bytes final rest _ =>
    let front : Stream := { s with input := rest }
    change ∀ f ∈ (front.grantBack bytes.length).2, 0 < f.increment ∧ f.increment ≤ maxWindow
    cases has : s.receive with
    | none =>
      rw [grantBack, show front.receive = none from has]
      nofun
    | some w =>
      rw [grantBack_of_has (show front.receive = some w from has)]
      dsimp only
      split
      · nofun
      · next some =>
        simp only [Bool.or_eq_true, beq_iff_eq, not_or] at some
        refine List.forall_mem_singleton.mpr ⟨Nat.pos_of_ne_zero some.2, ?_⟩
        exact Nat.le_trans (Nat.min_le_right ..) (Nat.sub_le ..)

theorem increment_readUpTo (count : Nat) (s : Stream) :
    ∀ f ∈ (s.readUpTo count).2.2, 0 < f.increment ∧ f.increment ≤ maxWindow := by
  induction count generalizing s with
  | zero => nofun
  | succ count ih =>
    have first := increment_read s
    unfold readUpTo
    split
    · nofun
    · next t part frames same =>
      rw [same] at first
      exact List.forall_mem_append.mpr ⟨first, ih t⟩

end Stream

end Multiplex
