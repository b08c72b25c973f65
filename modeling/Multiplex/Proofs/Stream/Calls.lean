import Mathlib.Logic.Relation
import Multiplex.Proofs.Stream.WellFormed

/-! # The life of a stream

The session and the handles on a stream call it in whatever order they come to it (`Call`). After any calls
its flags, what its window holds back and the window itself fit together (`Calls.consistent`), and no call takes back
a flag (`Calls.ages`). -/

namespace Multiplex.Stream

open Relation (ReflTransGen)

/-- One call on a stream that goes through. The first five are those of the session, the others those of handles. -/
inductive Call : Stream → Stream → Prop
  | tookHeaders (s : Stream) (list : List Header) (final : Bool) : Call s (s.acceptHeaders list final)
  | tookData {s t : Stream} {bytes : Bytes} {final : Bool} (fits : s.acceptData bytes final = .ok t) : Call s t
  | granted {s t : Stream} {increment : Nat} {frames : List Outgoing} (fits : s.grant increment = .ok (t, frames)) :
      Call s t
  | aborted (s : Stream) : Call s s.abort
  | reset (s : Stream) (code : ErrorCode) : Call s (s.reset code).1
  | read (s : Stream) : Call s s.read.1
  | sentHeaders {s t : Stream} {list : List Header} {final : Bool} {frames : List Outgoing}
      (allowed : s.sendHeaders list final = .ok (t, frames)) : Call s t
  | sentData {s t : Stream} {bytes : Bytes} {final : Bool} {limit : Nat} {frames : List Outgoing}
      (allowed : s.sendData bytes final limit = .ok (t, frames)) : Call s t
  /-- The stream lets its handler promise the peer another one. -/
  | promised {s : Stream} (going : s.aborted = false) (unended : s.finalSent = false) : Call s s

/-- Calls on a stream, one after the other. -/
def Calls : Stream → Stream → Prop := ReflTransGen Call

/-- The flags of a stream, what its window holds back and the window itself fit together. -/
structure Consistent (s : Stream) : Prop where
  /-- A reply that has gone out was begun and ended, and nothing of it waits. -/
  released : s.finalReleased → s.finalSent ∧ s.headersSent ∧ s.pending = []
  /-- A reply that has ended and not gone out waits with its end, which is its last part and no other. -/
  ending : s.finalSent → s.finalReleased = false → s.aborted = false →
    ∃ early last, s.pending = early ++ [last] ∧ last.final ∧ ∀ c ∈ early, c.final = false
  going : s.finalSent = false → ∀ c ∈ s.pending, c.final = false
  /-- What waits comes behind headers, costs something, and is held by a window without credit. -/
  held : ∀ c rest, s.pending = c :: rest → s.headersSent ∧ s.send.enabled ∧ s.send.credit = 0 ∧ c.bytes ≠ []
  cleared : s.aborted → s.pending = []

variable {s t u : Stream}

/-- The waiting parts of a reply that has ended: the last of them is its end, and no other. -/
theorem WellFormed.pending_eq (well : s.WellFormed) (ended : s.finalSent) (unreleased : s.finalReleased = false)
    (going : s.aborted = false) :
    ∃ early last, s.pending = early ++ [last] ∧ last.final ∧ ∀ c ∈ early, c.final = false := by
  have ends := well.ends going
  rw [ended, unreleased] at ends
  obtain ⟨flags, split, unended⟩ := ends.last
  obtain ⟨early, final, waits, rfl, single⟩ := List.map_eq_append_iff.mp split
  obtain ⟨last, rfl, isFinal⟩ := List.map_eq_singleton_iff.mp single
  exact ⟨early, last, waits, isFinal, fun c member => unended _ (List.mem_map_of_mem member)⟩

theorem WellFormed.unended (well : s.WellFormed) (going : s.finalSent = false) : ∀ c ∈ s.pending, c.final = false := by
  cases gone : s.aborted with
  | true => simp [well.cleared gone]
  | false =>
    have ends := well.ends gone
    rw [going] at ends
    simpa using ends.any

theorem WellFormed.consistent (well : s.WellFormed) : s.Consistent where
  released done := by
    obtain ⟨ended, nothing⟩ := well.released done
    exact ⟨ended, well.begun (.inl ended), nothing⟩
  ending := well.pending_eq
  going := well.unended
  held c rest waits := ⟨well.begun (.inr (by simp [waits])), well.held c rest waits⟩
  cleared := well.cleared

/-! ### One call -/

theorem Call.ages (h : Call s t) : Ages s t := by
  cases h with
  | tookHeaders list final => exact (reads_acceptHeaders s list final).ages
  | tookData fits => exact (reads_acceptData fits).ages
  | granted fits => exact ages_grant fits
  | aborted => exact ages_abort s
  | reset code => exact ages_reset s code
  | read => exact (reads_read s).ages
  | sentHeaders allowed => exact ages_sendHeaders allowed
  | sentData allowed => exact ages_sendData allowed
  | promised => exact .refl s

theorem Call.wellFormed (h : Call s t) (well : s.WellFormed) : t.WellFormed := by
  cases h with
  | tookHeaders list final => exact (reads_acceptHeaders s list final).wellFormed well
  | tookData fits => exact (reads_acceptData fits).wellFormed well
  | granted fits => exact well.grant fits
  | aborted => exact well.abort
  | reset code => exact well.reset code
  | read => exact (reads_read s).wellFormed well
  | sentHeaders allowed => exact well.sendHeaders allowed
  | sentData allowed => exact well.sendData allowed
  | promised => exact well

theorem Call.id (h : Call s t) : t.id = s.id := by
  cases h with
  | tookHeaders list final => exact (reads_acceptHeaders s list final).id
  | tookData fits => exact (reads_acceptData fits).id
  | granted fits => exact (acts_grant fits).id
  | aborted => exact (acts_abort s).id
  | reset code => exact (acts_reset s code).id
  | read => exact (reads_read s).id
  | sentHeaders allowed => exact (acts_sendHeaders allowed).id
  | sentData allowed => exact (acts_sendData allowed).id
  | promised => rfl

/-! ### Many calls -/

namespace Calls

theorem ages (h : Calls s t) : Ages s t := by
  induction h with
  | refl => exact .refl s
  | tail _ last ih => exact ih.trans last.ages

theorem wellFormed (h : Calls s t) (well : s.WellFormed) : t.WellFormed := by
  induction h with
  | refl => exact well
  | tail _ last ih => exact last.wellFormed ih

theorem id (h : Calls s t) : t.id = s.id := by
  induction h with
  | refl => rfl
  | tail _ last ih => exact last.id.trans ih

theorem readUpTo (s : Stream) (count : Nat) : Calls s (s.readUpTo count).1 := by
  induction count generalizing s with
  | zero => exact .refl
  | succ count ih =>
    have first : Calls s s.read.1 := .single (.read s)
    unfold Stream.readUpTo
    split
    · next same =>
      rw [same] at first
      exact first
    · next same =>
      rw [same] at first
      exact first.trans (ih _)

/-- A stream that is over stays over. -/
theorem inactive (h : Calls s t) (ended : s.isActive = false) : t.isActive = false :=
  Bool.eq_false_iff.mpr fun active => Bool.eq_false_iff.mp ended (h.ages.active active)

/-- A stream that was new is consistent after any calls. -/
theorem consistent {id parent priority : Nat} {receive : Option ReceiveWindow} {send : SendWindow}
    (h : Calls { id, parent, priority, receive, send } s) : s.Consistent :=
  (h.wellFormed (wellFormed_new id parent priority receive send)).consistent

end Calls

end Multiplex.Stream
