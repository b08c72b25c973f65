import Multiplex.Proofs.Stream.Ledger

/-! # What goes out on a stream

The frames of one stream go out in an order that its peer can follow (`Proper`): a reply is headers and then
data, little may follow its end, and nothing a reset. Frames that are no part of the reply may be put between
the others as long as the stream is not reset. -/

namespace Multiplex

namespace Outgoing

def isReset : Outgoing → Bool
  | .frame (.reset ..) => true
  | _ => false

/-- Whether a frame may follow the end of a reply. -/
def isLoose : Outgoing → Bool
  | .frame (.windowUpdate ..) | .frame (.settings ..) | .frame (.ping ..) | .frame (.goAway ..) => true
  | _ => false

/-- Whether a frame waits as the session makes it: header blocks are encoded when they are written. -/
def isPlain : Outgoing → Bool
  | .frame (.headers ..) | .frame (.pushPromise ..) => false
  | _ => true

theorem isMessage_of_final {f : Outgoing} (final : f.final) : f.isMessage := by
  cases f with
  | frame frame => cases frame <;> first | rfl | cases final
  | headers => rfl
  | pushPromise => cases final

end Outgoing

theorem Replies.take {begun : Bool} {front back : List Outgoing} (reply : Replies begun (front ++ back)) :
    ∃ begun, Replies begun front := by
  cases front with
  | nil => exact ⟨false, rfl⟩
  | cons f rest =>
    obtain ⟨going, opens, data⟩ := reply
    exact ⟨begun, going, opens, fun g member => data g (List.mem_append_left back member)⟩

theorem Ends.pairwise {ended : Bool} {frames : List Outgoing} (ends : Ends ended (frames.map (·.final))) :
    frames.Pairwise fun f _ => f.final = false := by
  induction frames with
  | nil => exact .nil
  | cons f rest ih =>
    cases final : f.final with
    | false => exact List.pairwise_cons.mpr ⟨fun _ _ => final, ih (by simpa [Ends, final] using ends)⟩
    | true =>
      obtain ⟨-, rfl⟩ : ended = true ∧ rest = [] := by simpa [Ends, final] using ends
      exact List.pairwise_singleton ..

/-- A line of frames on one stream that a peer can follow. -/
structure Proper (line : List Outgoing) : Prop where
  plain : ∀ f ∈ line, f.isPlain
  reply : ∃ begun, Replies begun (line.filter (·.isMessage))
  ended : line.Pairwise fun f g => f.final → g.isLoose
  silent : line.Pairwise fun f _ => f.isReset = false

namespace Proper
variable {front back : List Outgoing} {f : Outgoing}

theorem nil : Proper [] := ⟨nofun, ⟨false, rfl⟩, .nil, .nil⟩

/-- What is cut off a line leaves it proper. -/
theorem take (proper : Proper (front ++ back)) : Proper front where
  plain f member := proper.plain f (List.mem_append_left back member)
  reply := by
    obtain ⟨begun, reply⟩ := proper.reply
    rw [List.filter_append] at reply
    exact reply.take
  ended := (List.pairwise_append.mp proper.ended).1
  silent := (List.pairwise_append.mp proper.silent).1

/-- A frame that is no part of the reply may be put anywhere, unless the stream is reset. -/
theorem insert (proper : Proper (front ++ back)) (plain : f.isPlain) (other : f.isMessage = false)
    (quiet : f.isReset = false) (going : ∀ g ∈ front ++ back, g.isReset = false)
    (unended : ∀ g ∈ front, g.final → f.isLoose) : Proper (front ++ f :: back) where
  plain g member := by
    rcases List.mem_append.mp member with early | late
    · exact proper.plain g (List.mem_append_left back early)
    · rcases List.mem_cons.mp late with rfl | late
      · exact plain
      · exact proper.plain g (List.mem_append_right front late)
  reply := by
    obtain ⟨begun, reply⟩ := proper.reply
    refine ⟨begun, ?_⟩
    rwa [List.filter_append, List.filter_cons_of_neg (by simp [other]), ← List.filter_append]
  ended := by
    obtain ⟨first, second, across⟩ := List.pairwise_append.mp proper.ended
    -- What is inserted is no part of the reply, so it ends none.
    have unfinal : f.final = false := Bool.eq_false_iff.mpr fun final =>
      Bool.eq_false_iff.mp other (Outgoing.isMessage_of_final final)
    refine List.pairwise_append.mpr ⟨first, List.pairwise_cons.mpr ⟨fun _ _ final => ?_, second⟩, ?_⟩
    · exact absurd final (Bool.eq_false_iff.mp unfinal)
    · intro g early h member
      rcases List.mem_cons.mp member with rfl | late
      · exact unended g early
      · exact across g early h late
  silent := by
    have pairs : (front ++ f :: back).Pairwise fun g _ => g.isReset = false := by
      refine List.pairwise_of_forall_mem_list fun g member _ _ => ?_
      rcases List.mem_append.mp member with early | late
      · exact going g (List.mem_append_left back early)
      · rcases List.mem_cons.mp late with rfl | late
        · exact quiet
        · exact going g (List.mem_append_right front late)
    exact pairs

theorem append (proper : Proper front) (going : ∀ g ∈ front, g.isReset = false) (unended : ∀ g ∈ front, g.final = false)
    (plain : ∀ g ∈ back, g.isPlain) (reply : ∃ begun, Replies begun ((front ++ back).filter (·.isMessage)))
    (ended : back.Pairwise fun f _ => f.final = false) (silent : back.Pairwise fun f _ => f.isReset = false) :
    Proper (front ++ back) where
  plain g member := (List.mem_append.mp member).elim (proper.plain g) (plain g)
  reply := reply
  ended := by
    refine List.pairwise_append.mpr ⟨proper.ended, ?_, fun g early _ _ final => ?_⟩
    · exact ended.imp fun unfinal final => absurd final (Bool.eq_false_iff.mp unfinal)
    · exact absurd final (Bool.eq_false_iff.mp (unended g early))
  silent := List.pairwise_append.mpr ⟨proper.silent, silent, fun g early _ _ => going g early⟩

end Proper

end Multiplex
