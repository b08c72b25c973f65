import Multiplex.Proofs.Stream.Grammar

/-! # Marks on the wire

A PUSH_PROMISE frame names the stream that it promises, and a SETTINGS frame says whether it acknowledges those of the
peer (`marked_wire`). What is seen before the first wire frame of a frame is what is seen of the frames before it
(`split_seen`). -/

namespace Multiplex

open Multiplex.Frame (Kind)

/-- The stream that a frame promises. -/
def Outgoing.promised? : Outgoing → Option Nat
  | .pushPromise _ promised _ => some promised
  | _ => none

/-- Whether a frame acknowledges SETTINGS. -/
def Outgoing.isAck : Outgoing → Bool
  | .frame (.settings ack _) => ack
  | _ => false

theorem Outgoing.isConnectionLevel_of_isAck {f : Outgoing} (ack : f.isAck) : f.isConnectionLevel := by
  cases f with
  | frame frame => cases frame <;> first | rfl | cases ack
  | headers | pushPromise => cases ack

/-- The stream that a PUSH_PROMISE frame with some payload promises. -/
def Frame.promisedBy (payload : Bytes) : Nat := WireHeader.low31 (Bytes.toNat (payload.take 4))

/-- Whether a wire frame acknowledges SETTINGS. -/
def WireHeader.acknowledges (h : WireHeader) : Bool := h.kind == Kind.settings.code && h.isAck

theorem Frame.Kind.eq_of_code {a b : Kind} (same : a.code = b.code) : a = b :=
  Option.some.inj ((Kind.ofCode?_code a).symm.trans (same ▸ Kind.ofCode?_code b))

/-- How acknowledgements and promises are seen: just the wire frames of acknowledgements acknowledge, and the wire frame
    of a promise names the stream that is promised. -/
structure Outgoing.Marked (f : Outgoing) (frames : List (WireHeader × Bytes)) : Prop where
  acks : frames.countP (·.1.acknowledges) = if f.isAck then 1 else 0
  promise : ∀ promised, f.promised? = some promised → promised < Frame.idBound →
    frames.head?.map (Frame.promisedBy ·.2) = some promised

namespace Outgoing
variable {f : Outgoing}

theorem Seen.acknowledges {first : WireHeader × Bytes} {rest : List (WireHeader × Bytes)} (seen : f.Seen first rest)
    (other : f.kind ≠ Kind.settings) : (first :: rest).countP (·.1.acknowledges) = 0 := by
  refine List.countP_eq_zero.mpr (List.forall_mem_cons.mpr ⟨?_, fun c member => ?_⟩)
  · have code : f.kind.code ≠ Kind.settings.code := mt Kind.eq_of_code other
    simp [WireHeader.acknowledges, seen.kind, code]
  · simp [WireHeader.acknowledges, (seen.later c member).1, Kind.code]

/-- Acknowledgements are frames of the connection. -/
theorem countP_isAck (list : List Outgoing) :
    list.countP (·.isAck) = (list.filter (·.isConnectionLevel)).countP (·.isAck) := by
  rw [List.countP_filter]
  refine List.countP_congr fun f _ => ?_
  simpa using fun ack => isConnectionLevel_of_isAck ack

theorem eq_pushPromise (plain : f.isPlain) (code : f.kind.code = Kind.pushPromise.code) :
    ∃ parent promised list, f = .pushPromise parent promised list := by
  cases f with
  | pushPromise parent promised list => exact ⟨parent, promised, list, rfl⟩
  | headers => simp [kind, Kind.code] at code
  | frame frame =>
    cases frame with
    | pushPromise => cases plain
    | _ => simp [kind, Kind.code] at code

theorem marked_settings (limit : Nat) (table : Hpack.Table) (ack : Bool) (params : List Setting) :
    (frame (.settings ack params)).Marked (((frame (.settings ack params)).wire limit table).2.filterMap Frame.seen?) := by
  have single (flags : UInt8) (payload : Bytes) (acks : Flag.isSet Flag.ack flags = ack)
      (wire : ((frame (.settings ack params)).wire limit table).2 = [Frame.wireFrame .settings flags 0 payload]) :
      (frame (.settings ack params)).Marked
        (((frame (.settings ack params)).wire limit table).2.filterMap Frame.seen?) := by
    obtain ⟨length, read⟩ := Frame.seen?_wireFrame .settings flags (show 0 < 2 ^ 31 by decide) payload
    rw [wire, List.filterMap_cons_some read, List.filterMap_nil]
    refine ⟨?_, nofun⟩
    rw [List.countP_singleton, WireHeader.acknowledges, WireHeader.isAck, acks, isAck]
    rfl
  cases ack with
  | true => exact single Flag.ack [] (by decide) rfl
  | false => exact single 0 _ (by decide) rfl

/-- The first wire frame of a promise has room for the number of the stream, however it is cut. -/
theorem promisedBy_wire (limit : Nat) (table : Hpack.Table) {stream promised : Nat} (small : stream < Frame.idBound)
    (narrow : promised < Frame.idBound) (list : List Header) :
    (((pushPromise stream promised list).wire limit table).2.filterMap Frame.seen?).head?.map (Frame.promisedBy ·.2) =
      some promised := by
  let lead := Bytes.ofNat 4 (WireHeader.low31 promised)
  let block := (Header.encodeBlock table list).2
  let left := block.drop (Frame.room lead limit)
  obtain ⟨length, read⟩ := Frame.seen?_wireFrame .pushPromise (Frame.blockFlags 0 left.isEmpty) small
    (lead ++ block.take (Frame.room lead limit))
  have wire : ((pushPromise stream promised list).wire limit table).2 =
      Frame.wireFrame .pushPromise (Frame.blockFlags 0 left.isEmpty) stream
          (lead ++ block.take (Frame.room lead limit)) ::
        Frame.continuations stream (Bytes.pieces (max limit (lead.length + 1)) left) :=
    Frame.blockFrames_eq ..
  have four : (lead ++ block.take (Frame.room lead limit)).take 4 = lead := List.take_left' (Bytes.length_ofNat 4 _)
  rw [wire, List.filterMap_cons_some read, List.head?_cons, Option.map_some, Frame.promisedBy, four]
  exact congrArg some (Frame.toNat_low31 narrow)

theorem marked_wire (limit : Nat) (table : Hpack.Table) (plain : f.isPlain) (small : f.stream < Frame.idBound) :
    f.Marked ((f.wire limit table).2.filterMap Frame.seen?) := by
  obtain ⟨first, rest, frames, seen⟩ := seen_wire limit table plain small
  have acks (other : f.kind ≠ Kind.settings) (silent : f.isAck = false) :
      ((f.wire limit table).2.filterMap Frame.seen?).countP (·.1.acknowledges) = if f.isAck then 1 else 0 := by
    rw [frames, seen.acknowledges other, silent]
    rfl
  cases f with
  | frame frame =>
    cases frame with
    | settings ack params => exact marked_settings limit table ack params
    | headers | pushPromise => cases plain
    | _ => exact ⟨acks nofun rfl, nofun⟩
  | headers => exact ⟨acks nofun rfl, nofun⟩
  | pushPromise stream promised list =>
    refine ⟨acks nofun rfl, fun id same narrow => ?_⟩
    obtain rfl : promised = id := Option.some.inj same
    exact promisedBy_wire limit table small narrow list

end Outgoing

/-! ### What is seen before a frame -/

/-- A front of two lists ends in the first of them or in the second. -/
theorem prefix_concat_append {α : Type} {front head tail : List α} {last : α} (early : front ++ [last] <+: head ++ tail) :
    front ++ [last] <+: head ∨ ∃ middle, front = head ++ middle ∧ middle ++ [last] <+: tail := by
  rcases List.prefix_or_prefix_of_prefix early (List.prefix_append head tail) with before | beyond
  · exact .inl before
  rcases List.prefix_concat_iff.mp beyond with whole | ⟨middle, rfl⟩
  · exact .inl (whole ▸ List.prefix_refl _)
  · rw [List.append_assoc] at early
    exact .inr ⟨middle, rfl, (List.prefix_append_right_inj head).mp early⟩

section Sent
variable {sent : List (Outgoing × List Bytes)} {front : List (WireHeader × Bytes)} {w : WireHeader × Bytes}

/-- What is seen before the first wire frame of a frame is what is seen of the frames before it. -/
theorem split_seen (seen : ∀ e ∈ sent, e.1.SeenAs (e.2.filterMap Frame.seen?)) (early : front ++ [w] <+: seenOf sent)
    (leads : w.1.kind ≠ Kind.continuation.code) :
    ∃ before e, before ++ [e] <+: sent ∧ front = seenOf before ∧ (e.2.filterMap Frame.seen?).head? = some w := by
  induction sent generalizing front with
  | nil => simpa using List.prefix_nil.mp early
  | cons e others ih =>
    obtain ⟨⟨first, rest, frames, one⟩, seen⟩ := List.forall_mem_cons.mp seen
    rw [seenOf_cons, frames] at early
    rcases prefix_concat_append early with inside | ⟨middle, rfl, later⟩
    · cases front with
      | nil =>
        obtain ⟨rfl, -⟩ := List.cons_prefix_cons.mp inside
        exact ⟨[], e, ⟨others, rfl⟩, rfl, by rw [frames]; rfl⟩
      | cons a front =>
        have within : w ∈ rest :=
          (List.cons_prefix_cons.mp inside).2.subset (List.mem_append_right front (List.mem_singleton_self w))
        exact absurd (one.later w within).1 leads
    · obtain ⟨before, e', early', rfl, head⟩ := ih seen later
      refine ⟨e :: before, e', List.cons_prefix_cons.mpr ⟨rfl, early'⟩, ?_, head⟩
      rw [seenOf_cons, frames]

/-- A wire frame comes from a frame: it is of its stream, and of its kind unless it goes on with its header block. -/
theorem mem_seenOf (seen : ∀ e ∈ sent, e.1.SeenAs (e.2.filterMap Frame.seen?)) (member : w ∈ seenOf sent) :
    ∃ e ∈ sent, w.1.stream = e.1.stream ∧ (w.1.kind = e.1.kind.code ∨ w.1.kind = Kind.continuation.code) := by
  rw [seenOf, List.filterMap_flatMap] at member
  obtain ⟨e, inside, frame⟩ := List.mem_flatMap.mp member
  obtain ⟨first, rest, frames, one⟩ := seen e inside
  rw [frames] at frame
  rcases List.mem_cons.mp frame with rfl | later
  · exact ⟨e, inside, one.stream, .inl one.kind⟩
  · exact ⟨e, inside, (one.later w later).2, .inr (one.later w later).1⟩

theorem countP_acknowledges (marked : ∀ e ∈ sent, e.1.Marked (e.2.filterMap Frame.seen?)) :
    (seenOf sent).countP (·.1.acknowledges) = (sent.map (·.1)).countP (·.isAck) := by
  induction sent with
  | nil => rfl
  | cons e others ih =>
    obtain ⟨first, rest⟩ := List.forall_mem_cons.mp marked
    rw [seenOf_cons, List.countP_append, ih rest, first.acks, List.map_cons, List.countP_cons, Nat.add_comm]

end Sent

end Multiplex
