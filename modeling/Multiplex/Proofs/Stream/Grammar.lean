import Multiplex.Proofs.Stream.OnWire

/-! # The grammar of a stream

On the wire one stream carries a reply, which is HEADERS and then DATA, and may be reset; after the end of
the reply no more of it comes, and no reset, and after a reset nothing (`Grammar`). A proper line of frames
is seen so (`Proper.grammar`), and so is any part of it that was written. -/

namespace Multiplex

open Multiplex.Frame (Kind)

def WireHeader.isReset (h : WireHeader) : Bool := h.kind == Kind.reset.code

/-- The wire frames that may come on one stream, in order. -/
structure Grammar (frames : List WireHeader) : Prop where
  /-- HEADERS and DATA frames are the front of one HEADERS frame and DATA frames behind it. -/
  reply : ∃ count, (frames.filter (·.isReply)).map (·.kind) <+: Kind.headers.code :: List.replicate count Kind.data.code
  /-- After the end of the reply comes no HEADERS, DATA, RST_STREAM or PUSH_PROMISE frame. -/
  ended : frames.Pairwise fun f g => f.endsReply →
    g.kind ∉ [Kind.headers.code, Kind.data.code, Kind.reset.code, Kind.pushPromise.code]
  /-- After a RST_STREAM frame comes nothing. -/
  silent : frames.Pairwise fun f _ => f.isReset = false

namespace Grammar
variable {frames front : List WireHeader}

/-- A part that was written is as good as the whole. -/
theorem take (grammar : Grammar frames) (written : front <+: frames) : Grammar front where
  reply := by
    obtain ⟨count, reply⟩ := grammar.reply
    exact ⟨count, ((written.filter _).map _).trans reply⟩
  ended := grammar.ended.sublist written.sublist
  silent := grammar.silent.sublist written.sublist

/-- What rules itself out afterwards comes at most once. -/
theorem countP_le_one {α : Type} {p : α → Bool} {list : List α} (once : list.Pairwise fun a b => p a → p b = false) :
    list.countP p ≤ 1 := by
  induction list with
  | nil => exact Nat.zero_le 1
  | cons a rest ih =>
    obtain ⟨first, others⟩ := List.pairwise_cons.mp once
    cases holds : p a with
    | false =>
      rw [List.countP_cons_of_neg (by simp [holds])]
      exact ih others
    | true =>
      have none : rest.countP p = 0 := List.countP_eq_zero.mpr fun b member => by simp [first b member holds]
      exact Nat.le_of_eq (by rw [List.countP_cons_of_pos holds, none])

theorem endsOnce (grammar : Grammar frames) : frames.countP (·.endsReply) ≤ 1 := by
  refine countP_le_one (grammar.ended.imp fun barred ends => ?_)
  have other := barred ends
  simp only [List.mem_cons, not_or] at other
  simp [WireHeader.endsReply, WireHeader.isReply, other.1, other.2.1]

theorem resetOnce (grammar : Grammar frames) : frames.countP (·.isReset) ≤ 1 :=
  countP_le_one (grammar.silent.imp fun unreset reset => absurd reset (Bool.eq_false_iff.mp unreset))

theorem apart (grammar : Grammar frames) : ¬ (frames.any (·.endsReply) ∧ frames.any (·.isReset)) := by
  rintro ⟨ends, resets⟩
  obtain ⟨f, early, final⟩ := List.any_eq_true.mp ends
  obtain ⟨g, late, reset⟩ := List.any_eq_true.mp resets
  have kind : g.kind = Kind.reset.code := by simpa [WireHeader.isReset] using reset
  obtain ⟨i, hi, rfl⟩ := List.getElem_of_mem early
  obtain ⟨j, hj, rfl⟩ := List.getElem_of_mem late
  rcases Nat.lt_trichotomy i j with before | rfl | after
  · exact List.pairwise_iff_getElem.mp grammar.ended i j hi hj before final (by simp [kind])
  · simp [WireHeader.endsReply, WireHeader.isReply, kind, Kind.code] at final
  · exact Bool.eq_false_iff.mp (List.pairwise_iff_getElem.mp grammar.silent j i hj hi after) reset

end Grammar

/-! ### Lines on the wire -/

namespace Outgoing
variable {f : Outgoing} {first : WireHeader × Bytes} {rest : List (WireHeader × Bytes)}

/-- The wire frames of a frame, as they are seen. -/
def SeenAs (f : Outgoing) (frames : List (WireHeader × Bytes)) : Prop :=
  ∃ first rest, frames = first :: rest ∧ f.Seen first rest

theorem Seen.isReply (seen : f.Seen first rest) : first.1.isReply = f.isMessage := by
  rw [WireHeader.isReply, seen.kind]
  cases f with
  | frame frame => cases frame <;> rfl
  | headers | pushPromise => rfl

theorem Seen.isReset (seen : f.Seen first rest) : first.1.isReset = f.isReset := by
  rw [WireHeader.isReset, seen.kind]
  cases f with
  | frame frame => cases frame <;> rfl
  | headers | pushPromise => rfl

theorem Seen.later_isReply (seen : f.Seen first rest) : ∀ c ∈ rest, c.1.isReply = false ∧ c.1.endsReply = false ∧
    c.1.isReset = false := by
  intro c member
  simp [WireHeader.endsReply, WireHeader.isReply, WireHeader.isReset, (seen.later c member).1, Kind.code]

theorem hasBlock_of_isReset (reset : f.isReset) : f.hasBlock = false := by
  cases f with
  | frame frame => cases frame <;> first | rfl | cases reset
  | headers | pushPromise => cases reset

section SeenAs
variable {frames : List (WireHeader × Bytes)} {h : WireHeader}

/-- A reply is seen to end where it ends. -/
theorem SeenAs.final (seen : f.SeenAs frames) (member : h ∈ frames.map (·.1)) (ends : h.endsReply) : f.final := by
  obtain ⟨first, rest, rfl, one⟩ := seen
  rcases List.mem_cons.mp member with rfl | later
  · exact one.final ▸ ends
  · obtain ⟨c, part, rfl⟩ := List.mem_map.mp later
    exact absurd ends (by simp [(one.later_isReply c part).2.1])

/-- A frame that may follow the end of a reply is not seen as one that may not. -/
theorem SeenAs.barred (seen : f.SeenAs frames) (loose : f.isLoose) : ∀ h ∈ frames.map (·.1),
    h.kind ∉ [Kind.headers.code, Kind.data.code, Kind.reset.code, Kind.pushPromise.code] := by
  obtain ⟨first, rest, rfl, one⟩ := seen
  intro h member
  rcases List.mem_cons.mp member with rfl | later
  · rw [one.kind]
    cases f with
    | frame frame => cases frame <;> simp_all [Outgoing.isLoose, Outgoing.kind, Kind.code]
    | headers | pushPromise => cases loose
  · obtain ⟨c, part, rfl⟩ := List.mem_map.mp later
    simp [(one.later c part).1, Kind.code]

theorem SeenAs.unreset (seen : f.SeenAs frames) (unreset : f.isReset = false) : ∀ h ∈ frames.map (·.1),
    h.isReset = false := by
  obtain ⟨first, rest, rfl, one⟩ := seen
  intro h member
  rcases List.mem_cons.mp member with rfl | later
  · exact one.isReset.trans unreset
  · obtain ⟨c, part, rfl⟩ := List.mem_map.mp later
    exact (one.later_isReply c part).2.2

end SeenAs

end Outgoing

/-- What is seen of frames that were written. -/
def seenOf (sent : List (Outgoing × List Bytes)) : List (WireHeader × Bytes) :=
  (sent.flatMap (·.2)).filterMap Frame.seen?

theorem seenOf_cons (e : Outgoing × List Bytes) (others : List (Outgoing × List Bytes)) :
    seenOf (e :: others) = e.2.filterMap Frame.seen? ++ seenOf others := by
  rw [seenOf, List.flatMap_cons, List.filterMap_append]
  rfl

section Sent
variable {sent : List (Outgoing × List Bytes)}

/-- Each frame is seen once, and nothing else is seen of its kind. -/
theorem countP_seen {kind : Kind} (leading : kind ≠ .continuation)
    (seen : ∀ e ∈ sent, e.1.SeenAs (e.2.filterMap Frame.seen?)) :
    (seenOf sent).countP (·.1.kind == kind.code) = (sent.map (·.1)).countP (·.kind == kind) := by
  have same (a b : Kind) : (a.code == b.code) = (a == b) := by
    refine Bool.eq_iff_iff.mpr ?_
    rw [beq_iff_eq, beq_iff_eq]
    refine ⟨fun codes => ?_, congrArg Kind.code⟩
    exact Option.some.inj ((Kind.ofCode?_code a).symm.trans (codes ▸ Kind.ofCode?_code b))
  induction sent with
  | nil => rfl
  | cons e others ih =>
    obtain ⟨⟨first, rest, frames, one⟩, seen⟩ := List.forall_mem_cons.mp seen
    have later : rest.countP (·.1.kind == kind.code) = 0 := by
      refine List.countP_eq_zero.mpr fun c member => ?_
      rw [(one.later c member).1, same]
      exact fun other => leading (beq_iff_eq.mp other).symm
    rw [seenOf_cons, frames, List.countP_append, ih seen, List.countP_cons, later, one.kind, same, List.map_cons,
      List.countP_cons]
    omega

/-- The parts of the replies are seen in order, each with its kind and its end. -/
theorem replies_seen (seen : ∀ e ∈ sent, e.1.SeenAs (e.2.filterMap Frame.seen?)) :
    ((seenOf sent).filter (·.1.isReply)).map (fun w => (w.1.kind, w.1.endsReply)) =
      ((sent.map (·.1)).filter (·.isMessage)).map fun f => (f.kind.code, f.final) := by
  induction sent with
  | nil => rfl
  | cons e others ih =>
    obtain ⟨⟨first, rest, frames, one⟩, seen⟩ := List.forall_mem_cons.mp seen
    have later : rest.filter (·.1.isReply) = [] :=
      List.filter_eq_nil_iff.mpr fun c member => by simp [(one.later_isReply c member).1]
    have message := one.isReply
    rw [seenOf_cons, frames, List.filter_append, List.map_append, ih seen, List.map_cons]
    cases part : e.1.isMessage with
    | false =>
      rw [part] at message
      simp [message, part, later]
    | true =>
      rw [part] at message
      simp [message, part, later, one.kind, one.final]

/-- The data of the replies is seen in order. -/
theorem payload_seen (seen : ∀ e ∈ sent, e.1.SeenAs (e.2.filterMap Frame.seen?)) :
    ((seenOf sent).filter (·.1.kind == Kind.data.code)).flatMap (·.2) = (sent.map (·.1)).flatMap (·.payload) := by
  induction sent with
  | nil => rfl
  | cons e others ih =>
    obtain ⟨⟨first, rest, frames, one⟩, seen⟩ := List.forall_mem_cons.mp seen
    have later : rest.filter (·.1.kind == Kind.data.code) = [] :=
      List.filter_eq_nil_iff.mpr fun c member => by simp [(one.later c member).1, Kind.code]
    have data : (first.1.kind == Kind.data.code) = e.1.isData := by
      rw [one.kind]
      cases e.1 with
      | frame frame => cases frame <;> rfl
      | headers | pushPromise => rfl
    rw [seenOf_cons, frames, List.filter_append, List.flatMap_append, ih seen, List.map_cons, List.flatMap_cons]
    cases part : e.1.isData with
    | false =>
      have none : e.1.payload = [] := by
        cases f : e.1 with
        | frame frame => cases frame <;> first | rfl | simp [f, Outgoing.isData] at part
        | headers | pushPromise => rfl
      rw [part] at data
      simp [data, later, none]
    | true =>
      rw [part] at data
      simp [data, later, one.payload part]

theorem kinds_of_replies {begun : Bool} {frames : List Outgoing} (reply : Replies begun frames) :
    ∃ count, frames.map (·.kind.code) <+: Kind.headers.code :: List.replicate count Kind.data.code := by
  cases frames with
  | nil => exact ⟨0, List.nil_prefix⟩
  | cons f rest =>
    obtain ⟨-, opens, data⟩ := reply
    have first : f.kind = .headers := by
      cases f with
      | headers => rfl
      | frame | pushPromise => cases opens
    have others : rest.map (·.kind.code) = List.replicate rest.length Kind.data.code := by
      refine List.eq_replicate_iff.mpr ⟨List.length_map _, fun code member => ?_⟩
      obtain ⟨g, part, rfl⟩ := List.mem_map.mp member
      have carries := data g part
      cases g with
      | frame frame => cases frame <;> first | rfl | cases carries
      | headers | pushPromise => cases carries
    rw [List.map_cons, first, others]
    exact ⟨rest.length, List.prefix_refl _⟩

/-- A proper line is seen as the grammar has it. -/
theorem Proper.grammar (proper : Proper (sent.map (·.1)))
    (seen : ∀ e ∈ sent, e.1.SeenAs (e.2.filterMap Frame.seen?)) : Grammar ((seenOf sent).map (·.1)) := by
  have blocks : (seenOf sent).map (·.1) = sent.flatMap fun e => (e.2.filterMap Frame.seen?).map (·.1) := by
    rw [seenOf, List.filterMap_flatMap, List.map_flatMap]
  refine ⟨?_, ?_, ?_⟩
  · obtain ⟨begun, reply⟩ := proper.reply
    obtain ⟨count, kinds⟩ := kinds_of_replies reply
    refine ⟨count, ?_⟩
    have same := congrArg (List.map Prod.fst) (replies_seen seen)
    rw [List.map_map, List.map_map] at same
    rw [List.filter_map, List.map_map]
    exact same ▸ kinds
  · rw [blocks]
    refine List.pairwise_flatMap.mpr ⟨fun e member => ?_, ?_⟩
    · obtain ⟨first, rest, frames, one⟩ := seen e member
      rw [frames, List.map_cons]
      refine List.pairwise_cons.mpr ⟨fun g later _ => ?_, ?_⟩
      · obtain ⟨c, part, rfl⟩ := List.mem_map.mp later
        simp [(one.later c part).1, Kind.code]
      · refine List.pairwise_of_forall_mem_list fun g later _ _ ends => ?_
        obtain ⟨c, part, rfl⟩ := List.mem_map.mp later
        exact absurd ends (by simp [(one.later_isReply c part).2.1])
    · refine (List.pairwise_map.mp proper.ended).imp_of_mem fun {a b} first second loose => ?_
      intro f front g back ends
      exact (seen b second).barred (loose ((seen a first).final front ends)) g back
  · rw [blocks]
    refine List.pairwise_flatMap.mpr ⟨fun e member => ?_, ?_⟩
    · obtain ⟨first, rest, frames, one⟩ := seen e member
      rw [frames, List.map_cons]
      refine List.pairwise_cons.mpr ⟨fun g later => ?_, ?_⟩
      · rw [one.isReset]
        refine Bool.eq_false_iff.mpr fun reset => ?_
        rw [one.single (by exact Outgoing.hasBlock_of_isReset reset)] at later
        cases later
      · refine List.pairwise_of_forall_mem_list fun g later _ _ => ?_
        obtain ⟨c, part, rfl⟩ := List.mem_map.mp later
        exact (one.later_isReply c part).2.2
    -- RST_STREAM is one wire frame, so what holds between frames holds between their wire frames.
    · refine (List.pairwise_map.mp proper.silent).imp_of_mem fun {a b} first _ unreset => ?_
      intro f front _ _
      exact (seen a first).unreset unreset f front

end Sent

end Multiplex
