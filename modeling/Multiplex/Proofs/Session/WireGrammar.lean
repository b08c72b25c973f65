import Multiplex.Proofs.Session.Written

/-! # The streams of a session on the wire

Whatever the peer and the handlers do, and however a session ends, what it has written on each stream keeps
to the grammar (`grammar_wire`). -/

namespace Multiplex.Session

open Multiplex.Frame (Kind)

/-- The wire frames that were written on a stream, as they are seen. -/
def wire (s : Session) (id : Nat) : List (WireHeader × Bytes) :=
  (s.written.filterMap Frame.seen?).filter (·.1.stream == id)

variable {s t : Session} {id : Nat}

/-- The frames that events of some kind name, as a lane tells them. -/
theorem filterMap_lane {pick : Event → Option Outgoing} (about : ∀ e f, pick e = some f → e.about = some f.stream)
    (s : Session) (id : Nat) :
    (s.lane id).past.filterMap pick = (s.journal.filterMap pick).filter (·.stream == id) := by
  simp only [Session.lane]
  induction s.journal with
  | nil => rfl
  | cons e rest ih =>
    cases picked : pick e with
    | none =>
      rw [List.filterMap_cons_none picked, ← ih, List.filter_cons]
      split
      · rw [List.filterMap_cons_none picked]
      · rfl
    | some f =>
      rw [List.filterMap_cons_some picked, List.filter_cons, List.filter_cons, about e f picked]
      by_cases same : f.stream = id
      · simp [same, ih, List.filterMap_cons_some picked]
      · simp [same, ih]

theorem lane_taken (s : Session) (id : Nat) : (s.lane id).taken = s.taken.filter (·.stream == id) :=
  filterMap_lane (fun e f taken => by rw [Event.eq_of_taken? taken]; rfl) s id

/-- The wire frames of other streams are left out with their frames. -/
theorem filter_seenOf {sent : List (Outgoing × List Bytes)}
    (seen : ∀ e ∈ sent, e.1.SeenAs (e.2.filterMap Frame.seen?)) (id : Nat) :
    (seenOf sent).filter (·.1.stream == id) = seenOf (sent.filter (·.1.stream == id)) := by
  induction sent with
  | nil => rfl
  | cons e others ih =>
    obtain ⟨⟨first, rest, frames, one⟩, seen⟩ := List.forall_mem_cons.mp seen
    have all (w : WireHeader × Bytes) (member : w ∈ first :: rest) : w.1.stream = e.1.stream :=
      (List.mem_cons.mp member).elim (fun same => same ▸ one.stream) fun later => (one.later w later).2
    rw [seenOf_cons, frames, List.filter_append, ih seen]
    by_cases same : e.1.stream = id
    · have own : (first :: rest).filter (·.1.stream == id) = first :: rest :=
        List.filter_eq_self.mpr fun w member => by simp [all w member, same]
      rw [own, List.filter_cons_of_pos (by simpa using same), seenOf_cons, frames]
    · have other : (first :: rest).filter (·.1.stream == id) = [] :=
        List.filter_eq_nil_iff.mpr fun w member => by simp [all w member, same]
      rw [other, List.filter_cons_of_neg (by simpa using same)]
      rfl

/-- What was taken out of the outbox is plain, and on a stream that a wire frame can name. -/
theorem taken_small {version : Version} (sound : ∀ id, (s.lane id).Sound version id) {f : Outgoing}
    (member : f ∈ s.taken) : f.isPlain ∧ f.stream < Frame.idBound := by
  have own : f ∈ (s.lane f.stream).taken := by
    rw [lane_taken]
    exact List.mem_filter.mpr ⟨member, by simp⟩
  have line : f ∈ (s.lane f.stream).line := List.mem_append_left _ own
  have voiced := (sound f.stream).voiced
  exact ⟨voiced.proper.plain f line, voiced.small (.inr (List.ne_nil_of_mem line))⟩

/-- What is written is what was taken out of the outbox, and can be seen to be. -/
theorem sent_seen {version : Version} (sound : ∀ id, (s.lane id).Sound version id) (writing : s.Writing) :
    ∃ sent : List (Outgoing × List Bytes), sent.map (·.1) = s.opening :: s.taken ∧
      (∀ e ∈ sent, e.1.SeenAs (e.2.filterMap Frame.seen?)) ∧ s.written.filterMap Frame.seen? <+: seenOf sent ∧
      (s.Unbroken → s.written.filterMap Frame.seen? = seenOf sent) := by
  obtain ⟨sent, entered, wires, front, all⟩ := writing.sent
  refine ⟨sent, entered, fun e member => ?_, front.filterMap _, fun whole => by rw [all whole, seenOf]⟩
  obtain ⟨limit, table, wire⟩ := wires e member
  have entry : e.1 ∈ s.opening :: s.taken := entered ▸ List.mem_map_of_mem member
  rw [wire]
  rcases List.mem_cons.mp entry with opening | taken
  · rw [opening]
    exact Outgoing.seen_wire limit table rfl (show 0 < Frame.idBound by decide)
  · obtain ⟨plain, small⟩ := taken_small sound taken
    exact Outgoing.seen_wire limit table plain small

/-- What is seen on a stream is what was taken out of the outbox on it. -/
theorem wire_sent {version : Version} (sound : ∀ id, (s.lane id).Sound version id) (writing : s.Writing)
    (id : Nat) :
    ∃ sent : List (Outgoing × List Bytes), sent.map (·.1) = (s.opening :: s.taken).filter (·.stream == id) ∧
      (∀ e ∈ sent, e.1.SeenAs (e.2.filterMap Frame.seen?)) ∧ s.wire id <+: seenOf sent ∧
      (s.Unbroken → s.wire id = seenOf sent) := by
  obtain ⟨sent, entered, seen, front, all⟩ := sent_seen sound writing
  refine ⟨sent.filter (·.1.stream == id), ?_, fun e member => seen e (List.mem_filter.mp member).1, ?_, fun whole => ?_⟩
  · rw [← entered, List.filter_map]
    rfl
  · rw [← filter_seenOf seen]
    exact front.filter _
  · rw [← filter_seenOf seen, wire, all whole]

/-- The frames on one stream that were taken out of the outbox are a proper line. -/
theorem proper_taken {version : Version} (sound : ∀ id, (s.lane id).Sound version id) (id : Nat) :
    Proper ((s.opening :: s.taken).filter (·.stream == id)) := by
  have voiced := (sound id).voiced
  have proper : Proper (s.lane id).taken := voiced.proper.take
  rw [lane_taken] at proper
  by_cases connection : id = 0
  · subst connection
    rw [List.filter_cons_of_pos rfl]
    refine @Proper.insert [] _ s.opening proper rfl rfl rfl (fun g member => ?_) nofun
    have loose := (voiced.zero rfl).2 g (List.mem_append_left _ (lane_taken s 0 ▸ member))
    cases g with
    | frame frame => cases frame <;> first | rfl | cases loose
    | headers | pushPromise => cases loose
  · have other : s.opening.stream ≠ id := Ne.symm connection
    rw [List.filter_cons_of_neg (by simpa using other)]
    exact proper

variable {version : Version} {config : Config} {handlers : Handlers} {schedule : Schedule} {transport : Transport}

theorem grammar_of_reaches (h : Reaches (start version config handlers schedule transport) t) (id : Nat) :
    Grammar ((t.wire id).map (·.1)) := by
  obtain ⟨sent, entered, seen, front, -⟩ := wire_sent (sound_start h) (writing_start h) id
  have proper : Proper (sent.map (·.1)) := entered ▸ proper_taken (sound_start h) id
  exact (proper.grammar seen).take (front.map _)

/-- At every moment of every session, in whatever order its tasks and the session take their steps and however
    it ends, what has been written on each stream keeps to the grammar: HEADERS and DATA come as one HEADERS
    frame and DATA behind it; at most one frame ends the reply, and no HEADERS, DATA, RST_STREAM or
    PUSH_PROMISE comes after it; at most one RST_STREAM comes, and nothing after it; and no stream gets both. -/
theorem grammar_wire (h : Reaches (start version config handlers schedule transport) t) (id : Nat) :
    let frames := (t.wire id).map (·.1)
    Grammar frames ∧ frames.countP (·.endsReply) ≤ 1 ∧ frames.countP (·.isReset) ≤ 1 ∧
      ¬ (frames.any (·.endsReply) ∧ frames.any (·.isReset)) := by
  intro frames
  have grammar : Grammar frames := grammar_of_reaches h id
  exact ⟨grammar, grammar.endsOnce, grammar.resetOnce, grammar.apart⟩

/-- A session whose peer goes on with a request that it has ended, while the handler has begun its reply. -/
def upset : Session :=
  let request := (Frame.headers 1 [] true none 0).encode 1
  let more := (Frame.data 1 [1] false).encode 1
  start .spdy3 {} { others := [.act (.headers [] false), .yield, .act (.data [1] true)] } .atOnce
    { arrivals := [{ bytes := request ++ more }] }

/-- The stream is reset behind the headers, and its reply does not end. -/
theorem grammar_wire_upset :
    let frames := (upset.runToEnd.wire 1).map (·.1)
    frames.map (·.kind) = [Kind.headers.code, Kind.reset.code] ∧ Grammar frames ∧
      frames.any (·.endsReply) = false := by
  intro frames
  have kinds : frames.map (·.kind) = [Kind.headers.code, Kind.reset.code] := by decide +kernel
  obtain ⟨grammar, -, -, apart⟩ := grammar_wire (reaches_runToEnd upset) 1
  have resets : frames.any (·.isReset) := by decide +kernel
  exact ⟨kinds, grammar, Bool.eq_false_iff.mpr fun ends => apart ⟨ends, resets⟩⟩

end Multiplex.Session
