import Multiplex.Proofs.Session.SendPath
import Multiplex.Proofs.Stream.Line

/-! # The line of a lane

The frames that were taken out of the outbox, and behind them those that wait there, are the line of a lane.
It is proper at all times (`Steps.sound`), and while the outbox is open its reply is what the ledger has as
released. -/

namespace Multiplex

/-- The frame that an event takes out of the outbox. -/
def Event.taken? : Event → Option Outgoing
  | .taken f => some f
  | _ => none

/-- Only frames that go into the outbox are entered as released. -/
theorem Ledger.released_note {id : Nat} {k : Ledger} {e : Event} (inner : ∀ f, e ≠ .queued f) :
    (k.note id e).released = k.released := by
  unfold note
  split
  · split <;> rfl
  · split <;> rfl
  · split <;> rfl
  · exact absurd rfl (inner _)
  · rfl

namespace Lane
variable {version : Version} {config : Config} {id : Nat} {l l' : Lane}

/-- What was taken out of the outbox, in order. -/
def taken (l : Lane) : List Outgoing := l.past.filterMap Event.taken?

/-- What was taken out of the outbox and what waits there, in order. -/
def line (l : Lane) : List Outgoing := l.taken ++ l.waiting.map (·.2)

theorem line_note {e : Event} (other : e.taken? = none) : (l.note e).line = l.line := by
  simp [line, taken, note, other]

/-- A frame of the connection's rank is put somewhere in the line. -/
theorem line_queue_split (hopen : l.closed = false) (f : Outgoing) (priority : Nat) :
    ∃ front back, l.line = front ++ back ∧ (l.queue f priority).line = front ++ f :: back := by
  obtain ⟨front, back, waiting, inserted⟩ := Queue.insert_split (f.rank priority) f l.waiting
  refine ⟨l.taken ++ front.map (·.2), back.map (·.2), by simp [line, waiting], ?_⟩
  rw [queue_of_open hopen, line, taken]
  simp [inserted, taken, Event.taken?]

theorem line_queue_last (hopen : l.closed = false) {f : Outgoing} {priority : Nat}
    (behind : ∀ e ∈ l.waiting, e.1 ≤ f.rank priority) : (l.queue f priority).line = l.line ++ [f] := by
  rw [queue_of_open hopen, line, taken, Queue.insert_last behind]
  simp [line, taken, Event.taken?]

theorem waiting_queue {f : Outgoing} {priority : Nat} {e : Nat × Outgoing} (member : e ∈ (l.queue f priority).waiting) :
    e = (f.rank priority, f) ∨ e ∈ l.waiting := by
  unfold queue at member
  split at member
  · exact .inr member
  · exact Queue.mem_insert.mp member

/-- Frames of the last rank are put at the end of the line, in order. -/
theorem line_queueAll_last (hopen : l.closed = false) {frames : List Outgoing} {priority rank : Nat}
    (last : ∀ f ∈ frames, f.rank priority = rank) (behind : ∀ e ∈ l.waiting, e.1 ≤ rank) :
    (l.queueAll frames priority).line = l.line ++ frames ∧
      ∀ e ∈ (l.queueAll frames priority).waiting, e.1 ≤ rank := by
  unfold queueAll
  induction frames generalizing l with
  | nil => exact ⟨(List.append_nil _).symm, behind⟩
  | cons f rest ih =>
    obtain ⟨first, others⟩ := List.forall_mem_cons.mp last
    have still : (l.queue f priority).closed = false := by
      rw [queue_rest]
      exact hopen
    have behind' : ∀ e ∈ (l.queue f priority).waiting, e.1 ≤ rank := fun e member =>
      (waiting_queue member).elim (fun new => new ▸ Nat.le_of_eq first) (behind e)
    have one : (l.queue f priority).line = l.line ++ [f] :=
      line_queue_last hopen fun e member => first ▸ behind e member
    obtain ⟨line, ranks⟩ := ih still others behind'
    exact ⟨by rw [List.foldl_cons, line, one, List.append_assoc]; rfl, ranks⟩

/-! ### Proper lines -/

/-- What holds of the line of every lane. -/
structure Voiced (id : Nat) (l : Lane) : Prop where
  proper : Proper l.line
  small : l.stream ≠ none ∨ l.line ≠ [] → id < Frame.idBound
  /-- The connection has no stream, and only frames of its own. -/
  zero : id = 0 → l.stream = none ∧ ∀ f ∈ l.line, f.isLoose
  ranked : ∀ stream, l.stream = some stream → ∀ e ∈ l.waiting, e.1 ≤ 1 + stream.priority
  /-- While the outbox is open, nothing is lost. -/
  order : l.closed = false → l.line.filter (·.isMessage) = (l.ledger id).released
  going : ∀ stream, l.stream = some stream → stream.aborted = false → ∀ f ∈ l.line, f.isReset = false

theorem voiced_empty (id : Nat) : (empty id).Voiced id :=
  ⟨.nil, by simp [empty, line, taken], fun _ => ⟨rfl, nofun⟩, nofun, fun _ => rfl, nofun⟩

/-- What puts no frame into the outbox leaves the line as it was. -/
theorem Voiced.keep (voiced : l.Voiced id) (line : l'.line = l.line) (waiting : ∀ e ∈ l'.waiting, e ∈ l.waiting)
    (closed : l'.closed = l.closed) (released : (l'.ledger id).released = (l.ledger id).released)
    (stream : ∀ t, l'.stream = some t → ∃ s, l.stream = some s ∧ s.priority = t.priority ∧ (s.aborted → t.aborted)) :
    l'.Voiced id where
  proper := line ▸ voiced.proper
  small some := by
    -- The bound on the number is needed only where there is a stream or a frame.
    refine voiced.small (some.imp (fun present none => ?_) fun some => line ▸ some)
    obtain ⟨t, found⟩ := Option.ne_none_iff_exists'.mp present
    obtain ⟨s, old, -, -⟩ := stream t found
    rw [none] at old
    cases old
  zero connection := by
    obtain ⟨none, loose⟩ := voiced.zero connection
    refine ⟨?_, line ▸ loose⟩
    cases found : l'.stream with
    | none => rfl
    | some t =>
      obtain ⟨s, old, -, -⟩ := stream t found
      rw [none] at old
      cases old
  ranked t found e member := by
    obtain ⟨s, old, priority, -⟩ := stream t found
    exact priority ▸ voiced.ranked s old e (waiting e member)
  order hopen := by
    rw [line, released]
    exact voiced.order (closed ▸ hopen)
  going t found unaborted := by
    obtain ⟨s, old, -, aborted⟩ := stream t found
    rw [line]
    exact voiced.going s old (Bool.eq_false_iff.mpr fun gone => Bool.eq_false_iff.mp unaborted (aborted gone))

theorem Voiced.note (voiced : l.Voiced id) {e : Event} (untaken : e.taken? = none) (inner : ∀ f, e ≠ .queued f) :
    (l.note e).Voiced id :=
  voiced.keep (line_note untaken) (fun _ member => member) rfl (by rw [ledger_note, Ledger.released_note inner])
    fun t found => ⟨t, found, rfl, fun gone => gone⟩

/-- What waits when the outbox is closed is dropped. -/
theorem Voiced.close (voiced : l.Voiced id) (line : l'.line <+: l.line) (waiting : l'.waiting = []) (closed : l'.closed)
    (stream : ∀ t, l'.stream = some t → ∃ s, l.stream = some s ∧ (s.aborted → t.aborted)) : l'.Voiced id where
  proper := by
    -- A front of a proper line is proper.
    obtain ⟨dropped, whole⟩ := line
    exact (whole ▸ voiced.proper).take
  small some := by
    refine voiced.small (some.imp (fun present none => ?_) fun some none => ?_)
    · obtain ⟨t, found⟩ := Option.ne_none_iff_exists'.mp present
      obtain ⟨s, old, -⟩ := stream t found
      rw [none] at old
      cases old
    · exact some (List.prefix_nil.mp (none ▸ line))
  zero connection := by
    obtain ⟨none, loose⟩ := voiced.zero connection
    refine ⟨?_, fun f member => loose f (line.subset member)⟩
    cases found : l'.stream with
    | none => rfl
    | some t =>
      obtain ⟨s, old, -⟩ := stream t found
      rw [none] at old
      cases old
  ranked t found e member := by
    rw [waiting] at member
    cases member
  order hopen := absurd closed (Bool.eq_false_iff.mp hopen)
  going t found alive f member := by
    obtain ⟨s, old, aborted⟩ := stream t found
    refine voiced.going s old (Bool.eq_false_iff.mpr fun gone => ?_) f (line.subset member)
    exact Bool.eq_false_iff.mp alive (aborted gone)

/-- A frame that is no part of the reply is put somewhere in the line. -/
theorem Voiced.loose (voiced : l.Voiced id) {f : Outgoing} (plain : f.isPlain) (other : f.isMessage = false)
    (quiet : f.isReset = false) (first : f.isConnectionLevel) (small : id < Frame.idBound)
    (connection : id = 0 → f.isLoose) (going : ∀ g ∈ l.line, g.isReset = false)
    (unended : l.closed = false → ∀ g ∈ l.line, g.final → f.isLoose) (priority : Nat) : (l.queue f priority).Voiced id := by
  cases hopen : l.closed with
  | true =>
    rw [queue, if_pos hopen]
    exact voiced
  | false =>
    -- The frame may go ahead of all that waits, so nothing is known of where it splits the line.
    obtain ⟨front, back, split, line⟩ := line_queue_split hopen f priority
    have rest := l.queue_rest f priority
    have stream : (l.queue f priority).stream = l.stream := by rw [rest]
    have members {g : Outgoing} (member : g ∈ (l.queue f priority).line) : g = f ∨ g ∈ l.line := by
      rw [line] at member
      rw [split]
      rcases List.mem_append.mp member with early | late
      · exact .inr (List.mem_append_left back early)
      · exact (List.mem_cons.mp late).imp_right (List.mem_append_right front)
    have proper := voiced.proper
    rw [split] at proper going
    refine ⟨?_, fun _ => small, fun zero => ⟨?_, fun g member => ?_⟩, fun t found e member => ?_, fun _ => ?_,
      fun t found unaborted g member => ?_⟩
    · rw [line]
      exact proper.insert plain other quiet going fun g early =>
        unended hopen g (split ▸ List.mem_append_left back early)
    · rw [stream]
      exact (voiced.zero zero).1
    · exact (members member).elim (fun same => same ▸ connection zero) ((voiced.zero zero).2 g)
    · rcases waiting_queue member with rfl | old
      · simp [Outgoing.rank, first]
      · exact voiced.ranked t (stream ▸ found) e old
    · rw [line, ledger_queue_other other, ← voiced.order hopen, split, List.filter_append, List.filter_append,
        List.filter_cons_of_neg (by simp [other])]
    · exact (members member).elim (fun same => same ▸ quiet) (voiced.going t (stream ▸ found) unaborted g)

/-- A stream that is not reset may grant its peer what was read. -/
theorem Voiced.updates (voiced : l.Voiced id) {stream : Stream} (found : l.stream = some stream)
    {frames : List Outgoing} (unaborted : frames ≠ [] → stream.aborted = false) {i : Nat}
    (updates : ∀ f ∈ frames, ∃ increment, f = .frame (.windowUpdate i increment)) (priority : Nat) :
    (l.queueAll frames priority).Voiced id := by
  unfold queueAll
  -- The frames go in one after another, and each leaves the stream as it is for the next.
  induction frames generalizing l with
  | nil => exact voiced
  | cons f rest ih =>
    obtain ⟨⟨increment, rfl⟩, others⟩ := List.forall_mem_cons.mp updates
    have alive := unaborted nofun
    have small := voiced.small (.inl (by simp [found]))
    have first := voiced.loose (f := .frame (.windowUpdate i increment)) rfl rfl rfl rfl small (fun _ => rfl)
      (voiced.going stream found alive) (fun _ _ _ _ => rfl) priority
    have still : (l.queue (.frame (.windowUpdate i increment)) priority).stream = some stream := by
      rw [queue_rest]
      exact found
    exact ih first still (fun _ => alive) others

/-- While the end of a reply has not gone out, no frame ends it. -/
theorem Voiced.unended (voiced : l.Voiced id) (hopen : l.closed = false) (finals : Ends false (l.ledger id).finals) :
    ∀ f ∈ l.line, f.final = false := by
  intro f member
  refine Bool.eq_false_iff.mpr fun final => ?_
  have entered : f ∈ (l.ledger id).released :=
    voiced.order hopen ▸ List.mem_filter.mpr ⟨member, Outgoing.isMessage_of_final final⟩
  exact Bool.eq_false_iff.mp (Ledger.unended finals f entered) final

theorem Voiced.read (voiced : l.Voiced id) {stream stream' : Stream} (found : l.stream = some stream)
    (reads : stream.Reads stream') {frames : List Outgoing} (alive : frames ≠ [] → stream.aborted = false)
    (updates : ∀ f ∈ frames, ∃ increment, f = .frame (.windowUpdate stream.id increment)) :
    (l.put stream' frames).Voiced id := by
  have rest := reads.rest
  have kept : ({ l with stream := some stream' } : Lane).Voiced id := by
    refine voiced.keep rfl (fun _ member => member) rfl rfl fun t same => ?_
    obtain rfl : stream' = t := Option.some.inj same
    exact ⟨stream, found, reads.silent.priority.symm, reads.ages.aborted⟩
  exact kept.updates rfl (by rw [rest]; exact alive) updates stream'.priority

/-- A stream that goes on may go on with its reply. -/
theorem Voiced.speak (voiced : l.Voiced id) (hopen : l.closed = false) {stream stream' : Stream}
    (found : l.stream = some stream) (own : stream.id = id) (active : stream.isActive)
    (before : Ends false (l.ledger id).finals) {frames : List Outgoing} (acts : stream.Acts stream' frames)
    (speech : ∀ f ∈ frames, f.isData ∨ f.opensReply)
    {begun ended : Bool} (after : Replies begun ((l.put stream' frames).ledger id).released ∧
      Ends ended ((l.put stream' frames).ledger id).finals) : (l.put stream' frames).Voiced id := by
  obtain ⟨unreleased, unaborted⟩ := Stream.isActive_iff.mp active
  have kinds (f : Outgoing) (member : f ∈ frames) :
      f.isMessage ∧ f.isPlain ∧ f.isReset = false ∧ f.isConnectionLevel = false := by
    have speaks := speech f member
    cases f with
    | frame frame => cases frame <;> simp_all [Outgoing.isData, Outgoing.opensReply, Outgoing.isMessage,
        Outgoing.isPlain, Outgoing.isReset, Outgoing.isConnectionLevel]
    | headers => exact ⟨rfl, rfl, rfl, rfl⟩
    | pushPromise => simp [Outgoing.isData, Outgoing.opensReply] at speaks
  -- What waits on the lane has at most the rank of the reply, so the reply goes behind it.
  obtain ⟨line, ranks⟩ : (l.put stream' frames).line = l.line ++ frames ∧
      ∀ e ∈ (l.put stream' frames).waiting, e.1 ≤ 1 + stream'.priority := by
    refine line_queueAll_last (l := { l with stream := some stream' }) hopen (fun f member => ?_) fun e member => ?_
    · simp [Outgoing.rank, (kinds f member).2.2.2]
    · exact acts.priority ▸ voiced.ranked stream found e member
  have released : ((l.put stream' frames).ledger id) = { l.ledger id with released := (l.ledger id).released ++ frames } :=
    ledger_put_message hopen (fun f member => (acts.own f member).trans own) fun f member => (kinds f member).1
  have reply : (l.line ++ frames).filter (·.isMessage) = ((l.put stream' frames).ledger id).released := by
    rw [released, List.filter_append, voiced.order hopen, List.filter_eq_self.mpr fun f member => (kinds f member).1]
  have ends := after.2
  rw [released, Ledger.finals, List.map_append] at ends
  have going (f : Outgoing) (member : f ∈ l.line ++ frames) : f.isReset = false :=
    (List.mem_append.mp member).elim (voiced.going stream found unaborted f) fun new => (kinds f new).2.2.1
  have present : l.stream ≠ none := by simp [found]
  refine ⟨?_, fun _ => voiced.small (.inl present), fun zero => absurd (voiced.zero zero).1 present, fun t same => ?_,
    fun _ => line ▸ reply, fun _ _ _ => line ▸ going⟩
  · rw [line]
    exact voiced.proper.append (voiced.going stream found unaborted) (voiced.unended hopen before) (fun f member => (kinds f member).2.1)
      ⟨_, reply ▸ after.1⟩ ends.split.2.1.pairwise
      (List.pairwise_of_forall_mem_list fun f member _ _ => (kinds f member).2.2.1)
  · obtain rfl := Option.some.inj ((stream_put ..).symm.trans same)
    exact ranks

theorem Voiced.reset (voiced : l.Voiced id) (hopen : l.closed = false) {stream : Stream}
    (found : l.stream = some stream) (active : stream.isActive) (before : Ends false (l.ledger id).finals)
    (code : ErrorCode) : (l.put stream.abort [.frame (.reset stream.id code)]).Voiced id := by
  obtain ⟨unreleased, unaborted⟩ := Stream.isActive_iff.mp active
  let f : Outgoing := .frame (.reset stream.id code)
  have priority : stream.abort.priority = stream.priority := (Stream.acts_abort stream).priority
  obtain ⟨line, ranks⟩ : (l.put stream.abort [f]).line = l.line ++ [f] ∧
      ∀ e ∈ (l.put stream.abort [f]).waiting, e.1 ≤ 1 + stream.abort.priority := by
    refine line_queueAll_last (l := { l with stream := some stream.abort }) hopen (fun g member => ?_) fun e member => ?_
    · exact List.mem_singleton.mp member ▸ rfl
    · exact priority ▸ voiced.ranked stream found e member
  have present : l.stream ≠ none := by simp [found]
  refine ⟨?_, fun _ => voiced.small (.inl present), fun zero => absurd (voiced.zero zero).1 present, fun t same => ?_,
    fun _ => ?_, fun t same alive => ?_⟩
  · obtain ⟨begun, reply⟩ := voiced.proper.reply
    rw [line]
    refine voiced.proper.append (voiced.going stream found unaborted) (voiced.unended hopen before)
      (fun g member => List.mem_singleton.mp member ▸ rfl) ⟨begun, ?_⟩ (List.pairwise_singleton ..)
      (List.pairwise_singleton ..)
    rwa [List.filter_append, List.filter_cons_of_neg (by simp [f, Outgoing.isMessage]), List.filter_nil, List.append_nil]
  · obtain rfl := Option.some.inj ((stream_put ..).symm.trans same)
    exact ranks
  · rw [line, ledger_put_other fun g member => List.mem_singleton.mp member ▸ rfl, ← voiced.order hopen,
      List.filter_append, List.filter_cons_of_neg (by simp [f, Outgoing.isMessage]), List.filter_nil, List.append_nil]
  · obtain rfl := Option.some.inj ((stream_put ..).symm.trans same)
    simp [Stream.abort, unaborted] at alive

theorem line_of_blank (blank : l.Blank) : l.line = [] := by
  have none : l.taken = [] := by
    refine List.filterMap_eq_nil_iff.mpr fun e member => ?_
    have quiet := blank.past e member
    cases e with
    | taken => cases quiet
    | _ => rfl
  rw [line, none, blank.waiting]
  rfl

theorem Voiced.refuse (voiced : l.Voiced id) (blank : l.Blank) (proper : id ≠ 0) (small : id < Frame.idBound)
    (priority : Nat) : (l.queue (.frame (.reset id ErrorCode.refusedStream)) priority).Voiced id := by
  let f : Outgoing := .frame (.reset id ErrorCode.refusedStream)
  cases hopen : l.closed with
  | true =>
    rw [queue, if_pos hopen]
    exact voiced
  | false =>
    have line : (l.queue f priority).line = [f] := by
      rw [line_queue_last hopen (by simp [blank.waiting]), line_of_blank blank]
      rfl
    have stream : (l.queue f priority).stream = none := by
      rw [queue_rest]
      exact blank.stream
    refine ⟨?_, fun _ => small, fun zero => absurd zero proper, fun t found => ?_, fun _ => ?_, fun t found => ?_⟩
    · rw [line]
      exact ⟨fun g member => List.mem_singleton.mp member ▸ rfl, ⟨false, rfl⟩, List.pairwise_singleton ..,
        List.pairwise_singleton ..⟩
    · rw [stream] at found
      cases found
    · rw [line, ledger_queue_other rfl, ← voiced.order hopen, line_of_blank blank]
      rfl
    · rw [stream] at found
      cases found

/-- A stream is opened before anything goes out on it. -/
theorem voiced_opened (small : id < Frame.idBound) (proper : id ≠ 0)
    (line : l'.line = []) (waiting : l'.waiting = []) (released : (l'.ledger id).released = []) : l'.Voiced id where
  proper := line ▸ .nil
  small _ := small
  zero connection := absurd connection proper
  ranked t found e member := by
    rw [waiting] at member
    cases member
  order _ := by
    rw [line, released]
    rfl
  going t found alive f member := by
    rw [line] at member
    cases member

/-- Every step keeps the line of an orderly and balanced lane proper. -/
theorem Step.voiced (h : Step version config id l l') (orderly : l.Orderly id) (balanced : l.Balanced version id)
    (voiced : l.Voiced id) : l'.Voiced id := by
  have balanced' := h.balanced orderly balanced
  have finals {stream : Stream} (found : l.stream = some stream) (active : stream.isActive) :
      Ends false (l.ledger id).finals := by
    obtain ⟨unreleased, aborted⟩ := Stream.isActive_iff.mp active
    exact unreleased ▸ (balanced stream found (.inl aborted)).finals
  have same (t : Stream) (found : l.stream = some t) :
      ∃ s, l.stream = some s ∧ s.priority = t.priority ∧ (s.aborted → t.aborted) := ⟨t, found, rfl, fun gone => gone⟩
  have aged {stream stream' : Stream} (found : l.stream = some stream) (priority : stream'.priority = stream.priority)
      (ages : stream.Ages stream') (t : Stream) (found' : some stream' = some t) :
      ∃ s, l.stream = some s ∧ s.priority = t.priority ∧ (s.aborted → t.aborted) :=
    ⟨stream, found, Option.some.inj found' ▸ priority.symm, Option.some.inj found' ▸ ages.aborted⟩
  have hopen {stream : Stream} (found : l.stream = some stream) (active : stream.isActive) : l.closed = false :=
    Bool.eq_false_iff.mpr fun shut => absurd active (by simp [orderly.closed shut stream found])
  cases h with
  | @noted e about quiet =>
    have untaken : e.taken? = none := by
      cases e with
      | taken => cases quiet
      | _ => rfl
    exact voiced.keep (line_note untaken) (fun _ member => member) rfl (by rw [ledger_note, Ledger.note_quiet quiet]) same
  | outdated | left | pruned => exact voiced.keep rfl (fun _ member => member) rfl rfl same
  -- On the lane of the connection all frames are loose, so one more may go anywhere.
  | @announced f zero used kind =>
    have loose : f.isLoose ∧ f.isPlain ∧ f.isMessage = false ∧ f.isReset = false ∧ f.isConnectionLevel := by
      cases f with
      | frame frame => cases frame <;> first | exact ⟨rfl, rfl, rfl, rfl, rfl⟩ | cases kind
      | headers | pushPromise => cases kind
    obtain ⟨loose, plain, other, quiet, first⟩ := loose
    have going (g : Outgoing) (member : g ∈ l.line) : g.isReset = false := by
      have loose := (voiced.zero zero).2 g member
      cases g with
      | frame frame => cases frame <;> first | rfl | cases loose
      | headers | pushPromise => rfl
    exact voiced.loose plain other quiet first (zero ▸ by decide) (fun _ => loose) going (fun _ _ _ _ => loose) 0
  | refused fresh proper small priority =>
    have kept : ({ l with fresh := false } : Lane).Voiced id :=
      voiced.keep rfl (fun _ member => member) rfl rfl same
    have blank := orderly.blank fresh
    exact kept.refuse ⟨blank.stream, blank.window, blank.waiting, blank.past⟩ proper small priority
  | @promised stream found aborted unended unpushed child list =>
    have present : l.stream ≠ none := by simp [found]
    have unreleased := (orderly.well stream found).unreleased unended
    refine voiced.loose rfl rfl rfl rfl (voiced.small (.inl present)) (fun zero => absurd (voiced.zero zero).1 present)
      (voiced.going stream found aborted) (fun hopen f member final => ?_) _
    have none := voiced.unended hopen (unreleased ▸ (balanced stream found (.inl aborted)).finals) f member
    exact absurd final (Bool.eq_false_iff.mp none)
  | @opened fresh hopen staying proper small parent priority window bounded list final whole =>
    have line := line_of_blank (orderly.blank fresh)
    obtain ⟨taken, waiting⟩ := List.append_eq_nil_iff.mp line
    refine voiced_opened small proper ?_ (by simpa using waiting) ?_
    · simpa [Lane.line, Lane.taken, Event.taken?, waiting] using taken
    · have rest := (Stream.reads_acceptHeaders (Stream.new version config window id parent priority) list final).rest
      exact (balanced' _ rfl (.inl (by rw [rest]; rfl))).reply.unbegun (by rw [rest]; rfl)
  | @trailed stream found active going list =>
    have reads := Stream.reads_acceptHeaders stream list true
    exact voiced.keep (line_note rfl) (fun _ member => member) rfl (by rw [ledger_note]; rfl)
      (aged found reads.silent.priority reads.ages)
  | received found active going fits =>
    have reads := Stream.reads_acceptData fits
    exact voiced.keep (line_note rfl) (fun _ member => member) rfl (by rw [ledger_note]; rfl)
      (aged found reads.silent.priority reads.ages)
  -- The grant may release DATA that waited: the reply goes on where it stopped.
  | @granted stream stream' frames found active increment positive fits =>
    have kept : (l.note (.granted id increment)).Voiced id :=
      voiced.keep (line_note rfl) (fun _ member => member) rfl (by rw [ledger_note, Ledger.note_granted]) same
    obtain ⟨unreleased, aborted⟩ := Stream.isActive_iff.mp active
    have acts := Stream.acts_grant fits
    obtain ⟨-, release⟩ := Stream.of_grant aborted fits
    obtain ⟨rfl, rfl⟩ := Prod.mk.inj release
    have balance := balanced' _ (stream_put ..) (.inl aborted)
    refine kept.speak (hopen found active) found (orderly.own stream found) active ?_ acts
      (fun f member => .inl (Stream.isData_release _ f member)) ⟨balance.reply, balance.finals⟩
    rw [ledger_note, Ledger.note_granted]
    exact finals found active
  | @reset stream found code =>
    unfold Stream.reset
    split
    · next active => exact voiced.reset (hopen found active) found active (finals found active) code
    · exact voiced.keep rfl (fun _ member => member) rfl rfl (aged found rfl (.refl stream))
  | @hungUp stream found =>
    exact voiced.keep rfl (fun _ member => member) rfl rfl
      (aged found (Stream.acts_abort stream).priority (Stream.ages_abort stream))
  | @read stream found index step =>
    have voiced := voiced.read found (Stream.reads_read stream) (Stream.alive_read stream) (Stream.frames_read stream)
    exact voiced.note rfl (by simp)
  | @readAll stream found index =>
    have voiced := voiced.read found (Stream.reads_readUpTo stream.input.length stream)
      (Stream.alive_readUpTo stream.input.length stream) (Stream.frames_readUpTo stream.input.length stream)
    exact voiced.note rfl (by simp)
  | @sentHeaders stream stream' frames found index list final allowed =>
    have acts := Stream.acts_sendHeaders allowed
    obtain ⟨aborted, unended, -, rfl, rfl⟩ := Stream.of_sendHeaders allowed
    have active := Stream.isActive_iff.mpr ⟨(orderly.well stream found).unreleased unended, aborted⟩
    have balance := balanced' _ (stream_put ..) (.inl aborted)
    rw [ledger_note, Ledger.note_headers] at balance
    have voiced := voiced.speak (hopen found active) found (orderly.own stream found) active (finals found active) acts
      (by simp [Outgoing.opensReply]) ⟨balance.reply, balance.finals⟩
    exact voiced.note rfl (by simp)
  | @sentData stream stream' frames found index bytes final limit allowed =>
    have acts := Stream.acts_sendData allowed
    obtain ⟨aborted, unended, -, release⟩ := Stream.of_sendData allowed
    obtain ⟨rfl, rfl⟩ := Prod.mk.inj release
    have active := Stream.isActive_iff.mpr ⟨(orderly.well stream found).unreleased unended, aborted⟩
    have balance := balanced' _ (stream_put ..) (.inl aborted)
    rw [ledger_note, Ledger.note_data] at balance
    have voiced := voiced.speak (hopen found active) found (orderly.own stream found) active (finals found active) acts
      (fun f member => .inl (Stream.isData_release _ f member)) ⟨balance.reply, balance.finals⟩
    exact voiced.note rfl (by simp)
  | @cancelled closed =>
    have kept : (l.note (.cancelled id)).ledger id = l.ledger id := ledger_note ..
    have line : (l.note (.cancelled id)).line = l.line := line_note rfl
    refine voiced.keep line (fun _ member => member) rfl (congrArg Ledger.released kept) fun t found => ?_
    obtain ⟨stream, old, rfl⟩ := Option.map_eq_some_iff.mp found
    exact aged old (Stream.acts_abort stream).priority (Stream.ages_abort stream) _ rfl
  | @taken rank f rest next =>
    refine voiced.keep ?_ (fun e member => next ▸ List.mem_cons_of_mem _ member) rfl (by rw [ledger_note]; rfl) same
    simp [line, Lane.taken, note, next, Event.taken?]
  -- What waits is dropped, so the line is cut off where the taken frames end.
  | closed =>
    refine voiced.close ⟨l.waiting.map (·.2), ?_⟩ rfl rfl fun t found => ?_
    · simp [line, Lane.taken]
    · split at found
      · obtain ⟨s, old, rfl⟩ := Option.map_eq_some_iff.mp found
        exact ⟨s, old, (Stream.ages_abort s).aborted⟩
      · exact ⟨t, found, fun gone => gone⟩

/-- What every chain of steps from an empty lane leaves true of it. -/
structure Sound (version : Version) (id : Nat) (l : Lane) : Prop where
  orderly : l.Orderly id
  balanced : l.Balanced version id
  voiced : l.Voiced id

theorem sound_empty (id : Nat) : (empty id).Sound version id := ⟨orderly_empty id, nofun, voiced_empty id⟩

theorem Step.sound (h : Step version config id l l') (sound : l.Sound version id) : l'.Sound version id :=
  ⟨h.orderly sound.orderly, h.balanced sound.orderly sound.balanced,
    h.voiced sound.orderly sound.balanced sound.voiced⟩

theorem Steps.sound (h : Steps version config id l l') (sound : l.Sound version id) : l'.Sound version id :=
  h.keeps sound fun _ last => last.sound

end Lane

namespace Session

theorem sound_start {version : Version} {config : Config} {handlers : Handlers} {schedule : Schedule}
    {transport : Transport} {t : Session} (h : Reaches (start version config handlers schedule transport) t) (id : Nat) :
    (t.lane id).Sound version id := (steps_start h id).sound (Lane.sound_empty id)

end Session

end Multiplex
