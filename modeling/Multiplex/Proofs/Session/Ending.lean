import Mathlib.Data.List.TakeWhile
import Multiplex.Proofs.Session.WireGrammar

/-! # How streams end

A stream that goes on until its session has finished is over because its reply has ended, unless the
session or the peer has reset it before (`Accounted`). And once a reply has ended and gone out, nothing is
added to it (`Delivered`). -/

namespace Multiplex

namespace Event

/-- Whether an event puts the end of the reply on a stream into the outbox. -/
def ends (id : Nat) : Event → Bool
  | .queued f => f.stream == id && f.final
  | _ => false

/-- Whether the session resets a stream. -/
def resets (id : Nat) : Event → Bool
  | .queued (.frame (.reset stream _)) => stream == id
  | _ => false

/-- Whether the peer resets a stream. -/
def hangsUp (id : Nat) : Event → Bool
  | .dispatched (.reset stream _) => stream == id
  | _ => false

end Event

/-- What happens from the opening of a stream to the end of its reply. -/
def lifetime (id : Nat) (journal : List Event) : List Event :=
  (journal.takeWhile (!·.ends id)).dropWhile (!·.opens id)

section Lifetime
variable {id : Nat} {journal front back : List Event}

theorem lifetime_filter (id : Nat) (journal : List Event) :
    lifetime id (journal.filter (·.about == some id)) = (lifetime id journal).filter (·.about == some id) := by
  have ends (e : Event) : (!(e.about == some id) || !e.ends id) = !e.ends id := by
    cases e <;> simp [Event.ends, Event.about]
  have opens (e : Event) : (!(e.about == some id) || !e.opens id) = !e.opens id := by
    cases opened : e.opens id with
    | false => simp
    | true => simp [Event.about_of_opens opened]
  simp only [lifetime, List.takeWhile_filter, List.dropWhile_filter, ends, opens]

theorem lifetime_grows (early : front <+: back) : lifetime id front <+: lifetime id back := by
  have take : front.takeWhile (!·.ends id) <+: back.takeWhile (!·.ends id) := by
    obtain ⟨late, rfl⟩ := early
    rw [List.takeWhile_append]
    split
    · next all =>
      rw [show front.takeWhile (!·.ends id) = front from (List.takeWhile_prefix _).eq_of_length all]
      exact List.prefix_append _ _
    · exact List.prefix_refl _
  obtain ⟨late, same⟩ := take
  rw [lifetime, lifetime, ← same, List.dropWhile_append]
  split
  · next none =>
    rw [List.isEmpty_iff.mp none]
    exact List.nil_prefix
  · exact List.prefix_append _ _

/-- What happens to a stream that is open and has not ended belongs to its lifetime. -/
theorem mem_lifetime {e : Event} (opened : front.any (·.opens id)) (going : ∀ e ∈ front, e.ends id = false)
    (other : e.ends id = false) : e ∈ lifetime id (front ++ [e]) := by
  have take : (front ++ [e]).takeWhile (!·.ends id) = front ++ [e] := by
    rw [List.takeWhile_append_of_pos (by simpa using going)]
    simp [other]
  have some : (front.dropWhile (!·.opens id)).isEmpty = false := by
    refine Bool.eq_false_iff.mpr fun none => ?_
    obtain ⟨first, member, opens⟩ := List.any_eq_true.mp opened
    have dropped := List.dropWhile_eq_nil_iff.mp (List.isEmpty_iff.mp none) first member
    simp [opens] at dropped
  rw [lifetime, take, List.dropWhile_append, some]
  simp

theorem any_grows {p : Event → Bool} (early : front <+: back) (holds : front.any p) : back.any p := by
  obtain ⟨e, member, here⟩ := List.any_eq_true.mp holds
  exact List.any_eq_true.mpr ⟨e, early.subset member, here⟩

theorem any_filter {p q : Event → Bool} (holds : (journal.filter q).any p) : journal.any p := by
  obtain ⟨e, member, here⟩ := List.any_eq_true.mp holds
  exact List.any_eq_true.mpr ⟨e, (List.mem_filter.mp member).1, here⟩

end Lifetime

theorem Ledger.mem_released {id : Nat} {k : Ledger} {past : List Event} {f : Outgoing} (own : f.stream = id)
    (message : f.isMessage) (queued : .queued f ∈ past ∨ f ∈ k.released) : f ∈ (past.foldl (note id) k).released := by
  induction past generalizing k with
  | nil => exact queued.resolve_left nofun
  | cons e rest ih =>
    refine ih ?_
    by_cases entered : e = .queued f
    · refine .inr ?_
      rw [entered, show k.note id (.queued f) = _ from if_pos ⟨own, message⟩]
      simp
    · rcases queued with here | before
      · exact .inl ((List.mem_cons.mp here).resolve_left (Ne.symm entered))
      · refine .inr ?_
        cases e with
        | queued g =>
          simp only [note]
          split
          · exact List.mem_append_left _ before
          · exact before
        | _ =>
          rw [released_note]
          · exact before
          · nofun

namespace Lane
variable {version : Version} {config : Config} {id : Nat} {l l' : Lane}

/-! ### The past -/

theorem past_queue (l : Lane) (f : Outgoing) (priority : Nat) : l.past <+: (l.queue f priority).past := by
  unfold queue
  split
  · exact List.prefix_refl _
  · exact List.prefix_append _ _

theorem past_put_grows (l : Lane) (stream : Stream) (frames : List Outgoing) : l.past <+: (l.put stream frames).past := by
  cases hopen : l.closed with
  | false =>
    rw [past_put l stream frames hopen]
    exact List.prefix_append _ _
  | true =>
    have same : (l.put stream frames).past = l.past := by rw [put, queueAll_of_closed (by exact hopen)]
    exact same.symm ▸ List.prefix_refl l.past

/-- Nothing is taken out of the past, and a closed outbox stays closed. -/
theorem Step.past (h : Step version config id l l') : l.past <+: l'.past ∧ (l'.closed = false → l.closed = false) := by
  cases h with
  | announced | promised => exact ⟨past_queue _ _ _, by rw [queue_rest]; exact fun same => same⟩
  | refused => exact ⟨past_queue { l with fresh := false } _ _, by rw [queue_rest]; exact fun same => same⟩
  | granted =>
    exact ⟨(List.prefix_append _ _).trans (past_put_grows (l.note _) _ _), by rw [closed_put]; exact fun same => same⟩
  | reset => exact ⟨past_put_grows _ _ _, by rw [closed_put]; exact fun same => same⟩
  | read | readAll | sentHeaders | sentData =>
    exact ⟨(past_put_grows _ _ _).trans (List.prefix_append _ _),
      fun same => (closed_put ..).symm.trans same⟩
  | outdated | left | hungUp | pruned => exact ⟨List.prefix_refl _, fun same => same⟩
  | closed => exact ⟨List.prefix_refl _, nofun⟩
  | noted | opened | trailed | received | cancelled | taken => exact ⟨List.prefix_append _ _, fun same => same⟩

theorem Steps.past (h : Steps version config id l l') : l.past <+: l'.past := by
  induction h with
  | refl => exact List.prefix_refl _
  | tail _ last ih => exact ih.trans last.past.1

/-! ### Streams that are over -/

/-- A stream that was opened is over by an abort only if the session or the peer has reset it, or if its
    reply has ended, as long as the outbox is open. -/
structure Accounted (id : Nat) (l : Lane) : Prop where
  opened : l.stream ≠ none → l.past.any (·.opens id)
  excused : l.closed = false → ∀ stream, l.stream = some stream → stream.aborted → stream.finalReleased = false →
    l.past.any (·.resets id) ∨ (lifetime id l.past).any (·.hangsUp id)

theorem accounted_empty (id : Nat) : (empty id).Accounted id := ⟨fun some => absurd rfl some, nofun⟩

theorem Accounted.keep (accounted : l.Accounted id) (past : l.past <+: l'.past ∧ (l'.closed = false → l.closed = false))
    (stream : ∀ t, l'.stream = some t →
      ∃ s, l.stream = some s ∧ (t.aborted → t.finalReleased = false → s.aborted ∧ s.finalReleased = false)) :
    l'.Accounted id where
  opened present := by
    obtain ⟨t, found⟩ := Option.ne_none_iff_exists'.mp present
    obtain ⟨s, old, -⟩ := stream t found
    exact any_grows past.1 (accounted.opened (by simp [old]))
  excused hopen t found aborted unreleased := by
    obtain ⟨s, old, same⟩ := stream t found
    obtain ⟨gone, before⟩ := same aborted unreleased
    exact (accounted.excused (past.2 hopen) s old gone before).imp (any_grows past.1)
      (any_grows (lifetime_grows past.1))

/-- An operation that neither aborts a stream nor takes its end back. -/
theorem Accounted.aged (accounted : l.Accounted id) (past : l.past <+: l'.past ∧ (l'.closed = false → l.closed = false))
    {stream stream' : Stream} (found : l.stream = some stream) (found' : l'.stream = some stream')
    (ages : stream.Ages stream') (same : stream'.aborted → stream.aborted) : l'.Accounted id := by
  refine accounted.keep past fun t present => ?_
  obtain rfl : stream' = t := Option.some.inj (found'.symm.trans present)
  refine ⟨stream, found, ?_⟩
  intro aborted unreleased
  exact ⟨same aborted, ages.unreleased unreleased⟩

theorem Step.accounted (h : Step version config id l l') (orderly : l.Orderly id) (balanced : l.Balanced version id)
    (accounted : l.Accounted id) : l'.Accounted id := by
  have past := h.past
  have same (t : Stream) (found : l.stream = some t) :
      ∃ s, l.stream = some s ∧ (t.aborted → t.finalReleased = false → s.aborted ∧ s.finalReleased = false) :=
    ⟨t, found, fun aborted unreleased => ⟨aborted, unreleased⟩⟩
  cases h with
  | noted | outdated | left | taken | pruned => exact accounted.keep past same
  | announced | refused | promised =>
    rw [queue_rest] at past ⊢
    exact accounted.keep past same
  | @opened fresh hopen staying proper small parent priority window bounded list final whole =>
    have rest := (Stream.reads_acceptHeaders (Stream.new version config window id parent priority) list final).rest
    refine ⟨fun _ => by simp [Event.opens], fun _ t found aborted => ?_⟩
    rw [← Option.some.inj found, rest] at aborted
    cases aborted
  | @trailed stream found active going list =>
    have reads := Stream.reads_acceptHeaders stream list true
    exact accounted.aged past found rfl reads.ages (by rw [reads.rest]; exact fun gone => gone)
  | received found active going fits =>
    have reads := Stream.reads_acceptData fits
    exact accounted.aged past found rfl reads.ages (by rw [reads.rest]; exact fun gone => gone)
  | @granted stream stream' frames found active increment positive fits =>
    have ages := Stream.ages_grant fits
    obtain ⟨-, aborted⟩ := Stream.isActive_iff.mp active
    obtain ⟨-, release⟩ := Stream.of_grant aborted fits
    obtain ⟨rfl, rfl⟩ := Prod.mk.inj release
    exact accounted.aged past found (stream_put ..) ages fun gone => gone
  | @reset stream found code =>
    by_cases active : stream.isActive
    · simp only [Stream.reset, if_pos active] at past ⊢
      have opened := accounted.opened (by simp [found])
      refine ⟨fun _ => any_grows past.1 opened, fun hopen _ _ _ _ => .inl ?_⟩
      rw [past_put _ _ _ (past.2 hopen)]
      simp [Event.resets, orderly.own stream found]
    · simp only [Stream.reset, if_neg active] at past ⊢
      exact accounted.aged past found rfl (.refl stream) fun gone => gone
  -- The RST_STREAM is the last event, so it excuses the abort unless the stream was over before.
  | @hungUp stream found code heard =>
    have opened := accounted.opened (by simp [found])
    refine ⟨fun _ => opened, fun hopen t present aborted unreleased => ?_⟩
    obtain rfl : stream.abort = t := Option.some.inj present
    have before : stream.finalReleased = false := (Stream.ages_abort stream).unreleased unreleased
    by_cases gone : stream.aborted
    · exact accounted.excused hopen stream found gone before
    · obtain ⟨front, split⟩ := List.getLast?_eq_some_iff.mp heard
      -- An earlier end of the stream would be in the ledger, which balances with an unfinished reply.
      have going (e : Event) (member : e ∈ front) : e.ends id = false := by
        refine Bool.eq_false_iff.mpr fun ends => ?_
        have ended := Ledger.unended (before ▸ (balanced stream found (.inl (by simpa using gone))).finals)
        cases e with
        | queued f =>
          obtain ⟨own, final⟩ : f.stream = id ∧ f.final = true := by simpa [Event.ends] using ends
          have queued : .queued f ∈ l.past := split ▸ List.mem_append_left _ member
          have entered := Ledger.mem_released (k := { window := l.window }) own (Outgoing.isMessage_of_final final) (.inl queued)
          exact Bool.eq_false_iff.mp (ended f entered) final
        | _ => cases ends
      have heard : .dispatched (.reset id code) ∈ lifetime id l.past := by
        rw [split] at opened ⊢
        exact mem_lifetime (by simpa [Event.opens] using opened) going rfl
      exact .inr (List.any_eq_true.mpr ⟨_, heard, by simp [Event.hangsUp]⟩)
  | @read stream found index step =>
    have reads := Stream.reads_read stream
    exact accounted.aged past found (stream_put ..) reads.ages (by rw [reads.rest]; exact fun gone => gone)
  | @readAll stream found index =>
    have reads := Stream.reads_readUpTo stream.input.length stream
    exact accounted.aged past found (stream_put ..) reads.ages (by rw [reads.rest]; exact fun gone => gone)
  | @sentHeaders stream stream' frames found index list final allowed =>
    have ages := Stream.ages_sendHeaders allowed
    obtain ⟨-, -, -, rfl, rfl⟩ := Stream.of_sendHeaders allowed
    exact accounted.aged past found (stream_put ..) ages fun gone => gone
  | @sentData stream stream' frames found index bytes final limit allowed =>
    have ages := Stream.ages_sendData allowed
    obtain ⟨-, -, -, release⟩ := Stream.of_sendData allowed
    obtain ⟨rfl, rfl⟩ := Prod.mk.inj release
    exact accounted.aged past found (stream_put ..) ages fun gone => gone
  | cancelled closed =>
    refine ⟨fun present => any_grows past.1 (accounted.opened fun none => present (by simp [none])), fun hopen => ?_⟩
    exact absurd closed (Bool.eq_false_iff.mp hopen)
  | closed =>
    exact ⟨fun present => accounted.opened fun none => present (by simp [none]), by simp⟩

theorem Steps.accounted (h : Steps version config id (empty id) l) : l.Accounted id := by
  refine h.keeps (accounted_empty id) fun earlier last accounted => ?_
  have sound := earlier.sound (sound_empty id)
  exact last.accounted sound.orderly sound.balanced accounted

/-! ### Replies that have gone out -/

/-- A reply has ended, and all of it was taken out of the outbox. -/
structure Delivered (id : Nat) (l : Lane) : Prop where
  ended : ∃ stream, l.stream = some stream ∧ stream.finalReleased
  waiting : ∀ e ∈ l.waiting, e.2.isMessage = false
  taken : l.taken.filter (·.isMessage) = (l.ledger id).released

theorem taken_queue (l : Lane) (f : Outgoing) (priority : Nat) : (l.queue f priority).taken = l.taken := by
  unfold queue
  split
  · rfl
  · simp [Lane.taken, note, Event.taken?]

/-- What has ended is not added to. -/
theorem Delivered.keep (delivered : l.Delivered id) (stream : ∀ s, l.stream = some s → ∃ t, l'.stream = some t ∧
      (s.finalReleased → t.finalReleased)) (waiting : ∀ e ∈ l'.waiting, e ∈ l.waiting) (taken : l'.taken = l.taken)
    (released : (l'.ledger id).released = (l.ledger id).released) : l'.Delivered id where
  ended := by
    obtain ⟨s, old, done⟩ := delivered.ended
    obtain ⟨t, found, ages⟩ := stream s old
    exact ⟨t, found, ages done⟩
  waiting e member := delivered.waiting e (waiting e member)
  taken := by
    rw [taken, released]
    exact delivered.taken

theorem Delivered.queue (delivered : l.Delivered id) {f : Outgoing} (other : f.isMessage = false) (priority : Nat) :
    (l.queue f priority).Delivered id where
  ended := by
    rw [queue_rest]
    exact delivered.ended
  waiting e member := (waiting_queue member).elim (fun new => new ▸ other) (delivered.waiting e)
  taken := by
    rw [taken_queue, ledger_queue_other other]
    exact delivered.taken

theorem Delivered.note (delivered : l.Delivered id) {e : Event} (untaken : e.taken? = none)
    (inner : ∀ f, e ≠ .queued f) : (l.note e).Delivered id :=
  delivered.keep (fun s found => ⟨s, found, fun done => done⟩) (fun _ member => member)
    (by simp [Lane.taken, Lane.note, untaken]) (by rw [ledger_note, Ledger.released_note inner])

/-- What answers a read is no part of the reply. -/
theorem Delivered.read (delivered : l.Delivered id) {stream stream' : Stream} (found : l.stream = some stream)
    (reads : stream.Reads stream') {frames : List Outgoing} {i : Nat}
    (updates : ∀ f ∈ frames, ∃ increment, f = .frame (.windowUpdate i increment)) :
    (l.put stream' frames).Delivered id := by
  have set : ({ l with stream := some stream' } : Lane).Delivered id := by
    refine delivered.keep (fun s same => ⟨stream', rfl, ?_⟩) (fun _ member => member) rfl rfl
    obtain rfl : stream = s := Option.some.inj (found.symm.trans same)
    exact reads.ages.released
  unfold put queueAll
  generalize ({ l with stream := some stream' } : Lane) = u at set
  induction frames generalizing u with
  | nil => exact set
  | cons f rest ih =>
    obtain ⟨first, others⟩ := List.forall_mem_cons.mp updates
    exact ih others _ (set.queue (isMessage_of_update first) _)

theorem Step.delivered (h : Step version config id l l') (orderly : l.Orderly id) (delivered : l.Delivered id) :
    l'.Delivered id := by
  obtain ⟨stream, found, done⟩ := delivered.ended
  have used : l.fresh = false := Bool.eq_false_iff.mpr fun fresh => by
    rw [(orderly.blank fresh).stream] at found
    cases found
  have sent := ((orderly.well stream found).released done).1
  have same (s : Stream) (old : l.stream = some s) : ∃ t, l.stream = some t ∧ (s.finalReleased → t.finalReleased) :=
    ⟨s, old, fun done => done⟩
  -- What only a stream does whose reply has not ended.
  have never {s : Stream} (old : l.stream = some s) : s.finalSent = true ∧ s.isActive = false := by
    obtain rfl : stream = s := Option.some.inj (found.symm.trans old)
    exact ⟨sent, by simp [Stream.isActive, done]⟩
  cases h with
  | @noted e about quiet =>
    refine delivered.note ?_ ?_
    · cases e with
      | taken => cases quiet
      | _ => rfl
    · rintro f rfl
      cases quiet
  | outdated | left | pruned => exact delivered.keep same (fun _ member => member) rfl rfl
  | @announced f zero spent kind =>
    have other : f.isMessage = false := by
      cases f with
      | frame frame => cases frame <;> first | rfl | cases kind
      | headers | pushPromise => cases kind
    exact delivered.queue other 0
  | opened fresh | refused fresh => exact absurd fresh (Bool.eq_false_iff.mp used)
  | promised old aborted unended => exact absurd (never old).1 (Bool.eq_false_iff.mp unended)
  | trailed old active | received old active | granted old active =>
    exact absurd active (Bool.eq_false_iff.mp (never old).2)
  | @reset s old code =>
    rw [Stream.reset, if_neg (Bool.eq_false_iff.mp (never old).2)]
    refine delivered.keep (fun t present => ?_) (fun _ member => member) rfl rfl
    obtain rfl : s = t := Option.some.inj (old.symm.trans present)
    exact ⟨s, rfl, fun done => done⟩
  | @hungUp s old code heard =>
    refine delivered.keep (fun t present => ?_) (fun _ member => member) rfl rfl
    obtain rfl : s = t := Option.some.inj (old.symm.trans present)
    exact ⟨s.abort, rfl, (Stream.ages_abort s).released⟩
  | @read s old index step =>
    exact (delivered.read old (Stream.reads_read s) (Stream.frames_read s)).note rfl (by simp)
  | @readAll s old index =>
    exact (delivered.read old (Stream.reads_readUpTo s.input.length s) (Stream.frames_readUpTo s.input.length s)).note
      rfl (by simp)
  | sentHeaders old index allowed =>
    exact absurd (never old).1 (Bool.eq_false_iff.mp (Stream.of_sendHeaders allowed).2.1)
  | sentData old index allowed =>
    exact absurd (never old).1 (Bool.eq_false_iff.mp (Stream.of_sendData allowed).2.1)
  | cancelled =>
    have kept : (l.note (.cancelled id)).Delivered id := delivered.note rfl (by simp)
    refine kept.keep (fun s old => ⟨s.abort, ?_, (Stream.ages_abort s).released⟩) (fun _ member => member) rfl rfl
    exact congrArg (Option.map Stream.abort) old
  -- No part of the reply waits any more, so what is taken is none.
  | @taken rank f rest next =>
    have other : f.isMessage = false := delivered.waiting (rank, f) (next ▸ List.mem_cons_self)
    refine ⟨delivered.ended, fun e member => delivered.waiting e (next ▸ List.mem_cons_of_mem _ member), ?_⟩
    rw [ledger_note, Ledger.released_note (by simp)]
    refine Eq.trans ?_ delivered.taken
    simp [Lane.taken, note, Event.taken?, other]
  | closed =>
    refine delivered.keep (fun s old => ?_) (by simp) rfl rfl
    split
    · exact ⟨s.abort, by simp [old], (Stream.ages_abort s).released⟩
    · exact ⟨s, old, fun done => done⟩

theorem Steps.delivered (h : Steps version config id l l') (sound : l.Sound version id) (delivered : l.Delivered id) :
    l'.Delivered id :=
  h.keeps delivered fun earlier last delivered => last.delivered (earlier.sound sound).orderly delivered

/-- After GOAWAY no stream is opened. -/
theorem Step.unopened (h : Step version config id l l') (leaving : l.leaving) (absent : l.stream = none) :
    l'.leaving ∧ l'.stream = none := by
  have never {s : Stream} {P : Prop} (found : l.stream = some s) : P := by
    rw [absent] at found
    cases found
  cases h with
  | noted | outdated | taken | pruned => exact ⟨leaving, absent⟩
  | left => exact ⟨rfl, absent⟩
  | announced | refused =>
    rw [queue_rest]
    exact ⟨leaving, absent⟩
  | opened fresh going staying => exact absurd leaving (Bool.eq_false_iff.mp staying)
  | promised found | trailed found | received found | granted found | reset found | hungUp found | read found
  | readAll found | sentHeaders found | sentData found => exact never found
  | cancelled => exact ⟨leaving, by simp [absent]⟩
  | closed => exact ⟨leaving, by simp [absent]⟩

theorem Steps.unopened (h : Steps version config id l l') (leaving : l.leaving) (absent : l.stream = none) :
    l'.stream = none := by
  have both : l'.leaving ∧ l'.stream = none := by
    induction h with
    | refl => exact ⟨leaving, absent⟩
    | tail _ last ih => exact last.unopened ih.1 ih.2
  exact both.2

end Lane

end Multiplex
