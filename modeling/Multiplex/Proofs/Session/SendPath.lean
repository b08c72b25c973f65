import Multiplex.Proofs.Session.Orderly
import Multiplex.Proofs.Stream.Ledger

/-! # The send path

What handlers send passes through the windows of their streams into the outbox. The journal of a session
tells what was sent, granted and released on a stream (`Session.ledger`), and as long as the stream is not
aborted, the ledger balances with it. -/

namespace Multiplex

/-! ### Ledgers -/

/-- Enters an event into the ledger of a stream. -/
def Ledger.note (id : Nat) (k : Ledger) : Event → Ledger
  | .stepped stream _ (.act (.data bytes final)) .sent =>
    if stream = id then { k with sent := k.sent ++ bytes, ended := k.ended || final } else k
  | .stepped stream _ (.act (.headers _ final)) .sent =>
    if stream = id then { k with ended := k.ended || final } else k
  | .granted stream increment => if stream = id then { k with granted := k.granted + increment } else k
  | .queued f => if f.stream = id ∧ f.isMessage then { k with released := k.released ++ [f] } else k
  | _ => k

/-- The ledger of a stream that started with `window`, after all that a journal tells. -/
def Ledger.read (id : Nat) (window : Option Nat) (journal : List Event) : Ledger :=
  journal.foldl (Ledger.note id) { window }

/-- The ledger of a stream. -/
def Session.ledger (s : Session) (id : Nat) : Ledger :=
  .read id (openingWindow s.version id s.journal) s.journal

namespace Ledger
variable {id : Nat} {k : Ledger} {window : Option Nat} {past : List Event} {e : Event}

theorem read_append (events : List Event) :
    read id window (past ++ events) = events.foldl (note id) (read id window past) := by
  simp [read]

theorem note_other (other : e.about ≠ some id) : k.note id e = k := by
  unfold note
  split
  · exact if_neg fun same => other (congrArg some same)
  · exact if_neg fun same => other (congrArg some same)
  · exact if_neg fun same => other (congrArg some same)
  · exact if_neg fun same => other (congrArg some same.1)
  · rfl

/-- A ledger can be read off the events of its stream. -/
theorem foldl_filter (journal : List Event) :
    (journal.filter (·.about == some id)).foldl (note id) k = journal.foldl (note id) k := by
  induction journal generalizing k with
  | nil => rfl
  | cons e rest ih =>
    by_cases about : e.about = some id
    · rw [List.filter_cons_of_pos (by simpa using about), List.foldl_cons, List.foldl_cons, ih]
    · rw [List.filter_cons_of_neg (by simpa using about), List.foldl_cons, note_other about, ih]

theorem note_quiet (quiet : e.isQuiet) : k.note id e = k := by
  unfold note
  split <;> first | rfl | cases quiet

theorem note_granted (increment : Nat) :
    k.note id (.granted id increment) = { k with granted := k.granted + increment } := if_pos rfl

theorem note_headers (index : Nat) (list : List Header) (final : Bool) :
    k.note id (.stepped id index (.act (.headers list final)) .sent) = { k with ended := k.ended || final } :=
  if_pos rfl

theorem note_data (index : Nat) (bytes : Bytes) (final : Bool) :
    k.note id (.stepped id index (.act (.data bytes final)) .sent) =
      { k with sent := k.sent ++ bytes, ended := k.ended || final } := if_pos rfl

theorem note_unsent {index : Nat} {step : Multiplex.Step} {reply : Reply} (unsent : reply ≠ .sent) :
    k.note id (.stepped id index step reply) = k := by
  unfold Ledger.note
  split
  · next same =>
    cases same
    exact absurd rfl unsent
  · next same =>
    cases same
    exact absurd rfl unsent
  all_goals first | rfl | (next same => cases same)

theorem note_queued_other {f : Outgoing} (other : f.isMessage = false) : k.note id (.queued f) = k :=
  if_neg fun both => Bool.eq_false_iff.mp other both.2

theorem foldl_queued_other {frames : List Outgoing} (other : ∀ f ∈ frames, f.isMessage = false) :
    (frames.map .queued).foldl (note id) k = k := by
  induction frames with
  | nil => rfl
  | cons f rest ih =>
    obtain ⟨first, others⟩ := List.forall_mem_cons.mp other
    rw [List.map_cons, List.foldl_cons, note_queued_other first, ih others]

theorem foldl_queued {frames : List Outgoing} (own : ∀ f ∈ frames, f.stream = id)
    (message : ∀ f ∈ frames, f.isMessage) :
    (frames.map .queued).foldl (note id) k = { k with released := k.released ++ frames } := by
  induction frames generalizing k with
  | nil => simp
  | cons f rest ih =>
    obtain ⟨first, others⟩ := List.forall_mem_cons.mp own
    obtain ⟨part, parts⟩ := List.forall_mem_cons.mp message
    have entered : k.note id (.queued f) = { k with released := k.released ++ [f] } := if_pos ⟨first, part⟩
    rw [List.map_cons, List.foldl_cons, entered, ih others parts]
    simp

end Ledger

namespace Lane
variable {version : Version} {config : Config} {id : Nat} {l l' : Lane}

/-- The ledger of the stream of a lane. -/
def ledger (l : Lane) (id : Nat) : Ledger := .read id l.window l.past

@[simp] theorem ledger_note (l : Lane) (e : Event) : (l.note e).ledger id = (l.ledger id).note id e :=
  Ledger.read_append [e]

theorem ledger_put {stream : Stream} {frames : List Outgoing} (hopen : l.closed = false) :
    (l.put stream frames).ledger id = (frames.map .queued).foldl (Ledger.note id) (l.ledger id) := by
  rw [ledger, window_put, past_put l stream frames hopen, Ledger.read_append]
  rfl

/-- The parts of a reply are entered as released. -/
theorem ledger_put_message {stream : Stream} {frames : List Outgoing} (hopen : l.closed = false)
    (own : ∀ f ∈ frames, f.stream = id) (message : ∀ f ∈ frames, f.isMessage) :
    (l.put stream frames).ledger id = { l.ledger id with released := (l.ledger id).released ++ frames } := by
  rw [ledger_put hopen, Ledger.foldl_queued own message]

theorem ledger_put_other {stream : Stream} {frames : List Outgoing} (other : ∀ f ∈ frames, f.isMessage = false) :
    (l.put stream frames).ledger id = l.ledger id := by
  cases hopen : l.closed with
  | false => rw [ledger_put hopen, Ledger.foldl_queued_other other]
  | true =>
    rw [put, queueAll_of_closed (by exact hopen)]
    rfl

theorem ledger_queue_other {f : Outgoing} (other : f.isMessage = false) (priority : Nat) :
    (l.queue f priority).ledger id = l.ledger id := by
  unfold queue
  split
  · rfl
  · rw [ledger_note, Ledger.note_queued_other other]
    rfl

theorem isMessage_of_update {f : Outgoing} (update : ∃ increment, f = .frame (.windowUpdate id increment)) :
    f.isMessage = false := by
  obtain ⟨increment, rfl⟩ := update
  rfl

/-! ### Balance -/

/-- The ledger of a stream that was not aborted before its end balances with it. -/
def Balanced (version : Version) (id : Nat) (l : Lane) : Prop :=
  ∀ stream, l.stream = some stream → stream.aborted = false ∨ stream.finalReleased →
    (l.ledger id).Balances version.hasFlowControl stream

theorem balances_new {window : Nat} (bounded : window ≤ maxWindow) (id parent priority : Nat) :
    Ledger.Balances version.hasFlowControl { window := some window }
      (Stream.new version config window id parent priority) :=
  ⟨rfl, rfl, ⟨window, rfl, fun _ => Nat.min_eq_left bounded⟩, rfl, rfl, rfl⟩

/-- A change of the stream that concerns neither the reply nor the window. -/
theorem Balanced.transfer (balanced : l.Balanced version id) {stream stream' : Stream}
    (found : l.stream = some stream) (found' : l'.stream = some stream') (same : l'.ledger id = l.ledger id)
    (reads : stream.Reads stream') : l'.Balanced version id := by
  intro t present whole
  obtain rfl : stream' = t := Option.some.inj (found'.symm.trans present)
  have rest := reads.rest
  have balance := balanced stream found (by rw [rest] at whole; exact whole)
  rw [same]
  exact balance.transfer (by rw [rest]) (by rw [rest]) (by rw [rest]) (by rw [rest]) (by rw [rest])

/-- An abort spoils the balance of no stream that has ended. -/
theorem Balanced.abort (balanced : l.Balanced version id) (orderly : l.Orderly id) {stream : Stream}
    (found : l.stream = some stream) (found' : l'.stream = some stream.abort)
    (same : l'.ledger id = l.ledger id) : l'.Balanced version id := by
  intro t present whole
  obtain rfl : stream.abort = t := Option.some.inj (found'.symm.trans present)
  rw [same]
  by_cases gone : stream.aborted
  · rw [Stream.abort, if_pos gone] at whole ⊢
    exact balanced stream found whole
  · rw [Stream.abort, if_neg gone] at whole ⊢
    have done : stream.finalReleased = true := whole.resolve_left nofun
    have balance := balanced stream found (.inr done)
    exact balance.transfer rfl ((orderly.well stream found).released done).2.symm rfl rfl rfl

theorem Balanced.same (balanced : l.Balanced version id) (stream : l'.stream = l.stream)
    (same : l'.ledger id = l.ledger id) : l'.Balanced version id := by
  intro t present
  rw [same]
  exact balanced t (stream ▸ present)

/-- Every step keeps an orderly lane balanced. -/
theorem Step.balanced (h : Step version config id l l') (orderly : l.Orderly id) (balanced : l.Balanced version id) :
    l'.Balanced version id := by
  -- While a stream goes on, its frames find the outbox open.
  have going {stream : Stream} (found : l.stream = some stream) (aborted : stream.aborted = false)
      (unreleased : stream.finalReleased = false) : l.closed = false :=
    Bool.eq_false_iff.mpr fun shut =>
      absurd (Stream.isActive_iff.mpr ⟨unreleased, aborted⟩) (by simp [orderly.closed shut stream found])
  cases h with
  | noted about quiet => exact balanced.same rfl (by rw [ledger_note, Ledger.note_quiet quiet])
  | outdated | left | pruned => exact balanced.same rfl rfl
  | @announced f zero used kind =>
    have other : f.isMessage = false := by
      cases f with
      | frame frame => cases frame <;> first | rfl | cases kind
      | headers | pushPromise => cases kind
    refine balanced.same ?_ (ledger_queue_other other 0)
    rw [queue_rest]
  | refused fresh proper small priority =>
    refine balanced.same ?_ (ledger_queue_other rfl priority)
    rw [queue_rest]
  | promised found aborted unended unpushed child list =>
    refine balanced.same ?_ (ledger_queue_other rfl _)
    rw [queue_rest]
  | @opened fresh hopen staying proper small parent priority window bounded list final whole =>
    intro stream present _
    obtain rfl := Option.some.inj present
    -- Nothing that a ledger enters has happened on a fresh lane.
    have quiet : l.past.foldl (Ledger.note id) { window := some window } = { window := some window } := by
      have past := (orderly.blank fresh).past
      generalize l.past = events at past
      induction events with
      | nil => rfl
      | cons e rest ih =>
        obtain ⟨first, others⟩ := List.forall_mem_cons.mp past
        rw [List.foldl_cons, Ledger.note_quiet first, ih others]
    have rest := (Stream.reads_acceptHeaders (Stream.new version config window id parent priority) list final).rest
    rw [ledger, Ledger.read_append, Ledger.read, quiet]
    exact (balances_new bounded id parent priority).transfer (by rw [rest]) (by rw [rest]) (by rw [rest])
      (by rw [rest]) (by rw [rest])
  | trailed found active going list =>
    exact balanced.transfer found rfl (ledger_note ..) (Stream.reads_acceptHeaders ..)
  | received found active going fits =>
    exact balanced.transfer found rfl (ledger_note ..) (Stream.reads_acceptData fits)
  | @granted stream stream' frames found active increment positive fits =>
    obtain ⟨unreleased, aborted⟩ := Stream.isActive_iff.mp active
    have own := (Stream.acts_grant fits).own
    obtain ⟨-, same⟩ := Stream.of_grant aborted fits
    obtain ⟨rfl, rfl⟩ := Prod.mk.inj same
    intro t present _
    obtain rfl := Option.some.inj ((stream_put ..).symm.trans present)
    have balance := ((balanced stream found (.inl aborted)).grant increment).release
      (fun done => absurd done (Bool.eq_false_iff.mp unreleased))
      (fun waits => (orderly.well stream found).begun (.inr waits)) ((orderly.well stream found).ends aborted)
    rw [ledger_put_message (by exact going found aborted unreleased)
      (fun f member => (own f member).trans (orderly.own stream found))
      (fun f member => Outgoing.isMessage_of_isData (Stream.isData_release _ f member)), ledger_note, Ledger.note_granted]
    exact balance
  | @reset stream found code =>
    unfold Stream.reset
    split
    · next active =>
      intro t present whole
      obtain rfl : stream.abort = t := Option.some.inj ((stream_put ..).symm.trans present)
      obtain ⟨unreleased, aborted⟩ := Stream.isActive_iff.mp active
      simp [Stream.abort, aborted, unreleased] at whole
    · exact balanced.same found.symm rfl
  -- An abort leaves nothing to balance, unless the reply has ended: then its ledger stays as it is.
  | hungUp found => exact balanced.abort orderly found rfl rfl
  | @read stream found =>
    refine balanced.transfer found (stream_put ..) ?_ (Stream.reads_read stream)
    rw [ledger_note, Ledger.note_unsent, ledger_put_other]
    · exact fun f member => isMessage_of_update (Stream.frames_read stream f member)
    · nofun
  | @readAll stream found =>
    refine balanced.transfer found (stream_put ..) ?_ (Stream.reads_readUpTo _ stream)
    rw [ledger_note, Ledger.note_unsent, ledger_put_other]
    · exact fun f member => isMessage_of_update (Stream.frames_readUpTo _ stream f member)
    · nofun
  | @sentHeaders stream stream' frames found index list final allowed =>
    obtain ⟨aborted, unended, -, -, rfl⟩ := Stream.of_sendHeaders allowed
    have unreleased := (orderly.well stream found).unreleased unended
    intro t present _
    obtain rfl : stream' = t := Option.some.inj ((stream_put ..).symm.trans present)
    have balance := (balanced stream found (.inl aborted)).sendHeaders unreleased allowed
    rw [ledger_note, Ledger.note_headers, ledger_put_message (going found aborted unreleased) (by simp [Outgoing.stream, orderly.own stream found])
      (by simp [Outgoing.isMessage])]
    exact balance
  | @sentData stream stream' frames found index bytes final limit allowed =>
    have own := (Stream.acts_sendData allowed).own
    obtain ⟨aborted, unended, begun, same⟩ := Stream.of_sendData allowed
    obtain ⟨rfl, rfl⟩ := Prod.mk.inj same
    have unreleased := (orderly.well stream found).unreleased unended
    intro t present _
    obtain rfl := Option.some.inj ((stream_put ..).symm.trans present)
    have balance := ((balanced stream found (.inl aborted)).withData unended bytes final limit).release
      (fun done => absurd done (Bool.eq_false_iff.mp unreleased)) (fun _ => begun)
      ((orderly.well stream found).ends_withData aborted unended bytes final limit)
    rw [ledger_note, Ledger.note_data, ledger_put_message (going found aborted unreleased)
      (fun f member => (own f member).trans (orderly.own stream found))
      (fun f member => Outgoing.isMessage_of_isData (Stream.isData_release _ f member))]
    exact balance
  | cancelled =>
    have same : (l.note (.cancelled id)).ledger id = l.ledger id := ledger_note ..
    rcases l.stream.eq_none_or_eq_some with none | ⟨stream, found⟩
    · exact balanced.same (by simp [none]) same
    · exact balanced.abort orderly found (by simp [found]) same
  | taken => exact balanced.same rfl (ledger_note ..)
  | closed =>
    by_cases listed : l.listed
    · rcases l.stream.eq_none_or_eq_some with none | ⟨stream, found⟩
      · exact balanced.same (by simp [none]) rfl
      · exact balanced.abort orderly found (by simp [listed, found]) rfl
    · exact balanced.same (by simp [listed]) rfl

end Lane

end Multiplex
