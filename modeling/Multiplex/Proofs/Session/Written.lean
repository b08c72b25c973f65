import Multiplex.Proofs.Session.LaneLine
import Multiplex.Proofs.Stream.Grammar

/-! # What a session writes

A session writes the frame that announces its limits, and behind it the frames that it takes out of the
outbox, each in full before the next, until a write fails (`writing_start`). How each of them was encoded can be
read off the journal (`Session.encoding`): a header block with the header table that all blocks before it have left,
and cut to the frame limit that the peer had when the frame was taken. -/

namespace Multiplex

/-- The wire frame that an event writes. -/
def Event.wrote? : Event → Option Bytes
  | .wrote bytes => some bytes
  | _ => none

theorem Event.eq_of_taken? {e : Event} {f : Outgoing} (taken : e.taken? = some f) : e = .taken f := by
  cases e with
  | taken => exact congrArg _ (Option.some.inj taken)
  | _ => cases taken

theorem Event.eq_of_wrote? {e : Event} {bytes : Bytes} (wrote : e.wrote? = some bytes) : e = .wrote bytes := by
  cases e with
  | wrote => exact congrArg _ (Option.some.inj wrote)
  | _ => cases wrote

/-! ### Encoding -/

/-- A frame with its header block encoded, and the sender's table after it. -/
def Outgoing.encode (table : Hpack.Table) : Outgoing → Hpack.Table × Frame
  | .frame f => (table, f)
  | .headers stream list final priority =>
    let (table, block) := Header.encodeBlock table list
    (table, .headers stream block final priority 0)
  | .pushPromise stream promised list =>
    let (table, block) := Header.encodeBlock table list
    (table, .pushPromise stream promised block)

theorem Outgoing.wire_eq (f : Outgoing) (limit : Nat) (table : Hpack.Table) :
    f.wire limit table = ((f.encode table).1, (f.encode table).2.wire limit) := by
  cases f <;> rfl

/-- A frame that goes out, as it was encoded, and the frame limit that the peer had then. -/
structure Sending where
  source : Outgoing
  frame : Frame
  limit : Nat

def Sending.wire (x : Sending) : List Bytes := x.frame.wire x.limit

/-- Each frame was encoded with the table that those before it have left. -/
def Encoded (t : Hpack.Table) : List Sending → Hpack.Table → Prop
  | [], after => after = t
  | x :: rest, after => x.frame = (x.source.encode t).2 ∧ Encoded (x.source.encode t).1 rest after

section Encoded
variable {t between after : Hpack.Table} {front back : List Sending}

theorem Encoded.append (first : Encoded t front between) (second : Encoded between back after) :
    Encoded t (front ++ back) after := by
  induction front generalizing t with
  | nil => exact (show between = t from first) ▸ second
  | cons x rest ih => exact ⟨first.1, ih first.2⟩

theorem Encoded.take (whole : Encoded t (front ++ back) after) : ∃ between, Encoded t front between := by
  induction front generalizing t with
  | nil => exact ⟨t, rfl⟩
  | cons x rest ih =>
    obtain ⟨between, encoded⟩ := ih whole.2
    exact ⟨between, whole.1, encoded⟩

theorem Encoded.mem (encoded : Encoded t front after) {x : Sending} (member : x ∈ front) :
    ∃ table, x.frame = (x.source.encode table).2 := by
  induction front generalizing t with
  | nil => cases member
  | cons y rest ih =>
    rcases List.mem_cons.mp member with rfl | later
    · exact ⟨t, encoded.1⟩
    · exact ih encoded.2 later

end Encoded

/-- What a session has encoded: the limits of the peer and the sender's table, and what goes out. -/
structure Encoding where
  limits : PeerSettings := {}
  table : Hpack.Table := {}
  sendings : List Sending

namespace Encoding

/-- Encodes the frame that an event takes out of the outbox. -/
def note (version : Version) (k : Encoding) : Event → Encoding
  | .taken f =>
    { k with table := (f.encode k.table).1,
             sendings := k.sendings ++ [{ source := f, frame := (f.encode k.table).2, limit := k.limits.maxFrame }] }
  | e => { k with limits := e.adjust version k.limits }

variable {version : Version} {k : Encoding} {events : List Event}

theorem note_untaken {e : Event} (untaken : e.taken? = none) :
    k.note version e = { k with limits := e.adjust version k.limits } := by
  cases e with
  | taken => cases untaken
  | _ => rfl

theorem limits_foldl (k : Encoding) (events : List Event) :
    (events.foldl (note version) k).limits = events.foldl (Event.adjust version) k.limits := by
  induction events generalizing k with
  | nil => rfl
  | cons e rest ih =>
    rw [List.foldl_cons, List.foldl_cons, ih]
    cases e <;> rfl

theorem foldl_untaken (untaken : ∀ e ∈ events, e.taken? = none) :
    (events.foldl (note version) k).table = k.table ∧ (events.foldl (note version) k).sendings = k.sendings := by
  induction events generalizing k with
  | nil => exact ⟨rfl, rfl⟩
  | cons e rest ih =>
    obtain ⟨first, others⟩ := List.forall_mem_cons.mp untaken
    rw [List.foldl_cons, note_untaken first]
    exact ih others

theorem sources_foldl (k : Encoding) (events : List Event) :
    (events.foldl (note version) k).sendings.map (·.source) =
      k.sendings.map (·.source) ++ events.filterMap Event.taken? := by
  induction events generalizing k with
  | nil => exact (List.append_nil _).symm
  | cons e rest ih =>
    rw [List.foldl_cons, ih]
    cases taken : e.taken? with
    | none => rw [note_untaken taken, List.filterMap_cons_none taken]
    | some f =>
      obtain rfl := Event.eq_of_taken? taken
      rw [List.filterMap_cons_some taken]
      simp [note]

theorem grows_foldl (k : Encoding) (events : List Event) :
    k.sendings <+: (events.foldl (note version) k).sendings := by
  induction events generalizing k with
  | nil => exact List.prefix_refl _
  | cons e rest ih =>
    refine List.IsPrefix.trans ?_ (ih _)
    unfold note
    split
    · exact List.prefix_append ..
    · exact List.prefix_refl _

/-- What goes out was taken out of the outbox, and cut to the limit that the peer had then. -/
theorem mem_foldl {x : Sending} (member : x ∈ (events.foldl (note version) k).sendings) :
    x ∈ k.sendings ∨ ∃ front, front ++ [.taken x.source] <+: events ∧
      x.limit = (front.foldl (Event.adjust version) k.limits).maxFrame := by
  induction events generalizing k with
  | nil => exact .inl member
  | cons e rest ih =>
    rcases ih member with before | ⟨front, early, limit⟩
    · cases taken : e.taken? with
      | none =>
        rw [note_untaken taken] at before
        exact .inl before
      | some f =>
        obtain rfl := Event.eq_of_taken? taken
        rcases List.mem_append.mp before with earlier | new
        · exact .inl earlier
        · obtain rfl := List.mem_singleton.mp new
          exact .inr ⟨[], ⟨rest, rfl⟩, rfl⟩
    · have same : (k.note version e).limits = e.adjust version k.limits := by cases e <;> rfl
      rw [same] at limit
      obtain ⟨later, split⟩ := early
      exact .inr ⟨e :: front, ⟨later, congrArg (e :: ·) split⟩, limit⟩

/-- What goes out is encoded in order, and the sender's table is the one that it leaves. -/
theorem encoded_foldl {k : Encoding} {t : Hpack.Table} (encoded : Encoded t k.sendings k.table) (events : List Event) :
    Encoded t (events.foldl (note version) k).sendings (events.foldl (note version) k).table := by
  induction events generalizing k with
  | nil => exact encoded
  | cons e rest ih =>
    refine ih ?_
    unfold note
    split
    · exact encoded.append ⟨rfl, rfl⟩
    · exact encoded

end Encoding

namespace Session

/-- The wire frames that were written, in order. -/
def written (s : Session) : List Bytes := s.journal.filterMap Event.wrote?

/-- The frames that were taken out of the outbox, in order. -/
def taken (s : Session) : List Outgoing := s.journal.filterMap Event.taken?

/-- The frame that announces the limits of a session. -/
def opening (s : Session) : Outgoing := .frame (.settings false (s.config.params s.version))

/-- That frame as it goes out. -/
def announcement (s : Session) : Sending where
  source := s.opening
  frame := .settings false (s.config.params s.version)
  limit := Frame.Decoder.leastLimit

/-- How a session has encoded what goes out. -/
def encoding (s : Session) : Encoding := s.journal.foldl (Encoding.note s.version) { sendings := [s.announcement] }

/-- Whether no write has failed. -/
def Unbroken (s : Session) : Prop :=
  s.status ≠ .ready ∧ s.status ≠ .stopped .initialWriteFailed ∧ s.status ≠ .stopped .writeFailed

variable {s t : Session}

theorem sources_encoding (s : Session) : s.encoding.sendings.map (·.source) = s.opening :: s.taken :=
  Encoding.sources_foldl ..

/-- The announcement goes out first. -/
theorem sendings_encoding (s : Session) : ∃ later, s.encoding.sendings = s.announcement :: later :=
  (Encoding.grows_foldl { sendings := [s.announcement] } s.journal).imp fun _ split => split.symm

theorem wire_announcement (s : Session) :
    s.announcement.wire = [(Frame.settings false (s.config.params s.version)).encode 0] := by
  simp [Sending.wire, announcement, Frame.encode, Frame.wire]

theorem encoded_encoding (s : Session) : Encoded {} s.encoding.sendings s.encoding.table :=
  have first : Encoded {} [s.announcement] {} := ⟨rfl, rfl⟩
  Encoding.encoded_foldl (k := { sendings := [s.announcement] }) first s.journal

section Append
variable {events : List Event} (journal : t.journal = s.journal ++ events)
include journal

theorem written_append : t.written = s.written ++ events.filterMap Event.wrote? := by
  rw [written, journal, List.filterMap_append]
  rfl

theorem encoding_append (version : t.version = s.version) (config : t.config = s.config) :
    t.encoding = events.foldl (Encoding.note s.version) s.encoding := by
  rw [encoding, journal, List.foldl_append, version, announcement, opening, config, version]
  rfl

theorem encoding_untaken (untaken : ∀ e ∈ events, e.taken? = none) (version : t.version = s.version)
    (config : t.config = s.config) :
    t.encoding.table = s.encoding.table ∧ t.encoding.sendings = s.encoding.sendings := by
  rw [encoding_append journal version config]
  exact Encoding.foldl_untaken untaken

end Append

/-! ### Steps that write -/

/-- A change in which nothing is taken out of the outbox and nothing is written. -/
structure Quiet (s t : Session) : Prop where
  journal : ∃ events, t.journal = s.journal ++ events ∧ ∀ e ∈ events, e.taken? = none ∧ e.wrote? = none
  table : t.sendTable = s.sendTable
  version : t.version = s.version
  config : t.config = s.config
  begun : t.status = .ready ↔ s.status = .ready
  whole : t.Unbroken ↔ s.Unbroken

/-- The steps that take something out of the outbox or write. -/
inductive Loud (s : Session) : Session → Prop
  | began (ready : s.status = .ready) :
      Loud s ({ s with status := .running }.write
        ((Frame.settings false (s.config.params s.version)).encode 0) .initialWriteFailed)
  | wrote (running : s.status = .running) {f : Outgoing} {outbox : Outbox}
      (next : s.outbox.pop? = some (f, outbox)) : Loud s ({ s with outbox }.writeOutgoing f)

theorem Kept.quiet_journal (kept : Kept s t) :
    ∃ events, t.journal = s.journal ++ events ∧ ∀ e ∈ events, e.taken? = none ∧ e.wrote? = none := by
  obtain ⟨events, journal, inner⟩ := kept.journal
  refine ⟨events, journal, fun e member => ?_⟩
  have other := inner e member
  cases e <;> first | exact ⟨rfl, rfl⟩ | cases other

theorem Limited.quiet_journal (limited : Limited s t) :
    ∃ events, t.journal = s.journal ++ events ∧ ∀ e ∈ events, e.taken? = none ∧ e.wrote? = none := by
  obtain ⟨events, journal, inner⟩ := Kept.quiet_journal limited
  exact ⟨events, journal, inner⟩

theorem Kept.quiet (kept : Kept s t) : Quiet s t where
  journal := kept.quiet_journal
  table := by rw [kept.rest]
  version := kept.version
  config := kept.config
  begun := by rw [kept.status]
  whole := by rw [Unbroken, Unbroken, kept.status]

/-- A change of a session that runs, which leaves it running or ends it without a write. -/
theorem Quiet.of_running (running : s.status = .running)
    (still : t.status = .running ∨ t.status = .crashed ∨ t.status = .stopped .peerGone ∨ t.status = .stopped .finished)
    (journal : ∃ events, t.journal = s.journal ++ events ∧ ∀ e ∈ events, e.taken? = none ∧ e.wrote? = none)
    (table : t.sendTable = s.sendTable) (version : t.version = s.version) (config : t.config = s.config) :
    Quiet s t := by
  refine ⟨journal, table, version, config, ?_, ?_⟩
  · rcases still with same | same | same | same <;> simp [same, running]
  · rcases still with same | same | same | same <;> simp [Unbroken, same, running]

theorem Advance.quiet (h : Advance s t) : Quiet s t ∨ Loud s t := by
  have nothing (t : Session) (same : t.journal = s.journal) :
      ∃ events, t.journal = s.journal ++ events ∧ ∀ e ∈ events, e.taken? = none ∧ e.wrote? = none :=
    ⟨[], same.trans (List.append_nil _).symm, nofun⟩
  obtain ⟨version, config⟩ := h.settled
  cases h with
  | moved h => exact .inl h.kept.quiet
  | began ready => exact .inr (.began ready)
  | wrote running next => exact .inr (.wrote running next)
  | polled => exact .inl ⟨⟨[.polled], rfl, by simp [Event.taken?, Event.wrote?]⟩, rfl, rfl, rfl, .rfl, .rfl⟩
  | read running wait status fed =>
    exact .inl ⟨⟨[_], rfl, by simp [Event.taken?, Event.wrote?]⟩, rfl, rfl, rfl, .rfl, .rfl⟩
  | counted | arrived | pruned | closed => exact .inl ⟨nothing _ rfl, rfl, rfl, rfl, .rfl, .rfl⟩
  -- To dispatch a frame only puts frames into the outbox; they are taken and written by a step of their own.
  | @dispatched running frame reader next =>
    let u : Session := { s with reader }
    have limited := (effect_dispatch u frame).limited
    obtain ⟨events, journal, inner⟩ := limited.quiet_journal
    refine .inl (.of_running running ?_ ⟨.dispatched frame :: events, ?_, ?_⟩ ?_ version config)
    · exact (status_dispatch u frame).imp (·.trans running) .inl
    · exact journal.trans (List.append_assoc s.journal [.dispatched frame] events)
    · exact List.forall_mem_cons.mpr ⟨⟨rfl, rfl⟩, inner⟩
    · rw [limited.rest]
      rfl
  | wentAway running code =>
    have limited := limited_sendGoAway s code
    refine .inl (.of_running running (.inl ((status_sendGoAway s code).trans running)) limited.quiet_journal ?_
      version config)
    rw [limited.rest]
  | gone running => exact .inl (.of_running running (by simp [stop]) (nothing _ rfl) rfl rfl rfl)
  | finished running => exact .inl (.of_running running (by simp [stop]) (nothing _ rfl) rfl rfl rfl)
  | halted =>
    obtain quiet := (Kept.foldl_cancel s.executor.stop.2 { s with executor := s.executor.stop.1 }).quiet
    exact .inl ⟨quiet.journal, quiet.table, quiet.version, quiet.config, quiet.begun, quiet.whole⟩

/-- What becomes of a session that writes frames: it notes those that it could write. -/
theorem journal_writeAll (frames : List Bytes) {s : Session} (running : s.status = .running) :
    (writeAll frames s).status = .running ∧ (writeAll frames s).journal = s.journal ++ frames.map .wrote ∨
      (writeAll frames s).status = .stopped .writeFailed ∧ ∃ done rest, frames = done ++ rest ∧ rest ≠ [] ∧
        (writeAll frames s).journal = s.journal ++ (done.map .wrote ++ [.writeFailed]) := by
  induction frames generalizing s with
  | nil => exact .inl ⟨running, (List.append_nil _).symm⟩
  | cons bytes rest ih =>
    unfold writeAll write
    dsimp only
    split
    · next transport _ =>
      rw [if_pos (isRunning_iff.mpr (show ({ s with transport }.note (.wrote bytes)).status = .running from running))]
      rcases ih (s := { s with transport }.note (.wrote bytes)) running with ⟨still, journal⟩ | ⟨stopped, done, left, split, some, journal⟩
      · exact .inl ⟨still, journal.trans (List.append_assoc ..)⟩
      · refine .inr ⟨stopped, bytes :: done, left, by rw [split]; rfl, some, journal.trans ?_⟩
        exact List.append_assoc ..
    · exact .inr ⟨rfl, [], bytes :: rest, rfl, List.cons_ne_nil bytes rest, rfl⟩

/-! ### What is written -/

/-- What is written is what was encoded, up to the wire frame at which a write failed. -/
structure Writing (s : Session) : Prop where
  table : s.encoding.table = s.sendTable
  idle : s.status = .ready → s.written = [] ∧ s.encoding.sendings = [s.announcement]
  whole : s.Unbroken → s.written = s.encoding.sendings.flatMap (·.wire)
  broken : s.status ≠ .ready → ¬ s.Unbroken → ∃ front last done rest, s.encoding.sendings = front ++ [last] ∧
    last.wire = done ++ rest ∧ rest ≠ [] ∧ s.written = front.flatMap (·.wire) ++ done

namespace Writing

theorem start (version : Version) (config : Config) (handlers : Handlers) (schedule : Schedule)
    (transport : Transport) : (start version config handlers schedule transport).Writing :=
  ⟨rfl, fun _ => ⟨rfl, rfl⟩, fun whole => absurd rfl whole.1, fun begun => absurd rfl begun⟩

theorem quiet (writing : s.Writing) (change : Quiet s t) : t.Writing := by
  obtain ⟨events, journal, inner⟩ := change.journal
  have written : t.written = s.written := by
    rw [written_append journal, List.filterMap_eq_nil_iff.mpr fun e member => (inner e member).2, List.append_nil]
  obtain ⟨table, sendings⟩ :=
    encoding_untaken journal (fun e member => (inner e member).1) change.version change.config
  refine ⟨?_, fun ready => ?_, fun whole => ?_, fun begun unwhole => ?_⟩
  · rw [table, writing.table, change.table]
  · rw [written, sendings, announcement, opening, change.version, change.config]
    exact writing.idle (change.begun.mp ready)
  · rw [written, sendings]
    exact writing.whole (change.whole.mp whole)
  · rw [written, sendings]
    exact writing.broken (mt change.begun.mpr begun) (mt change.whole.mpr unwhole)

theorem began (writing : s.Writing) (ready : s.status = .ready) :
    ({ s with status := .running }.write ((Frame.settings false (s.config.params s.version)).encode 0)
      .initialWriteFailed).Writing := by
  obtain ⟨nothing, only⟩ := writing.idle ready
  have wire := s.wire_announcement
  generalize (Frame.settings false (s.config.params s.version)).encode 0 = bytes at wire ⊢
  unfold write
  split
  · next transport _ =>
    have journal : ({ s with status := .running, transport }.note (.wrote bytes)).journal = s.journal ++ [.wrote bytes] := rfl
    obtain ⟨table, sendings⟩ := encoding_untaken journal (List.forall_mem_singleton.mpr rfl) rfl rfl
    refine ⟨table.trans writing.table, nofun, fun _ => ?_, fun _ broken => absurd ?_ broken⟩
    · rw [written_append journal, nothing, sendings, only, List.flatMap_singleton, wire]
      rfl
    · exact ⟨nofun, nofun, nofun⟩
  · have journal : (({ s with status := .running }.note .writeFailed).stop .initialWriteFailed).journal =
        s.journal ++ [.writeFailed] := rfl
    obtain ⟨table, sendings⟩ := encoding_untaken journal (List.forall_mem_singleton.mpr rfl) rfl rfl
    refine ⟨table.trans writing.table, nofun, fun whole => absurd rfl whole.2.1, fun _ _ => ?_⟩
    refine ⟨[], s.announcement, [], [bytes], sendings.trans only, wire, List.cons_ne_nil bytes [], ?_⟩
    rw [written_append journal, nothing]
    rfl

theorem wrote (writing : s.Writing) (limits : s.peer = limitsAfter s.version s.journal) (running : s.status = .running)
    (f : Outgoing) (outbox : Outbox) : ({ s with outbox }.writeOutgoing f).Writing := by
  let x : Sending := { source := f, frame := (f.encode s.sendTable).2, limit := s.peer.maxFrame }
  let u : Session := note { s with outbox, sendTable := (f.encode s.sendTable).1 } (.taken f)
  have split : { s with outbox }.writeOutgoing f = writeAll x.wire u := by
    rw [writeOutgoing, Outgoing.wire_eq]
    rfl
  have sent : Sent u (writeAll x.wire u) := sent_writeAll x.wire u
  have earlier : u.written = s.written := (written_append (s := s) (t := u) rfl).trans (List.append_nil _)
  have encoded : u.encoding.table = u.sendTable ∧ u.encoding.sendings = s.encoding.sendings ++ [x] := by
    have same : s.encoding.limits = s.peer := (Encoding.limits_foldl ..).trans limits.symm
    rw [encoding_append (s := s) (t := u) rfl rfl rfl, List.foldl_cons, List.foldl_nil, Encoding.note, same, writing.table]
    exact ⟨rfl, rfl⟩
  have whole : s.written = s.encoding.sendings.flatMap (·.wire) := writing.whole (by simp [Unbroken, running])
  -- What follows is the same however far the wire frames could be written.
  have after {events : List Event} (journal : (writeAll x.wire u).journal = u.journal ++ events)
      (untaken : ∀ e ∈ events, e.taken? = none) :
      (writeAll x.wire u).encoding.table = (writeAll x.wire u).sendTable ∧
        (writeAll x.wire u).encoding.sendings = s.encoding.sendings ++ [x] ∧
        (writeAll x.wire u).written = s.encoding.sendings.flatMap (·.wire) ++ events.filterMap Event.wrote? := by
    obtain ⟨table, sendings⟩ := encoding_untaken journal untaken sent.version sent.config
    refine ⟨?_, sendings.trans encoded.2, ?_⟩
    · rw [table, encoded.1, sent.rest]
    · rw [written_append journal, earlier, whole]
  have wires (done : List Bytes) : (done.map Event.wrote).filterMap Event.wrote? = done := by
    rw [List.filterMap_map]
    exact List.filterMap_some
  have inner (done : List Bytes) : ∀ e ∈ done.map Event.wrote, e.taken? = none := by simp [Event.taken?]
  rw [split]
  rcases journal_writeAll x.wire (s := u) running with ⟨still, journal⟩ | ⟨stopped, done, rest, parts, some, journal⟩
  · obtain ⟨table, sendings, written⟩ := after journal (inner _)
    refine ⟨table, by simp [still], fun _ => ?_, fun _ broken => absurd ?_ broken⟩
    · rw [written, wires, sendings, List.flatMap_append, List.flatMap_singleton]
    · simp [Unbroken, still]
  · obtain ⟨table, sendings, written⟩ := after journal
      (List.forall_mem_append.mpr ⟨inner done, List.forall_mem_singleton.mpr rfl⟩)
    refine ⟨table, by simp [stopped], fun whole => absurd stopped whole.2.2, fun _ _ => ?_⟩
    refine ⟨s.encoding.sendings, x, done, rest, sendings, parts, some, ?_⟩
    rw [written, List.filterMap_append, wires]
    exact congrArg _ (List.append_nil done)

/-- What is written is the front of what was encoded. -/
theorem early (writing : s.Writing) : s.written <+: s.encoding.sendings.flatMap (·.wire) := by
  by_cases whole : s.Unbroken
  · exact writing.whole whole ▸ List.prefix_refl _
  · by_cases ready : s.status = .ready
    · rw [(writing.idle ready).1]
      exact List.nil_prefix
    · obtain ⟨front, last, done, rest, sendings, wire, -, written⟩ := writing.broken ready whole
      rw [written, sendings, List.flatMap_append, List.flatMap_singleton, wire, ← List.append_assoc]
      exact List.prefix_append ..

/-- What is written is the front of the wire frames of what was taken out of the outbox. -/
theorem sent (writing : s.Writing) :
    ∃ sent : List (Outgoing × List Bytes),
      sent.map (·.1) = s.opening :: s.taken ∧ (∀ e ∈ sent, ∃ limit table, e.2 = (e.1.wire limit table).2) ∧
      s.written <+: sent.flatMap (·.2) ∧ (s.Unbroken → s.written = sent.flatMap (·.2)) := by
  refine ⟨s.encoding.sendings.map fun x => (x.source, x.wire), ?_, List.forall_mem_map.mpr fun x member => ?_, ?_, ?_⟩
  · rw [List.map_map]
    exact s.sources_encoding
  · obtain ⟨table, encoded⟩ := s.encoded_encoding.mem member
    exact ⟨x.limit, table, by rw [Sending.wire, encoded, Outgoing.wire_eq]⟩
  · rw [List.flatMap_map]
    exact writing.early
  · rw [List.flatMap_map]
    exact writing.whole

end Writing

theorem Advance.writing (h : Advance s t) (writing : s.Writing) (stable : s.Stable) : t.Writing := by
  rcases h.quiet with quiet | loud
  · exact writing.quiet quiet
  cases loud with
  | began ready => exact writing.began ready
  | @wrote running f outbox next => exact writing.wrote stable.limits running f outbox

variable {version : Version} {config : Config} {handlers : Handlers} {schedule : Schedule} {transport : Transport}

/-- What any session has written is what it took out of the outbox. -/
theorem writing_start (h : Reaches (start version config handlers schedule transport) t) : t.Writing :=
  h.keeps_from (.start ..) fun earlier last writing => last.writing writing (followed_start earlier).stable

end Session

end Multiplex
