import Multiplex.Proofs.Session.Origins
import Multiplex.Proofs.Session.WireGrammar

/-! # The sizes of frames

The peer may change its frame limit at any time. Header blocks are cut when they are written, to the limit of that
moment; data is cut when a handler sends it, and may wait while the limit goes down (`frame_sizes`). -/

namespace Multiplex

open Multiplex.Frame (Kind)

/-- A wire frame whose header tells its length, and which keeps to the limit that the peer has behind a journal:
    but data keeps to the limit that the peer had when it was sent. -/
def Bounded (version : Version) (journal : List Event) (bytes : Bytes) : Prop :=
  ∃ header, WireHeader.parse? bytes = some header ∧ bytes.length = header.total ∧
    (header.kind ≠ Kind.data.code → header.length ≤ (limitsAfter version journal).maxFrame) ∧
    (header.kind = Kind.data.code → Allotted version journal header.stream header.length)

/-- What has to hold of an event behind a journal: what is taken out of the outbox goes back to the journal, and what
    is written keeps to the limits. -/
def Event.Fits (version : Version) (journal : List Event) : Event → Prop
  | .taken f => f.Grounded version journal
  | .wrote bytes => Bounded version journal bytes
  | _ => True

section Journals
variable {version : Version} {journal : List Event} {e : Event}

theorem Bounded.append {bytes : Bytes} (bounded : Bounded version journal bytes)
    (same : e.adjust version (limitsAfter version journal) = limitsAfter version journal) :
    Bounded version (journal ++ [e]) bytes := by
  obtain ⟨header, read, total, other, data⟩ := bounded
  refine ⟨header, read, total, fun kind => ?_, fun kind => (data kind).mono (List.prefix_append ..)⟩
  rw [limitsAfter_append, same]
  exact other kind

theorem Event.fits_of_quiet (quiet : e.taken? = none ∧ e.wrote? = none) (journal : List Event) :
    e.Fits version journal := by
  cases e with
  | taken => cases quiet.1
  | wrote => cases quiet.2
  | _ => trivial

/-- Wire frames may be written one behind the other. -/
theorem Chronicle.wrote (chronicle : Chronicle (Event.Fits version) journal) {frames : List Bytes}
    (bounded : ∀ bytes ∈ frames, Bounded version journal bytes) :
    Chronicle (Event.Fits version) (journal ++ frames.map .wrote) := by
  induction frames generalizing journal with
  | nil => rwa [List.map_nil, List.append_nil]
  | cons bytes rest ih =>
    obtain ⟨first, others⟩ := List.forall_mem_cons.mp bounded
    rw [List.map_cons, List.append_cons]
    exact ih (chronicle.concat first) fun bytes member => (others bytes member).append rfl

end Journals

/-! ### Wire frames -/

namespace Frame

theorem parse?_whole (kind : Kind) (flags : UInt8) {stream : Nat} {payload : Bytes} (short : payload.length < 2 ^ 24)
    (narrow : stream < 2 ^ 31) :
    WireHeader.parse? (wireFrame kind flags stream payload) =
      some { length := payload.length, kind := kind.code, flags, stream } := by
  rw [← List.append_nil (wireFrame kind flags stream payload)]
  exact parse?_wireFrame short narrow []

theorem mem_continuations_eq {stream : Nat} {fragments : List Bytes} {w : Bytes}
    (member : w ∈ continuations stream fragments) :
    ∃ flags payload, w = wireFrame .continuation flags stream payload := by
  induction fragments with
  | nil => cases member
  | cons fragment rest ih =>
    rcases List.mem_cons.mp member with first | later
    · exact ⟨_, _, first⟩
    · exact ih later

/-- A header block is carried by a wire frame of its own kind and by CONTINUATION frames. -/
theorem mem_blockFrames_eq {kind : Kind} {flags : UInt8} {stream limit : Nat} {lead block w : Bytes}
    (member : w ∈ blockFrames kind flags stream lead block limit) :
    ∃ kind' flags payload, (kind' = kind ∨ kind' = .continuation) ∧ w = wireFrame kind' flags stream payload := by
  rw [blockFrames_eq] at member
  rcases List.mem_cons.mp member with first | later
  · exact ⟨kind, _, _, .inl rfl, first⟩
  · obtain ⟨flags, payload, same⟩ := mem_continuations_eq later
    exact ⟨.continuation, flags, payload, .inr rfl, same⟩

end Frame

section Wire
variable {version : Version} {journal : List Event} {kind : Kind} {flags : UInt8} {stream : Nat} {payload : Bytes}

theorem bounded_data (small : stream < 2 ^ 31) (allotted : Allotted version journal stream payload.length) :
    Bounded version journal (Frame.wireFrame .data flags stream payload) := by
  have greatest : payload.length < 2 ^ 24 := by
    obtain ⟨early, -, -, -, -, fits⟩ := allotted
    have := (Session.legal_limitsAfter version early).frame.2
    unfold Frame.Decoder.greatestLimit at this
    omega
  refine ⟨_, Frame.parse?_whole .data flags greatest small, ?_, fun other => absurd rfl other, fun _ => allotted⟩
  rw [Frame.length_wireFrame, WireHeader.total]

theorem bounded_other (other : kind ≠ .data) (small : stream < 2 ^ 31)
    (fits : payload.length ≤ (limitsAfter version journal).maxFrame) :
    Bounded version journal (Frame.wireFrame kind flags stream payload) := by
  have greatest : payload.length < 2 ^ 24 := by
    have := (Session.legal_limitsAfter version journal).frame.2
    unfold Frame.Decoder.greatestLimit at this
    omega
  refine ⟨_, Frame.parse?_whole kind flags greatest small, ?_, fun _ => fits, fun same => ?_⟩
  · rw [Frame.length_wireFrame, WireHeader.total]
  · cases kind <;> first | exact absurd rfl other | cases same

/-- What a session itself has to say to its peer fits every limit. -/
theorem bounded_short (other : kind ≠ .data) (small : stream < 2 ^ 31) (short : payload.length ≤ Frame.Decoder.leastLimit) :
    Bounded version journal (Frame.wireFrame kind flags stream payload) :=
  bounded_other other small (Nat.le_trans short (Session.legal_limitsAfter version journal).frame.1)

theorem bounded_block (other : kind ≠ .data) (small : stream < 2 ^ 31) {lead block : Bytes}
    (room : lead.length < Frame.Decoder.leastLimit) :
    ∀ w ∈ Frame.blockFrames kind flags stream lead block (limitsAfter version journal).maxFrame,
      Bounded version journal w := by
  intro w member
  have fits := Frame.length_of_mem_blockFrames member
  have least := (Session.legal_limitsAfter version journal).frame.1
  obtain ⟨kind', flags, payload, kinds, rfl⟩ := Frame.mem_blockFrames_eq member
  rw [Frame.length_wireFrame] at fits
  refine bounded_other ?_ small (by omega)
  rcases kinds with rfl | rfl
  · exact other
  · nofun

/-- The wire frames of what goes back to a journal keep to the limits. -/
theorem Outgoing.Grounded.bounded {f : Outgoing} (grounded : f.Grounded version journal) (small : f.stream < Frame.idBound)
    (table : Hpack.Table) :
    ∀ w ∈ (f.wire (limitsAfter version journal).maxFrame table).2, Bounded version journal w := by
  cases f with
  | headers stream list final priority =>
    obtain ⟨rfl, -⟩ := grounded
    exact fun w member => bounded_block (show Kind.headers ≠ .data by decide) small (by decide) w member
  | pushPromise stream promised list =>
    refine fun w member => bounded_block (show Kind.pushPromise ≠ .data by decide) small ?_ w member
    simp [Frame.Decoder.leastLimit]
  | frame frame =>
    cases frame with
    | data stream payload final => exact List.forall_mem_singleton.mpr (bounded_data small grounded)
    | settings ack params =>
      obtain ⟨rfl, rfl⟩ := grounded
      exact List.forall_mem_singleton.mpr (bounded_short nofun small (by decide))
    | headers | pushPromise => cases grounded
    | _ => exact List.forall_mem_singleton.mpr (bounded_short nofun small (by simp [Frame.Decoder.leastLimit]))

end Wire

namespace Session
variable {s t : Session}

/-! ### Steps -/

theorem few_params (config : Config) (version : Version) : (config.params version).length ≤ 3 := by
  unfold Config.params
  split <;> split <;> simp

/-- The frame that announces the limits of a session is short. -/
theorem bounded_announcement (s : Session) (version : Version) (journal : List Event) :
    Bounded version journal ((Frame.settings false (s.config.params s.version)).encode 0) := by
  have short : ((s.config.params s.version).flatMap Setting.bytes).length ≤ Frame.Decoder.leastLimit := by
    rw [Frame.length_params]
    exact Nat.le_trans (Nat.mul_le_mul_left 6 (few_params ..)) (by decide)
  have only : (Frame.settings false (s.config.params s.version)).encode 0 =
      Frame.wireFrame .settings 0 0 ((s.config.params s.version).flatMap Setting.bytes) := List.flatten_singleton
  rw [only]
  exact bounded_short (by decide) (by decide) short

/-- What waits in the outbox is on a stream that a wire frame can name. -/
theorem waiting_small {version : Version} (sound : ∀ id, (s.lane id).Sound version id) {e : Nat × Outgoing}
    (member : e ∈ s.outbox.queue.entries) : e.2.stream < Frame.idBound := by
  have own : e ∈ (s.lane e.2.stream).waiting := List.mem_filter.mpr ⟨member, by simp⟩
  have line : e.2 ∈ (s.lane e.2.stream).line := List.mem_append_right _ (List.mem_map_of_mem own)
  exact (sound e.2.stream).voiced.small (.inr (List.ne_nil_of_mem line))

theorem Advance.fits (h : Advance s t) (chronicle : Chronicle (Event.Fits s.version) s.journal) (stable : s.Stable)
    (grounded : s.Grounded s.version s.journal) (small : ∀ e ∈ s.outbox.queue.entries, e.2.stream < Frame.idBound) :
    Chronicle (Event.Fits s.version) t.journal := by
  rcases h.quiet with quiet | loud
  · obtain ⟨events, journal, inner⟩ := quiet.journal
    exact journal ▸ chronicle.append fun e member front => Event.fits_of_quiet (inner e member) front
  cases loud with
  | began ready =>
    have opening := bounded_announcement s s.version s.journal
    unfold write
    split
    · exact chronicle.concat opening
    · exact chronicle.concat trivial
  | @wrote running f outbox next =>
    let frames := (f.wire s.peer.maxFrame s.sendTable).2
    let u : Session := note { s with outbox, sendTable := (f.wire s.peer.maxFrame s.sendTable).1 } (.taken f)
    change Chronicle (Event.Fits s.version) (writeAll frames u).journal
    obtain ⟨rank, front, -⟩ := of_pop? next
    have waits : (rank, f) ∈ s.outbox.queue.entries := front ▸ List.mem_cons_self
    -- The frame is cut by the limits in force now, and DATA was cut when it was sent.
    have ground : f.Grounded s.version s.journal := grounded.waiting (rank, f) waits
    have first : Chronicle (Event.Fits s.version) u.journal := chronicle.concat ground
    have each : ∀ bytes ∈ frames, Bounded s.version u.journal bytes := fun bytes member =>
      (ground.bounded (small (rank, f) waits) s.sendTable bytes (stable.limits ▸ member)).append rfl
    rcases journal_writeAll frames (s := u) running with ⟨-, journal⟩ | ⟨-, done, rest, parts, -, journal⟩
    · rw [journal]
      exact first.wrote each
    · rw [journal, ← List.append_assoc]
      refine (first.wrote fun bytes member => each bytes ?_).concat trivial
      rw [parts]
      exact List.mem_append_left rest member

section Reached
variable {version : Version} {config : Config} {handlers : Handlers} {schedule : Schedule} {transport : Transport}
  (h : Reaches (start version config handlers schedule transport) t)
include h

theorem fits_start : Chronicle (Event.Fits version) t.journal := by
  induction h with
  | refl => exact chronicle_nil
  | @tail u v earlier last ih =>
    have followed := followed_start earlier
    have same : u.version = version := followed.version
    have grounded := grounded_start earlier
    rw [← same] at ih grounded ⊢
    exact last.fits ih followed.stable grounded fun e member => waiting_small (sound_start earlier) member

/-- Whatever limits the peer sets, and however they come between what handlers send, what the peer grants and what
    is written: every wire frame of any session tells its length in its header, and unless it is DATA, keeps to the
    limit of the peer at the moment when it is written, which is the one of the last SETTINGS frame that was taken
    in. A DATA frame keeps to the limit at a moment when the handler sent data on its stream; so it keeps to the
    limit when it is written, unless the peer has put that down since. -/
theorem frame_sizes {front : List Event} {bytes : Bytes} (early : front ++ [.wrote bytes] <+: t.journal) :
    ∃ header, WireHeader.parse? bytes = some header ∧ bytes.length = header.total ∧
      (header.kind ≠ Kind.data.code → header.length ≤ (limitsAfter version front).maxFrame) ∧
      (header.kind = Kind.data.code →
        (∃ before index sent final,
          before ++ [.stepped header.stream index (.act (.data sent final)) .sent] <+: front ∧
            header.length ≤ (limitsAfter version before).maxFrame) ∧
        ((∀ before, before <+: front →
            (limitsAfter version before).maxFrame ≤ (limitsAfter version front).maxFrame) →
          header.length ≤ (limitsAfter version front).maxFrame)) := by
  obtain ⟨header, read, total, other, data⟩ := fits_start h front _ early
  refine ⟨header, read, total, other, fun kind => ⟨data kind, fun raised => ?_⟩⟩
  obtain ⟨before, index, sent, final, earlier, fits⟩ := data kind
  exact Nat.le_trans fits (raised before ((List.prefix_append ..).trans earlier))

end Reached

/-! ### A limit that goes down -/

/-- A session whose peer raises its limit by one byte, makes a request that is answered with as much data as one
    frame may carry then, and puts the limit down again. -/
def lowered : Session :=
  let limit (value : UInt32) := (Frame.settings false [{ id := Setting.maxFrameSize, value }]).encode 0
  let request := (Frame.headers 1 [] true none 0).encode 1
  start .spdy2 {} { others := [.act (.headers [] false), .act (.data (List.replicate 16385 0) true)] } .atOnce
    { arrivals := [{ bytes := limit 16385 ++ request ++ limit 16384 }] }

set_option maxRecDepth 100000 in
/-- When the data is written, both SETTINGS frames have been answered. -/
theorem journal_lowered :
    let t := lowered.runToEnd
    let front := t.journal.take 23
    ∃ bytes, front ++ [.wrote bytes] <+: t.journal ∧
      WireHeader.parse? bytes = some { length := 16385, kind := Kind.data.code, flags := Flag.endStream, stream := 1 } ∧
      (front.filterMap Event.wrote?).count ((Frame.settings true []).encode 0) = 2 ∧
      (limitsAfter .spdy2 front).maxFrame = 16384 := by
  intro t front
  obtain ⟨read, answers, limit⟩ : (t.journal[23]?.bind Event.wrote?).bind WireHeader.parse? =
        some { length := 16385, kind := Kind.data.code, flags := Flag.endStream, stream := 1 } ∧
      (front.filterMap Event.wrote?).count ((Frame.settings true []).encode 0) = 2 ∧
      (limitsAfter .spdy2 front).maxFrame = 16384 := by decide +kernel
  obtain ⟨bytes, written, header⟩ := Option.bind_eq_some_iff.mp read
  obtain ⟨e, next, wrote⟩ := Option.bind_eq_some_iff.mp written
  obtain rfl := Event.eq_of_wrote? wrote
  have early : t.journal.take 24 <+: t.journal := List.take_prefix ..
  rw [List.take_add_one, next] at early
  exact ⟨bytes, early, header, answers, limit⟩

/-- The DATA frame keeps to the limit when it was sent. -/
theorem frame_sizes_lowered :
    let t := lowered.runToEnd
    ∃ front bytes, front ++ [.wrote bytes] <+: t.journal ∧ bytes.length = 9 + 16385 ∧
      ∃ before index sent final, before ++ [.stepped 1 index (.act (.data sent final)) .sent] <+: front ∧
        16385 ≤ (limitsAfter .spdy2 before).maxFrame := by
  intro t
  obtain ⟨bytes, early, read, -⟩ := journal_lowered
  obtain ⟨header, found, total, -, data⟩ := frame_sizes (reaches_runToEnd lowered) early
  obtain rfl := Option.some.inj (read.symm.trans found)
  exact ⟨_, bytes, early, total, (data rfl).1⟩

/-- The DATA frame exceeds the limit that both ends have agreed on when it is written. -/
theorem frame_sizes_outrun :
    let t := lowered.runToEnd
    ∃ front bytes header, front ++ [.wrote bytes] <+: t.journal ∧
      (front.filterMap Event.wrote?).count ((Frame.settings true []).encode 0) = 2 ∧
      WireHeader.parse? bytes = some header ∧ (limitsAfter .spdy2 front).maxFrame < header.length := by
  intro t
  obtain ⟨bytes, early, read, answers, limit⟩ := journal_lowered
  exact ⟨_, bytes, _, early, answers, read, limit ▸ by decide⟩

end Session

end Multiplex
