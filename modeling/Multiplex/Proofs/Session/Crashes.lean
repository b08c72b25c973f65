import Multiplex.Proofs.Hpack.Faults
import Multiplex.Proofs.Session.Breaches
import Multiplex.Proofs.Session.FrameSizes
import Multiplex.Proofs.Session.HeaderTables
import Multiplex.Proofs.Stream.Bounds

/-! # What can crash a session

Whatever a peer sends, and whatever handlers do, a session stays within the bounds of what it works with: what it
reads and writes, the windows of its streams, and the numbers that it gives out (`WithinBounds`). The one thing that
crashes it is a header block with a change of the table's capacity whose number does not end (`Advance.crashes`); every
other block that cannot be read is a breach of the protocol (`dispatch_malformed`). -/

namespace Multiplex

/-- Behind a journal, an event brings a header block that crashes its reader. -/
def Event.Trips (front : List Event) (e : Event) : Prop :=
  ∃ block, e.headersBlock? = some block ∧ Hpack.Trips (Header.tableAfter {} (headersBlocks front)) block

/-- A limit that a peer may set is that of a length of three bytes. -/
theorem PeerSettings.Legal.short {limits : PeerSettings} (legal : limits.Legal) : limits.maxFrame < 2 ^ 24 :=
  Nat.lt_of_le_of_lt legal.frame.2 (by decide)

/-! ### Streams -/

namespace Lane
variable {version : Version} {config : Config} {id : Nat} {l l' : Lane}

/-- The windows of the stream of a lane are in range. -/
def InRange (l : Lane) : Prop := ∀ stream, l.stream = some stream → stream.InRange

theorem InRange.change {stream : Stream} (found : l.stream = some stream) (inRange : stream.InRange) :
    l.InRange := fun t same => by
  obtain rfl := Option.some.inj (found.symm.trans same)
  exact inRange

theorem Step.inRange (h : Step version config id l l') (inRange : l.InRange) : l'.InRange := by
  cases h with
  | noted | outdated | left | taken | pruned => exact inRange
  | announced | refused | promised =>
    rw [queue_rest]
    exact inRange
  | @opened fresh hopen staying proper small parent priority window bounded list final whole =>
    refine .change rfl (.acceptHeaders ⟨Nat.min_le_right .., fun w has => ?_⟩ list final)
    -- The window starts from the configured value, a word of 32 bits.
    have word := config.window.toNat_lt
    unfold Stream.new at has
    dsimp only at has
    split at has
    · cases has
      exact word
    · cases has
  | trailed found active going list => exact .change rfl ((inRange _ found).acceptHeaders list true)
  | received found active going fits => exact .change rfl ((inRange _ found).acceptData fits)
  | granted found active positive fits => exact .change (stream_put ..) ((inRange _ found).grant fits)
  | reset found code => exact .change (stream_put ..) ((inRange _ found).reset code)
  | hungUp found => exact .change rfl (inRange _ found).abort
  | read found => exact .change (stream_put ..) (inRange _ found).read
  | readAll found => exact .change (stream_put ..) ((inRange _ found).readUpTo _)
  | sentHeaders found index allowed => exact .change (stream_put ..) ((inRange _ found).sendHeaders allowed)
  | sentData found index allowed => exact .change (stream_put ..) ((inRange _ found).sendData allowed)
  | cancelled =>
    intro t present
    obtain ⟨old, found, rfl⟩ := Option.map_eq_some_iff.mp present
    exact (inRange old found).abort
  | closed =>
    intro t present
    dsimp only at present
    split at present
    · obtain ⟨old, found, rfl⟩ := Option.map_eq_some_iff.mp present
      exact (inRange old found).abort
    · exact inRange t present

theorem Steps.inRange (h : Steps version config id (empty id) l) : l.InRange := by
  induction h with
  | refl => nofun
  | tail _ last ih => exact last.inRange ih

end Lane

namespace Session
variable {s t : Session}

/-! ### The reader -/

/-- A step of a session leaves the reader alone, feeds it, or takes the next frame out of it. -/
theorem Advance.reader (h : Advance s t) :
    t.reader = s.reader ∨ (∃ bytes, t.reader = s.reader.feed bytes) ∨
      ∃ frame, s.reader.next? = some (frame, t.reader) := by
  cases h with
  | moved h => exact .inl h.kept.reader
  | began => exact .inl ((congrArg Session.reader (sent_write _ _ _).rest).trans rfl)
  | polled | counted | arrived | pruned | gone | finished | closed => exact .inl rfl
  | read running wait status fed => exact fed.imp_right .inl
  | @dispatched running frame reader next =>
    have same : (dispatch addTask { s with reader } frame).reader = reader :=
      (effect_dispatch { s with reader } frame).limited.reader
    exact .inr (.inr ⟨frame, same.symm ▸ next⟩)
  | wentAway running code => exact .inl (limited_sendGoAway s code).reader
  | @wrote running f outbox next =>
    exact .inl ((congrArg Session.reader (sent_writeAll _ _).rest).trans rfl)
  | halted => exact .inl (Kept.foldl_cancel _ _).reader

/-- No decoder holds more of a header block than may be put together. -/
theorem Advance.held (h : Advance s t) (held : Checked.Held s.reader.decoder.pending) :
    Checked.Held t.reader.decoder.pending := by
  rcases h.reader with same | ⟨bytes, fed⟩ | ⟨frame, next⟩
  · exact same ▸ held
  · rw [fed]
    exact Checked.held_feed held bytes
  · unfold Frame.Reader.next? at next
    split at next
    · cases next
    · obtain ⟨-, rest⟩ := Prod.mk.inj (Option.some.inj next)
      exact rest ▸ held

/-! ### Crashes -/

theorem Event.headersBlock?_of_inner {e : Event} (inner : e.isExchange = false) : e.headersBlock? = none := by
  cases e <;> first | rfl | cases inner

theorem Event.eq_of_headersBlock? {frame : Frame} {block : Bytes}
    (read : (Event.dispatched frame).headersBlock? = some block) :
    ∃ id final priority flags, frame = .headers id block final priority flags := by
  cases frame with
  | headers id other final priority flags =>
    cases read
    exact ⟨id, final, priority, flags, rfl⟩
  | _ => cases read

/-- A step of a session looks at a frame, or looks at no header block and crashes nothing. -/
theorem Advance.looks (h : Advance s t) :
    (s.status = .running ∧ ∃ frame reader, s.reader.next? = some (frame, reader) ∧
      t = dispatch addTask { s with reader } frame) ∨
    ((t.status = .crashed ↔ s.status = .crashed) ∧
      ∃ events, t.journal = s.journal ++ events ∧ ∀ e ∈ events, e.headersBlock? = none) := by
  have kept {s t : Session} (kept : Kept s t) :
      (t.status = .crashed ↔ s.status = .crashed) ∧
        ∃ events, t.journal = s.journal ++ events ∧ ∀ e ∈ events, e.headersBlock? = none := by
    obtain ⟨events, journal, inner⟩ := kept.journal
    exact ⟨by rw [kept.status], events, journal, fun e member => Event.headersBlock?_of_inner (inner e member)⟩
  have ordinary {s t : Session} (change : Ordinary s t) :
      ∃ events, t.journal = s.journal ++ events ∧ ∀ e ∈ events, e.headersBlock? = none := by
    obtain ⟨events, journal, plain⟩ := change.journal
    refine ⟨events, journal, fun e member => ?_⟩
    have := plain e member
    cases e <;> first | rfl | cases this
  cases h with
  | moved h => exact .inr (kept h.kept)
  | began ready =>
    refine .inr ⟨iff_of_false (fun crashed => ?_) (by simp [ready]), ?_⟩
    · rcases status_write { s with status := .running } _ .initialWriteFailed with same | stopped
      · cases same.symm.trans crashed
      · cases stopped.symm.trans crashed
    · exact ordinary (s := { s with status := .running }) (.write _ _)
  | polled => exact .inr ⟨.rfl, [.polled], rfl, by simp [Event.headersBlock?]⟩
  | counted | arrived | pruned => exact .inr ⟨.rfl, [], (List.append_nil _).symm, List.forall_mem_nil _⟩
  | read running wait status fed =>
    exact .inr ⟨.rfl, [_], rfl, by simp [Event.headersBlock?]⟩
  | @dispatched running frame reader next => exact .inl ⟨running, frame, reader, next, rfl⟩
  | wentAway running code =>
    unfold sendGoAway
    split
    · exact .inr (kept (.refl s))
    · exact .inr (kept (s := { s with goAwaySent := true }) (.queue _ _))
  | @wrote running f outbox next =>
    -- A write that fails stops the session and does not crash it.
    have written := ordinary (s := { s with outbox }) (.writeOutgoing _ f)
    refine .inr ⟨iff_of_false (fun crashed => ?_) (by simp [running]), written⟩
    rcases status_writeOutgoing { s with outbox } f with same | stopped
    · cases (same.trans running).symm.trans crashed
    · cases stopped.symm.trans crashed
  | gone running | finished running =>
    exact .inr ⟨by simp [stop, running], [], (List.append_nil _).symm, List.forall_mem_nil _⟩
  | closed stopped => exact .inr ⟨.rfl, [], (List.append_nil _).symm, List.forall_mem_nil _⟩
  | halted => exact .inr (kept (s := { s with executor := s.executor.stop.1 }) (.foldl_cancel _ _))

theorem status_onDecoded (s : Session) (id : Nat) (decoded : Except Hpack.Fault (List Header)) (final : Bool)
    (priority : Option Dependency) (flags : UInt8) :
    (onDecoded addTask s id decoded final priority flags).status = s.status := by
  unfold onDecoded
  split
  · unfold onTrailers
    split
    · exact status_sendGoAway ..
    · split
      · rfl
      · exact status_sendGoAway ..
  · split
    · rfl
    · split
      · exact status_sendGoAway ..
      · split
        · exact status_sendGoAway ..
        · unfold openStream
          dsimp only
          split
          · exact (Kept.queue ..).status
          · exact ((Kept.addStream ..).trans (.addTask _)).status

/-- No frame without a header block crashes a session. -/
theorem Effect.status_of_other {decoded : Except Hpack.Fault (List Header)} {frame : Frame} (h : Effect s decoded frame t)
    (other : (Event.dispatched frame).headersBlock? = none) : t.status = s.status := by
  cases h with
  | crashed | trailed | turnedAway | opened => cases other
  | breach => exact status_sendGoAway s _
  | passed | left | received | hungUp => rfl
  | answered | adopted => exact (Kept.queue ..).status
  | granted => exact ((Kept.note rfl).trans (.update ..)).status
  | offended => exact (Kept.reset ..).status

/-- A frame crashes a session if its header block crashes the reader of header blocks. -/
theorem crashed_dispatch_iff (running : s.status = .running) (frame : Frame) :
    (dispatch addTask s frame).status = .crashed ↔
      ∃ block, (Event.dispatched frame).headersBlock? = some block ∧ Hpack.Trips s.receiveTable block := by
  cases read : (Event.dispatched frame).headersBlock? with
  | none =>
    have same : (dispatch addTask s frame).status = .running :=
      ((effect_dispatch s frame).status_of_other read).trans running
    exact iff_of_false (by simp [same]) (by simp)
  | some block =>
    obtain ⟨id, final, priority, flags, rfl⟩ := Event.eq_of_headersBlock? read
    have reads : (∃ b, some block = some b ∧ Hpack.Trips s.receiveTable b) ↔ Hpack.Trips s.receiveTable block := by
      simp
    rw [reads, ← Header.decodeBlock_crash_iff]
    by_cases crash : s.decodedIn (.headers id block final priority flags) = .error .crash
    · refine iff_of_true ?_ crash
      unfold dispatch onHeaders
      dsimp only
      split
      · rfl
      · next sound => exact absurd crash sound
    · have same : (dispatch addTask s (.headers id block final priority flags)).status = .running := by
        rw [dispatch_headers addTask crash]
        exact (status_onDecoded ..).trans running
      exact iff_of_false (by simp [same]) crash

/-- A session has crashed if it has looked at a header block that crashes its reader. -/
def CrashesByBlocks (s : Session) : Prop :=
  s.status = .crashed ↔ ¬ Chronicle (fun front e => ¬ e.Trips front) s.journal

theorem Advance.crashes (h : Advance s t) (abreast : s.Abreast) (crashes : s.CrashesByBlocks) : t.CrashesByBlocks := by
  -- No other event crashes a session.
  have rest {journal events : List Event} (unread : ∀ e ∈ events, e.headersBlock? = none) :
      Chronicle (fun front e => ¬ e.Trips front) (journal ++ events) ↔
        Chronicle (fun front e => ¬ e.Trips front) journal := by
    refine ⟨fun long => long.of_prefix (List.prefix_append ..), fun short => ?_⟩
    refine short.append fun e member front trips => ?_
    obtain ⟨block, read, -⟩ := trips
    rw [unread e member] at read
    cases read
  rcases h.looks with ⟨running, frame, reader, next, rfl⟩ | ⟨status, events, journal, unread⟩
  · have whole : Chronicle (fun front e => ¬ e.Trips front) s.journal :=
      not_not.mp fun broken => by cases running.symm.trans (crashes.mpr broken)
    obtain ⟨events, journal, inner⟩ := Kept.journal (effect_dispatch { s with reader } frame).limited
    have table : ({ s with reader } : Session).receiveTable = Header.tableAfter {} (headersBlocks s.journal) :=
      abreast.table
    rw [CrashesByBlocks, crashed_dispatch_iff (s := { s with reader }) running frame, journal,
      rest fun e member => Event.headersBlock?_of_inner (inner e member), table]
    refine ⟨fun trips long => long s.journal (.dispatched frame) (List.prefix_refl _) trips, fun broken => ?_⟩
    exact not_not.mp fun fair => broken (whole.concat fair)
  · rw [CrashesByBlocks, status, journal, rest unread]
    exact crashes

/-! ### Breaches -/

/-- A header block that cannot be read, but does not crash its reader, is answered with GOAWAY, unless that has been
    sent. -/
theorem dispatch_malformed (launch : Nat → Session → Session) {id : Nat} {block : Bytes} {final : Bool}
    {priority : Option Dependency} {flags : UInt8} {e : Hpack.BlockError}
    (malformed : s.decodedIn (.headers id block final priority flags) = .error (.malformed e)) :
    dispatch launch s (.headers id block final priority flags) =
      (s.noted (.headers id block final priority flags)).protocolError := by
  have sound : s.decodedIn (.headers id block final priority flags) ≠ .error .crash := by simp [malformed]
  by_cases broken : s.HeadersBreak id (s.decodedIn (.headers id block final priority flags)) final flags
  · exact dispatch_breaks launch ⟨sound, broken⟩
  · rw [dispatch_headers launch sound, malformed]
    have ignored : s.listed? id = none ∧ s.goAwaySent = true := by
      unfold HeadersBreak at broken
      split at broken
      · exact absurd (.inr (.inr (.inr ⟨_, malformed⟩))) broken
      · next unlisted =>
        refine ⟨unlisted, (Bool.not_eq_false _).mp fun staying => broken ⟨staying, ?_⟩⟩
        exact .inr (.inr (.inr ⟨_, malformed⟩))
    have leaving : (s.noted (.headers id block final priority flags)).goAwaySent = true := ignored.2
    rw [onDecoded, show (s.noted (.headers id block final priority flags)).listed? id = none from ignored.1]
    dsimp only
    rw [if_pos leaving, protocolError, sendGoAway, if_pos leaving]

theorem journal_protocolError (hopen : s.outbox.closed = false) :
    s.protocolError.journal = s.journal ++
      if s.goAwaySent then [] else [.queued (.frame (.goAway s.lastPeer ErrorCode.protocolError))] := by
  rw [protocolError_eq, hopen]
  cases s.goAwaySent with
  | true => exact (List.append_nil _).symm
  | false => rfl

/-! ### Bounds -/

/-- Whatever comes next, what a session does stays within bounds: what it reads, what it writes, the windows of its
    streams, and the numbers that it gives out. -/
structure WithinBounds (s : Session) : Prop where
  reading (bytes : Bytes) : Checked.feed s.reader.decoder bytes = some (s.reader.decoder.feed bytes)
  announcing : Checked.wire 0 (.settings false (s.config.params s.version)) =
    some ((Frame.settings false (s.config.params s.version)).wire 0)
  writing : ∀ e ∈ s.outbox.queue.entries,
    Checked.outgoing s.peer.maxFrame s.sendTable e.2 = some (e.2.wire s.peer.maxFrame s.sendTable)
  streams {id : Nat} {stream : Stream} (found : s.stream? id = some stream) :
    (∀ bytes final, stream.checkedAcceptData bytes final = some (stream.acceptData bytes final)) ∧
    (∀ increment < 2 ^ 32, stream.checkedGrant increment = some (stream.grant increment)) ∧
    (∀ count, stream.checkedReadUpTo count = some (stream.readUpTo count)) ∧
    ∀ bytes final limit, stream.checkedSendData bytes final limit = some (stream.sendData bytes final limit)
  numbers : s.lastPeer ≤ maxStream ∧ s.nextPush ≤ maxStream + 2

theorem Numbered.le_maxStream (numbered : s.Numbered) : s.lastPeer ≤ maxStream ∧ s.nextPush ≤ maxStream + 2 := by
  constructor
  · rw [numbered.last]
    rcases List.eq_nil_or_concat s.attempts with none | ⟨front, last, split⟩
    · rw [none]
      exact Nat.zero_le _
    · have tried : last ∈ s.attempts := by simp [split]
      rw [split, List.concat_eq_append, List.getLastD_concat]
      exact (numbered.odd last tried).2
  · obtain ⟨count, opened, next⟩ := numbered.pushes
    rw [next]
    cases count with
    | zero => decide
    | succ count =>
      have last : 2 + 2 * count ∈ s.opened true := by
        rw [opened, List.mem_range']
        exact ⟨count, Nat.lt_succ_self _, rfl⟩
      have := numbered.small _ last
      omega

section Reached
variable {version : Version} {config : Config} {handlers : Handlers} {schedule : Schedule} {transport : Transport}
  (h : Reaches (start version config handlers schedule transport) t)
include h

theorem withinBounds_start : t.WithinBounds where
  reading := Checked.feed_eq (h.keeps_from nofun fun _ last held => last.held held)
  announcing := by
    have moderate : Checked.Moderate (.settings false (t.config.params t.version)) :=
      Nat.lt_of_le_of_lt (few_params ..) (by decide)
    exact Checked.wire_eq moderate (by decide)
  writing e member := by
    have grounded : e.2.Grounded t.version t.journal :=
      (followed_start h).version.symm ▸ (grounded_start h).waiting e member
    refine Checked.outgoing_eq (fun frame same => ?_) ?_ t.sendTable
    · rw [same] at grounded
      cases frame with
      | data stream payload final =>
        obtain ⟨early, -, -, -, -, fits⟩ := grounded
        exact Nat.lt_of_le_of_lt fits (legal_limitsAfter t.version early).short
      | settings ack params =>
        obtain ⟨-, rfl⟩ := grounded
        exact (by decide : 0 < 2 ^ 16)
      | _ => trivial
    · rw [(followed_start h).stable.limits]
      exact (legal_limitsAfter t.version t.journal).short
  streams {id} _ found := by
    have stream := (steps_start h id).inRange _ found
    exact ⟨stream.checkedAcceptData, fun _ word => stream.checkedGrant word, stream.checkedReadUpTo,
      stream.checkedSendData⟩
  numbers := (numbered_start h).le_maxStream

/-- Whatever the peer sends, and whatever handlers do: at every moment of every session, what it does next stays within
    bounds; it has crashed just if it has looked at a header block with a change of the table's capacity whose number
    does not end. Every other header block is read, or is a breach of the protocol that is answered with GOAWAY, unless
    that has been sent. -/
theorem within_bounds :
    t.WithinBounds ∧
    (t.status = .crashed ↔ ∃ front id block final priority flags,
      front ++ [.dispatched (.headers id block final priority flags)] <+: t.journal ∧
        Hpack.Trips (Header.tableAfter {} (headersBlocks front)) block) ∧
    (∀ block, ¬ Hpack.Trips t.receiveTable block →
      (∃ list, (Header.decodeBlock t.receiveTable block).2 = .ok list) ∨
      ∃ e, (Header.decodeBlock t.receiveTable block).2 = .error (.malformed e)) ∧
    ∀ id block final priority flags reader e, t.status = .running →
      (Header.decodeBlock t.receiveTable block).2 = .error (.malformed e) →
        let u := dispatch spawn { t with reader } (.headers id block final priority flags)
        u.status = .running ∧ u.goAwaySent ∧
          u.journal = t.journal ++ .dispatched (.headers id block final priority flags) ::
            if t.goAwaySent then [] else [.queued (.frame (.goAway t.lastPeer ErrorCode.protocolError))] := by
  refine ⟨withinBounds_start h, ?_, fun block sound => ?_, ?_⟩
  -- By induction on the run: only a dispatched header block ends a step in a crash.
  · have crashes : t.CrashesByBlocks :=
      h.keeps_from (iff_of_false nofun (not_not.mpr chronicle_nil)) fun earlier last =>
        last.crashes (abreast_start earlier)
    refine crashes.trans ⟨?_, ?_⟩
    · intro broken
      unfold Chronicle at broken
      push Not at broken
      obtain ⟨front, e, early, block, read, trips⟩ := broken
      cases e with
      | dispatched frame =>
        obtain ⟨id, final, priority, flags, rfl⟩ := Event.eq_of_headersBlock? read
        cases read
        exact ⟨front, id, block, final, priority, flags, early, trips⟩
      | _ => cases read
    · rintro ⟨front, id, block, final, priority, flags, early, trips⟩ fair
      exact fair front _ early ⟨block, rfl, trips⟩
  · rw [← Header.decodeBlock_crash_iff] at sound
    cases read : (Header.decodeBlock t.receiveTable block).2 with
    | ok list => exact .inl ⟨list, rfl⟩
    | error fault =>
      cases fault with
      | crash => exact absurd read sound
      | malformed e => exact .inr ⟨e, rfl⟩
  · intro id block final priority flags reader e running malformed u
    let v : Session := ({ t with reader } : Session).noted (.headers id block final priority flags)
    have same : u = v.protocolError := dispatch_malformed spawn malformed
    have hopen : v.outbox.closed = false := ((followed_start h).stable.running running).1
    refine ⟨?_, ?_, ?_⟩
    · rw [same]
      exact (status_sendGoAway ..).trans running
    · rw [same, protocolError_eq]
      split <;> rfl
    · rw [same, journal_protocolError hopen]
      exact List.append_assoc ..

end Reached

/-- A session whose peer makes a request with a header block of its own making. -/
def garbled (block : Bytes) : Session :=
  start .spdy3 {} {} .atOnce { arrivals := [{ bytes := (Frame.headers 1 block true none 0).encode 1 }] }

/-- The number of a header field that does not end is a breach. -/
theorem within_bounds_garbled :
    ∃ s, Reaches (garbled [0x7f]) s ∧ s.isRunning ∧
      let t := dispatch spawn s (.headers 1 [0x7f] true none 0)
      t.status = .running ∧ t.journal = s.journal ++
        [.dispatched (.headers 1 [0x7f] true none 0), .queued (.frame (.goAway 0 ErrorCode.protocolError))] := by
  have began : Reaches (garbled [0x7f]) _ := .single (.began rfl)
  set s := { garbled [0x7f] with status := .running }.write _ .initialWriteFailed
  have running : s.status = .running := by decide +kernel
  have malformed : (Header.decodeBlock s.receiveTable [0x7f]).2 = .error (.malformed (.integer .notEnoughOctets)) := by
    decide +kernel
  obtain ⟨lives, -, journal⟩ := (within_bounds began).2.2.2 1 [0x7f] true none 0 s.reader _ running malformed
  refine ⟨s, began, isRunning_iff.mpr running, lives, journal.trans ?_⟩
  rw [show s.goAwaySent = false by decide +kernel, show s.lastPeer = 0 by decide +kernel]
  rfl

/-- The number of a change of the table's capacity that does not end crashes the session, and the peer hears nothing of
    it. -/
theorem within_bounds_endless :
    let t := (garbled [0x3f]).runToEnd
    (Header.decodeBlock {} [0x3f]).2 = .error .crash ∧ t.status = .crashed ∧
      t.journal.getLast?.bind Event.headersBlock? = some [0x3f] ∧
      ∀ last code, .queued (.frame (.goAway last code)) ∉ t.journal := by
  intro t
  have quiet : ∀ e ∈ t.journal, e.farewell? = none := by decide +kernel
  refine ⟨by decide +kernel, by decide +kernel, by decide +kernel, fun last code member => ?_⟩
  cases quiet _ member

end Session

end Multiplex
