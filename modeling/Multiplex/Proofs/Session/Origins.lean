import Multiplex.Proofs.Session.Numbers

/-! # Where frames come from

What waits in the outbox goes back to what has happened before: a reply to the handler that sent it, and a promise
to a push and to the request that the pushed stream started with. Data was cut to the limit that the peer had when the handler
sent it, however long it has waited since (`Allotted`). The numbers that the session itself puts into frames fit
their fields. So whatever a session takes out of the outbox is grounded in its journal (`grounded_start`). -/

namespace Multiplex

/-- A handler has sent data on a stream at a time when the peer took payloads of `length` bytes. -/
def Allotted (version : Version) (journal : List Event) (id length : Nat) : Prop :=
  ∃ early index bytes final, early ++ [.stepped id index (.act (.data bytes final)) .sent] <+: journal ∧
    length ≤ (limitsAfter version early).maxFrame

/-- What has happened before a frame goes into the outbox, and which numbers it may bear. -/
def Outgoing.Grounded (version : Version) (journal : List Event) : Outgoing → Prop
  | .headers id list final priority =>
    priority = none ∧ ∃ index, .stepped id index (.act (.headers list final)) .sent ∈ journal
  | .pushPromise parent promised list =>
    promised < Frame.idBound ∧ .queued (.pushPromise parent promised list) ∈ journal ∧
      .accepted promised (.headers list true) ∈ journal
  | .frame (.data id bytes _) => Allotted version journal id bytes.length
  | .frame (.settings ack params) => ack ∧ params = []
  | .frame (.goAway last _) => last < Frame.idBound
  | .frame (.windowUpdate _ increment) => increment < Frame.idBound
  | .frame (.reset ..) | .frame (.ping ..) => True
  | .frame (.headers ..) | .frame (.pushPromise ..) => False

/-- What a stream holds back has been allotted to it. -/
def Stream.Allotted (version : Version) (journal : List Event) (s : Stream) : Prop :=
  ∀ c ∈ s.pending, Multiplex.Allotted version journal s.id c.bytes.length

section Journals
variable {version : Version} {journal later : List Event} {id length : Nat}

theorem Allotted.mono (allotted : Allotted version journal id length) (grows : journal <+: later) :
    Allotted version later id length := by
  obtain ⟨early, index, bytes, final, before, fits⟩ := allotted
  exact ⟨early, index, bytes, final, before.trans grows, fits⟩

theorem Allotted.le {shorter : Nat} (allotted : Allotted version journal id length) (le : shorter ≤ length) :
    Allotted version journal id shorter := by
  obtain ⟨early, index, bytes, final, before, fits⟩ := allotted
  exact ⟨early, index, bytes, final, before, Nat.le_trans le fits⟩

theorem Outgoing.Grounded.mono {f : Outgoing} (grounded : f.Grounded version journal) (grows : journal <+: later) :
    f.Grounded version later := by
  cases f with
  | headers =>
    obtain ⟨plain, index, sent⟩ := grounded
    exact ⟨plain, index, grows.subset sent⟩
  | pushPromise =>
    obtain ⟨small, queued, request⟩ := grounded
    exact ⟨small, grows.subset queued, grows.subset request⟩
  | frame frame =>
    cases frame with
    | data => exact Allotted.mono grounded grows
    | _ => exact grounded

end Journals

/-! ### Streams -/

theorem SendWindow.length_release (w : SendWindow) (chunks : List Chunk) :
    ∀ c ∈ (w.release chunks).released ++ (w.release chunks).waiting,
      ∃ whole ∈ chunks, c.bytes.length ≤ whole.bytes.length := by
  have cons {c : Chunk} {rest : List Chunk} {front back : List Chunk}
      (ih : ∀ c ∈ front ++ back, ∃ whole ∈ rest, c.bytes.length ≤ whole.bytes.length) :
      ∀ d ∈ (c :: front) ++ back, ∃ whole ∈ c :: rest, d.bytes.length ≤ whole.bytes.length := by
    refine List.forall_mem_cons.mpr ⟨⟨c, List.mem_cons_self, Nat.le_refl _⟩, fun d member => ?_⟩
    obtain ⟨whole, inside, le⟩ := ih d member
    exact ⟨whole, List.mem_cons_of_mem c inside, le⟩
  fun_induction release w chunks with
  | case1 => exact fun d member => absurd member List.not_mem_nil
  | case2 w c rest off r ih => exact cons ih
  | case3 w c rest on fits r ih => exact cons ih
  | case4 w c rest => exact fun d member => ⟨d, member, Nat.le_refl _⟩
  | case5 w c rest =>
    refine List.forall_mem_cons.mpr ⟨⟨c, List.mem_cons_self, ?_⟩, List.forall_mem_cons.mpr
      ⟨⟨c, List.mem_cons_self, ?_⟩, fun d member => ⟨d, List.mem_cons_of_mem c member, Nat.le_refl _⟩⟩⟩
    · exact (List.length_take_le ..).trans (Nat.le_of_lt (Nat.lt_of_not_le ‹_›))
    · simp

namespace Stream
variable {version : Version} {journal : List Event} {s t : Stream}

theorem bytes_chunksOf (final : Bool) (pieces : List Bytes) : (chunksOf final pieces).map (·.bytes) = pieces := by
  fun_induction chunksOf final pieces with
  | case1 => rfl
  | case2 => rfl
  | case3 bytes rest more ih => rw [List.map_cons, ih]

theorem length_piecesOf {limit : Nat} (positive : 0 < limit) {bytes piece : Bytes}
    (member : piece ∈ piecesOf limit bytes) : piece.length ≤ limit := by
  unfold piecesOf at member
  split at member
  · rw [List.mem_singleton.mp member]
    exact Nat.zero_le _
  · have := (Bytes.length_of_mem_pieces member).2
    omega

theorem Allotted.transfer (allotted : s.Allotted version journal) (own : t.id = s.id)
    (pending : t.pending = s.pending) : t.Allotted version journal := by
  rw [Stream.Allotted, own, pending]
  exact allotted

theorem Reads.allotted (reads : Reads s t) (allotted : s.Allotted version journal) : t.Allotted version journal :=
  allotted.transfer reads.id (by rw [reads.rest])

theorem Allotted.abort (allotted : s.Allotted version journal) : s.abort.Allotted version journal := by
  unfold Stream.abort
  split
  · exact allotted
  · nofun

theorem Allotted.reset (allotted : s.Allotted version journal) (code : ErrorCode) :
    (s.reset code).1.Allotted version journal := by
  unfold Stream.reset
  split
  · exact allotted.abort
  · exact allotted

theorem Allotted.release (allotted : s.Allotted version journal) :
    s.release.1.Allotted version journal ∧ ∀ f ∈ s.release.2, f.Grounded version journal := by
  have each : ∀ c ∈ (s.send.release s.pending).released ++ (s.send.release s.pending).waiting,
      Multiplex.Allotted version journal s.id c.bytes.length := fun c member => by
    obtain ⟨whole, waits, le⟩ := SendWindow.length_release s.send s.pending c member
    exact (allotted whole waits).le le
  obtain ⟨released, waiting⟩ := List.forall_mem_append.mp each
  exact ⟨waiting, List.forall_mem_map.mpr released⟩

/-- Data is cut to pieces that the limit allows. -/
theorem Allotted.withData (allotted : s.Allotted version journal) {limit : Nat} (positive : 0 < limit)
    (allowed : Multiplex.Allotted version journal s.id limit) (bytes : Bytes) (final : Bool) :
    (s.withData bytes final limit).Allotted version journal := by
  refine List.forall_mem_append.mpr ⟨allotted, fun c member => ?_⟩
  have piece : c.bytes ∈ piecesOf limit bytes := by
    rw [← bytes_chunksOf final (piecesOf limit bytes)]
    exact List.mem_map_of_mem member
  exact allowed.le (length_piecesOf positive piece)

theorem grounded_reset (s : Stream) (code : ErrorCode) : ∀ f ∈ (s.reset code).2, f.Grounded version journal := by
  unfold reset
  split
  · exact List.forall_mem_singleton.mpr trivial
  · nofun

/-- No window grows beyond the greatest, so no grant is greater. -/
theorem grounded_read (s : Stream) : ∀ f ∈ s.read.2.2, f.Grounded version journal := by
  unfold read
  split
  · nofun
  split
  · nofun
  · nofun
  · unfold grantBack
    dsimp only
    split
    · nofun
    · next w _ =>
      dsimp only
      split
      · nofun
      · unfold ReceiveWindow.grantBack
        dsimp only
        split
        · nofun
        · refine List.forall_mem_map.mpr (List.forall_mem_singleton.mpr ?_)
          have bounded : maxWindow < Frame.idBound := by decide
          change min _ (maxWindow - w.room) < Frame.idBound
          omega

theorem grounded_readUpTo (count : Nat) (s : Stream) : ∀ f ∈ (s.readUpTo count).2.2, f.Grounded version journal := by
  induction count generalizing s with
  | zero => nofun
  | succ count ih =>
    have first : ∀ f ∈ s.read.2.2, f.Grounded version journal := grounded_read s
    unfold readUpTo
    split
    · nofun
    · next t part early same =>
      rw [same] at first
      exact List.forall_mem_append.mpr ⟨first, ih t⟩

end Stream

namespace Session
variable {s t : Session} {version : Version} {journal later : List Event}

/-! ### Sessions -/

/-- What a session holds back goes back to what a journal tells. -/
structure Grounded (s : Session) (version : Version) (journal : List Event) : Prop where
  streams : ∀ stream ∈ s.streams, stream.Allotted version journal
  waiting : ∀ e ∈ s.outbox.queue.entries, e.2.Grounded version journal

namespace Grounded

theorem mono (grounded : s.Grounded version journal) (grows : journal <+: later) : s.Grounded version later :=
  ⟨fun stream member c waits => (grounded.streams stream member c waits).mono grows,
    fun e member => (grounded.waiting e member).mono grows⟩

/-- A change that touches neither the streams nor the outbox. -/
theorem same (grounded : s.Grounded version journal) (streams : t.streams = s.streams) (outbox : t.outbox = s.outbox) :
    t.Grounded version journal :=
  ⟨streams ▸ grounded.streams, outbox ▸ grounded.waiting⟩

theorem stream (grounded : s.Grounded version journal) {id : Nat} {stream : Stream}
    (found : s.stream? id = some stream) : stream.Allotted version journal :=
  grounded.streams stream (List.mem_of_find?_eq_some found)

theorem setStream (grounded : s.Grounded version journal) {stream : Stream}
    (allotted : stream.Allotted version journal) : (s.setStream stream).Grounded version journal := by
  refine ⟨List.forall_mem_map.mpr fun old member => ?_, grounded.waiting⟩
  split
  · exact allotted
  · exact grounded.streams old member

theorem queue (grounded : s.Grounded version journal) {f : Outgoing} (ground : f.Grounded version journal)
    (priority : Nat) : (s.queue f priority).Grounded version journal := by
  unfold Session.queue
  split
  · exact grounded
  · next hopen =>
    refine ⟨grounded.streams, fun e member => ?_⟩
    rw [note, Outbox.entries_push (Bool.eq_false_iff.mpr hopen)] at member
    rcases Queue.mem_insert.mp member with new | old
    · exact new ▸ ground
    · exact grounded.waiting e old

theorem queueAll (grounded : s.Grounded version journal) {frames : List Outgoing}
    (ground : ∀ f ∈ frames, f.Grounded version journal) (priority : Nat) :
    (s.queueAll frames priority).Grounded version journal := by
  unfold Session.queueAll
  induction frames generalizing s with
  | nil => exact grounded
  | cons f rest ih =>
    obtain ⟨first, others⟩ := List.forall_mem_cons.mp ground
    exact ih (grounded.queue first priority) others

theorem update (grounded : s.Grounded version journal) {stream : Stream} {frames : List Outgoing}
    (allotted : stream.Allotted version journal) (ground : ∀ f ∈ frames, f.Grounded version journal) :
    (s.update stream frames).Grounded version journal :=
  (grounded.setStream allotted).queueAll ground stream.priority

theorem reset (grounded : s.Grounded version journal) {id : Nat} {stream : Stream}
    (found : s.stream? id = some stream) (code : ErrorCode) : (s.reset stream code).Grounded version journal :=
  grounded.update ((grounded.stream found).reset code) (stream.grounded_reset code)

theorem readPart (grounded : s.Grounded version journal) {id : Nat} {stream : Stream}
    (found : s.stream? id = some stream) : (s.readPart stream).1.Grounded version journal :=
  grounded.update ((Stream.reads_read stream).allotted (grounded.stream found)) stream.grounded_read

theorem cancel (grounded : s.Grounded version journal) (id : Nat) : (s.cancel id).Grounded version journal := by
  have noted : (s.note (.cancelled id)).Grounded version journal := grounded.same rfl rfl
  unfold Session.cancel
  dsimp only
  split
  · next found => exact noted.setStream (noted.stream found).abort
  · exact noted

theorem foldl_cancel (ids : List Nat) (grounded : s.Grounded version journal) :
    (ids.foldl Session.cancel s).Grounded version journal := by
  induction ids generalizing s with
  | nil => exact grounded
  | cons id rest ih => exact ih (grounded.cancel id)

theorem abortListed (grounded : s.Grounded version journal) : s.abortListed.Grounded version journal := by
  refine ⟨List.forall_mem_map.mpr fun stream member => ?_, grounded.waiting⟩
  split
  · exact (grounded.streams stream member).abort
  · exact grounded.streams stream member

theorem sendGoAway (grounded : s.Grounded version journal) (small : s.lastPeer < Frame.idBound) (code : ErrorCode) :
    (s.sendGoAway code).Grounded version journal := by
  unfold Session.sendGoAway
  split
  · exact grounded
  · exact queue (s := { s with goAwaySent := true }) (f := .frame (.goAway s.lastPeer code)) (grounded.same rfl rfl) small 0

/-- Opening a stream puts nothing into the outbox, and the stream holds nothing back. -/
theorem opened (grounded : s.Grounded version journal) {id : Nat} {stream : Stream} (new : s.stream? id = none)
    (own : stream.id = id) (idle : s.executor.stopped = false) (empty : stream.pending = []) (list : List Header)
    (final : Bool) : (addTask id (s.addStream stream list final)).Grounded version journal := by
  rw [addTask_addStream new own idle]
  refine ⟨List.forall_mem_append.mpr ⟨grounded.streams, List.forall_mem_singleton.mpr ?_⟩, grounded.waiting⟩
  refine (Stream.reads_acceptHeaders stream list final).allotted fun c waits => ?_
  rw [empty] at waits
  cases waits

theorem promised (grounded : s.Grounded version s.journal) {stream : Stream} (allowed : s.pushError? stream = none)
    (idle : s.executor.stopped = false) (unused : s.stream? s.nextPush = none) (list : List Header) (priority : Nat) :
    let t := addTask s.nextPush (s.promise stream list priority)
    t.Grounded version t.journal := by
  obtain ⟨-, hopen, -, -, -, small⟩ := of_pushError? allowed
  obtain ⟨new, -, empty, added⟩ := addTask_promise allowed idle unused list priority
  rw [added]
  have earlier := grounded.mono (List.prefix_append s.journal [.queued (.pushPromise stream.id s.nextPush list),
    .accepted s.nextPush (.headers list true), .opened s.nextPush stream.id new.priority (stream.id != 0)])
  refine ⟨List.forall_mem_append.mpr ⟨earlier.streams, List.forall_mem_singleton.mpr fun c waits => ?_⟩, ?_⟩
  · rw [empty] at waits
    cases waits
  · rw [Outbox.entries_push hopen]
    intro e member
    rcases Queue.mem_insert.mp member with rfl | old
    · exact ⟨Nat.lt_succ_of_le small, by simp, by simp⟩
    · exact earlier.waiting e old

end Grounded

/-! ### Steps -/

theorem Kept.grows (kept : Kept s t) : s.journal <+: t.journal := by
  obtain ⟨events, split, -⟩ := kept.journal
  exact ⟨events, split.symm⟩

theorem Limited.grows (limited : Limited s t) : s.journal <+: t.journal := by
  obtain ⟨events, split, -⟩ := Kept.journal limited
  exact ⟨events, split.symm⟩

/-- What may be noted of a change that a journal grounds. -/
theorem Grounded.noted (grounded : t.Grounded version journal) (early : journal <+: t.journal) (e : Event) :
    (t.note e).Grounded version (t.note e).journal :=
  (grounded.mono (early.trans (List.prefix_append ..))).same rfl rfl

/-- The headers that a handler sends are those of the step that is noted. -/
theorem Grounded.sentHeaders (grounded : s.Grounded version s.journal) {id : Nat} {stream stream' : Stream}
    {frames : List Outgoing} (found : s.stream? id = some stream) (index : Nat) {list : List Header} {final : Bool}
    (allowed : stream.sendHeaders list final = .ok (stream', frames)) :
    let t := (s.update stream' frames).note (.stepped id index (.act (.headers list final)) .sent)
    t.Grounded version t.journal := by
  intro t
  obtain ⟨-, -, -, same, rfl⟩ := Stream.of_sendHeaders allowed
  have early : s.journal <+: t.journal := (Kept.update _ _).grows.trans (List.prefix_append ..)
  have earlier := grounded.mono early
  have allotted : stream'.Allotted version t.journal :=
    (earlier.stream found).transfer (by rw [same]) (by rw [same])
  have ground : (Outgoing.headers stream.id list final none).Grounded version t.journal := by
    refine ⟨rfl, index, ?_⟩
    rw [id_of_stream? found]
    exact List.mem_append_right _ (List.mem_singleton_self _)
  exact (earlier.update allotted (List.forall_mem_singleton.mpr ground)).same rfl rfl

/-- The data that a handler sends is cut to the limit that the peer has then. -/
theorem Grounded.sentData (grounded : s.Grounded s.version s.journal)
    (limit : s.pieceLimit = (limitsAfter s.version s.journal).maxFrame) {id : Nat} {stream stream' : Stream}
    {frames : List Outgoing} (found : s.stream? id = some stream) (index : Nat) {bytes : Bytes} {final : Bool}
    (went : stream.sendData bytes final s.pieceLimit = .ok (stream', frames)) :
    let t := (s.update stream' frames).note (.stepped id index (.act (.data bytes final)) .sent)
    t.Grounded s.version t.journal := by
  intro t
  have kept : Kept s (s.update stream' frames) := .update ..
  have same : limitsAfter s.version (s.update stream' frames).journal = limitsAfter s.version s.journal := by
    have after := kept.limitsAfter
    rwa [kept.version] at after
  have positive : 0 < s.pieceLimit := by
    have least := (legal_limitsAfter s.version s.journal).frame.1
    rw [← limit] at least
    exact Nat.lt_of_lt_of_le (by decide) least
  have earlier := grounded.mono (kept.grows.trans (List.prefix_append _ [.stepped id index (.act (.data bytes final)) .sent]))
  have allowed : Allotted s.version t.journal stream.id s.pieceLimit :=
    ⟨(s.update stream' frames).journal, index, bytes, final,
      by rw [id_of_stream? found]; exact List.prefix_refl _, by rw [same, limit]⟩
  obtain ⟨-, -, -, released⟩ := Stream.of_sendData went
  have sent := ((earlier.stream found).withData positive allowed bytes final).release
  rw [← released] at sent
  exact (earlier.update sent.1 sent.2).same rfl rfl

/-- What an action puts into the outbox goes back to the step that is noted. -/
theorem Grounded.acted (grounded : s.Grounded s.version s.journal)
    (limit : s.pieceLimit = (limitsAfter s.version s.journal).maxFrame) {id : Nat} {stream : Stream}
    (found : s.stream? id = some stream) (index : Nat) {action : Action} (plain : s.pushes stream action = false) :
    let t := (perform addTask s stream action).1.note (.stepped id index (.act action) (perform addTask s stream action).2)
    t.Grounded s.version t.journal := by
  intro t
  -- An action that sends nothing is grounded in what was noted before.
  have silent (before : (perform addTask s stream action).1.Grounded s.version s.journal) :
      t.Grounded s.version t.journal := before.noted (Kept.perform stream plain).grows _
  cases action with
  | info => exact silent grounded
  | read => exact silent (grounded.readPart found)
  | readAll =>
    exact silent (grounded.update ((Stream.reads_readUpTo _ stream).allotted (grounded.stream found))
      (Stream.grounded_readUpTo _ stream))
  | headers list final =>
    cases allowed : stream.sendHeaders list final with
    | error e =>
      simp only [perform, send, allowed] at silent
      exact silent grounded
    | ok sent =>
      simp only [t, perform, send, allowed]
      exact grounded.sentHeaders found index allowed
  | data bytes final =>
    cases allowed : stream.sendData bytes final s.pieceLimit with
    | error e =>
      simp only [perform, send, allowed] at silent
      exact silent grounded
    | ok sent =>
      simp only [t, perform, send, allowed]
      exact grounded.sentData limit found index allowed
  | push list priority =>
    obtain ⟨e, refused⟩ : ∃ e, s.pushError? stream = some e := by
      simpa [pushes, Option.isSome_iff_exists] using plain
    simp only [perform, refused] at silent
    exact silent grounded

theorem Move.grounded (h : Move s t) (grounded : s.Grounded s.version s.journal) (stable : s.Stable) (fresh : s.Fresh) :
    t.Grounded s.version t.journal := by
  have grows := h.kept.grows
  -- What ends a handler changes its stream at most, and notes nothing but a reset.
  have ended (e : Event) (id : Nat) (same : s.note e = t ∨ ∃ stream, s.stream? id = some stream ∧
      (s.note e).reset stream ErrorCode.internalError = t) : t.Grounded s.version t.journal := by
    have noted : (s.note e).Grounded s.version s.journal := grounded.same rfl rfl
    obtain rfl | ⟨stream, found, rfl⟩ := same
    · exact noted.mono grows
    · exact (noted.reset found _).mono grows
  cases h with
  | started | parked | unparked => exact (grounded.mono grows).same rfl rfl
  | acted index found plain => exact grounded.acted (congrArg PeerSettings.maxFrame stable.agreed) found index plain
  | promised list priority found allowed =>
    obtain ⟨idle, unused⟩ := stable.unused fresh allowed
    exact grounded.promised allowed idle unused list priority
  | pushed | resumed => exact (grounded.mono grows).same rfl rfl
  | woken p found => exact ((grounded.readPart found).mono grows).same rfl rfl
  | returned id =>
    refine ended (.ended id) id ?_
    unfold Session.returned
    dsimp only
    split
    · next stream found =>
      split
      · exact .inl rfl
      · exact .inr ⟨stream, found, rfl⟩
    · exact .inl rfl
  | brokeDown id =>
    refine ended (.failed id) id ?_
    unfold Session.brokeDown
    dsimp only
    split
    · next stream found => exact .inr ⟨stream, found, rfl⟩
    · exact .inl rfl

theorem Effect.grounded {decoded : Except Hpack.Fault (List Header)} {frame : Frame} (h : Effect s decoded frame t)
    (grounded : s.Grounded version s.journal) (last : s.lastPeer < Frame.idBound) (idle : s.executor.stopped = false)
    (fresh : ∀ id, s.isFresh id → s.stream? id = none) : t.Grounded version t.journal := by
  refine Grounded.mono ?_ h.limited.grows
  cases h with
  | passed => exact grounded
  | breach => exact grounded.sendGoAway last _
  | answered payload => exact grounded.queue (f := .frame (.ping true payload)) trivial 0
  | @adopted params peer =>
    exact Grounded.queue (s := s.adopt peer) (f := .frame (.settings true [])) (grounded.same rfl rfl) ⟨rfl, rfl⟩ 0
  | left | crashed => exact grounded.same rfl rfl
  | @trailed id block priority flags stream found active going list read =>
    have allotted := grounded.stream (of_listed? found)
    exact (grounded.setStream ((Stream.reads_acceptHeaders stream list true).allotted allotted)).same rfl rfl
  | @turnedAway id block final priority flags staying odd new rank =>
    exact Grounded.queue (s := { s with lastPeer := id }) (f := .frame (.reset id ErrorCode.refusedStream))
      (grounded.same rfl rfl) trivial rank
  | @opened id block final priority flags staying odd new room rank list read =>
    have unused : s.stream? id = none := fresh id (isFresh_of_odd odd new)
    exact Grounded.opened (s := { s with lastPeer := id }) (grounded.same rfl rfl) unused rfl idle rfl list final
  | received found going fits =>
    have allotted := grounded.stream (of_active? found).1
    exact (grounded.setStream ((Stream.reads_acceptData fits).allotted allotted)).same rfl rfl
  -- What is released was cut when it was sent, by the limits of that time.
  | @granted id increment stream stream' frames found positive fits =>
    obtain ⟨present, active⟩ := of_active? found
    obtain ⟨-, released⟩ := Stream.of_grant (Stream.isActive_iff.mp active).2 fits
    obtain ⟨rfl, rfl⟩ := Prod.mk.inj released
    have allotted := (grounded.stream present).transfer (t := { stream with
      send := { stream.send with credit := stream.send.credit + increment } }) rfl rfl
    have noted : (s.note (.granted id increment)).Grounded version s.journal := grounded.same rfl rfl
    exact noted.update allotted.release.1 allotted.release.2
  | offended found => exact grounded.reset (of_active? found).1 _
  | hungUp found => exact grounded.setStream (grounded.stream (of_listed? found)).abort

theorem Advance.grows (h : Advance s t) : s.journal <+: t.journal := by
  rcases h.ordinary with ordinary | special
  · obtain ⟨events, split, -⟩ := ordinary.journal
    exact ⟨events, split.symm⟩
  cases special with
  | promised list priority found allowed => exact (Move.promised list priority found allowed).kept.grows
  | @dispatched running frame reader next =>
    exact (List.prefix_append ..).trans (effect_dispatch { s with reader } frame).limited.grows
  | wentAway running code => exact (limited_sendGoAway s code).grows

theorem Numbered.small_lastPeer (numbered : s.Numbered) : s.lastPeer < Frame.idBound := by
  have member : s.lastPeer ∈ 0 :: s.attempts := numbered.last ▸ List.getLastD_mem_cons ..
  rcases List.mem_cons.mp member with none | some
  · exact none ▸ by decide
  · exact Nat.lt_succ_of_le (numbered.odd _ some).2

theorem Advance.grounded (h : Advance s t) (grounded : s.Grounded s.version s.journal) (stable : s.Stable)
    (fresh : s.Fresh) (numbered : s.Numbered) : t.Grounded s.version t.journal := by
  have later := grounded.mono h.grows
  cases h with
  | moved h => exact h.grounded grounded stable fresh
  | began =>
    have sent := sent_write { s with status := .running } ((Frame.settings false (s.config.params s.version)).encode 0)
      .initialWriteFailed
    exact later.same (by rw [sent.rest]) (by rw [sent.rest])
  | polled | counted | arrived | read | pruned | gone | finished => exact later.same rfl rfl
  | @dispatched running frame reader next =>
    obtain ⟨hopen, idle⟩ := stable.running running
    let u : Session := { s with reader }
    have noted : Grounded { u.note (.dispatched frame) with receiveTable := u.tableAfter frame } s.version
        (u.note (.dispatched frame)).journal := (grounded.mono (List.prefix_append ..)).same rfl rfl
    exact (effect_dispatch u frame).grounded noted numbered.small_lastPeer idle fun id unused => (fresh id unused).stream
  | wentAway running code => exact later.sendGoAway numbered.small_lastPeer code
  | @wrote running f outbox next =>
    let frames := (f.wire s.peer.maxFrame s.sendTable).2
    let u : Session := note { s with outbox, sendTable := (f.wire s.peer.maxFrame s.sendTable).1 } (.taken f)
    have sent : Sent u (writeAll frames u) := sent_writeAll frames u
    -- What still waits was waiting before.
    obtain ⟨rank, front, -⟩ := of_pop? next
    have rest : u.Grounded s.version (writeAll frames u).journal :=
      ⟨later.streams, fun e member => later.waiting e (front ▸ List.mem_cons_of_mem _ member)⟩
    exact rest.same (t := writeAll frames u) (by rw [sent.rest]) (by rw [sent.rest])
  | closed =>
    have dropped : Grounded { s with outbox := s.outbox.close } s.version s.journal := ⟨grounded.streams, nofun⟩
    exact dropped.abortListed
  | halted =>
    exact Grounded.foldl_cancel (s := { s with executor := s.executor.stop.1 }) _ (later.same rfl rfl)

section Reached
variable {config : Config} {handlers : Handlers} {schedule : Schedule} {transport : Transport}
  (h : Reaches (start version config handlers schedule transport) t)
include h

/-- Whatever a session holds back goes back to its journal. -/
theorem grounded_start : t.Grounded version t.journal := by
  induction h with
  | refl => exact ⟨nofun, nofun⟩
  | @tail u v earlier last ih =>
    have followed := followed_start earlier
    have same : u.version = version := followed.version
    rw [← same] at ih ⊢
    exact last.grounded ih followed.stable followed.fresh (numbered_start earlier)

end Reached

end Session

end Multiplex
