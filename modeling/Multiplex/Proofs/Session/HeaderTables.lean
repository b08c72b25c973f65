import Multiplex.Proofs.Hpack.Coding
import Multiplex.Proofs.Session.Ending
import Multiplex.Proofs.Session.Ordinary

/-! # The header table of a session

A session reads the header block of each HEADERS frame as soon as it looks at the frame, whatever becomes of
it then, so its table is that of a receiver that has read the same blocks in order, and what streams take in
is what that receiver would have read (`Reaches.abreast`). A PUSH_PROMISE frame is a breach, and its block is
not read: a peer that sends none is understood (`header_tables`), but after one the tables of both ends may
differ (`header_tables_promised`). -/

namespace Multiplex

namespace Event

/-- The header block of a HEADERS frame that a session looks at. -/
def headersBlock? : Event → Option Bytes
  | .dispatched (.headers _ block ..) => some block
  | _ => none

/-- The header block of any frame that a session looks at. -/
def block? : Event → Option Bytes
  | .dispatched (.headers _ block ..) | .dispatched (.pushPromise _ _ block) => some block
  | _ => none

/-- Whether the peer promises a push. -/
def isPromise : Event → Bool
  | .dispatched (.pushPromise ..) => true
  | _ => false

/-- What a stream takes in as headers. -/
def headers? : Event → Option (Nat × List Header × Bool)
  | .accepted id (.headers list final) => some (id, list, final)
  | _ => none

end Event

/-- The header blocks of the HEADERS frames that a session has looked at. -/
def headersBlocks (journal : List Event) : List Bytes := journal.filterMap Event.headersBlock?

/-- The header blocks of all frames that a session has looked at. -/
def blocks (journal : List Event) : List Bytes := journal.filterMap Event.block?

/-- Where the peer promises nothing, only HEADERS frames have header blocks. -/
theorem blocks_eq_headersBlocks {journal : List Event} (unpromised : ∀ e ∈ journal, e.isPromise = false) :
    blocks journal = headersBlocks journal := by
  refine List.filterMap_congr fun e member => ?_
  have plain := unpromised e member
  cases e with
  | dispatched frame => cases frame <;> first | rfl | cases plain
  | _ => rfl

/-- Headers are what a receiver reads in the HEADERS frame that came last. -/
def ReadLast (front : List Event) (id : Nat) (list : List Header) (final : Bool) : Prop :=
  ∃ before block priority flags, front = before ++ [.dispatched (.headers id block final priority flags)] ∧
    (Header.decodeBlock (Header.tableAfter {} (headersBlocks before)) block).2 = .ok list

/-- Headers are those of the request that this end has just promised a reply to. -/
def PromisedLast (front : List Event) (id : Nat) (list : List Header) : Prop :=
  ∃ before parent, front = before ++ [.queued (.pushPromise parent id list)]

/-- Headers that a stream takes in come from where they should. -/
def Sourced (front : List Event) (e : Event) : Prop :=
  ∀ id list final, e.headers? = some (id, list, final) → ReadLast front id list final ∨ PromisedLast front id list

/-! ### What streams take in -/

namespace Stream
variable {s t : Stream}

theorem input_abort (s : Stream) : s.abort.input = s.input := by
  unfold abort
  split <;> rfl

theorem input_reset (s : Stream) (code : ErrorCode) : (s.reset code).1.input = s.input := by
  unfold reset
  split
  · exact input_abort s
  · rfl

theorem input_acceptHeaders (s : Stream) (list : List Header) (final : Bool) :
    ∀ part ∈ (s.acceptHeaders list final).input, part ∈ s.input ∨ part = .headers list final := by
  unfold acceptHeaders
  split
  · exact fun part member => .inl member
  · simp

theorem input_acceptData {bytes : Bytes} {final : Bool} (accepted : s.acceptData bytes final = .ok t) :
    ∀ part ∈ t.input, part ∈ s.input ∨ part = .data bytes final := by
  unfold acceptData at accepted
  split at accepted
  · cases accepted
    exact fun part member => .inl member
  · split at accepted <;> cases accepted
    next charged =>
    unfold charge at charged
    split at charged
    · cases charged
      simp
    · split at charged <;> cases charged
      simp

theorem input_grantBack (s : Stream) (length : Nat) : (s.grantBack length).1.input = s.input := by
  unfold grantBack
  split <;> rfl

theorem input_read (s : Stream) : ∀ part ∈ s.read.1.input, part ∈ s.input := by
  unfold read
  split
  · exact fun part member => member
  · split
    · exact fun part member => member
    · next same => exact fun part member => same ▸ List.mem_cons_of_mem _ member
    · next bytes final rest same =>
      dsimp only
      rw [input_grantBack]
      exact fun part member => same ▸ List.mem_cons_of_mem _ member

theorem input_readUpTo (count : Nat) (s : Stream) : ∀ part ∈ (s.readUpTo count).1.input, part ∈ s.input := by
  induction count generalizing s with
  | zero => exact fun part member => member
  | succ count ih =>
    have first := input_read s
    unfold readUpTo
    split
    · next same =>
      rw [same] at first
      exact first
    · next same =>
      rw [same] at first
      exact fun part member => first part (ih _ part member)

end Stream

namespace Lane
variable {version : Version} {config : Config} {id : Nat} {l l' : Lane}

/-- What waits to be read was taken in. -/
def Supplied (id : Nat) (l : Lane) : Prop :=
  ∀ stream, l.stream = some stream → ∀ part ∈ stream.input, .accepted id part ∈ l.past

theorem Supplied.keep (supplied : l.Supplied id) (past : l.past <+: l'.past)
    (stream : ∀ t, l'.stream = some t → ∃ s, l.stream = some s ∧
      ∀ part ∈ t.input, part ∈ s.input ∨ .accepted id part ∈ l'.past) : l'.Supplied id := by
  intro t found part member
  obtain ⟨s, before, source⟩ := stream t found
  exact (source part member).elim (fun old => past.subset (supplied s before part old)) fun new => new

theorem Step.supplied (h : Step version config id l l') (supplied : l.Supplied id) : l'.Supplied id := by
  have past := h.past.1
  have same (t : Stream) (found : l.stream = some t) :
      ∃ s, l.stream = some s ∧ ∀ part ∈ t.input, part ∈ s.input ∨ .accepted id part ∈ l'.past :=
    ⟨t, found, fun part member => .inl member⟩
  -- The stream is changed to one that waits to read nothing new.
  have less {stream stream' : Stream} (found : l.stream = some stream) (found' : l'.stream = some stream')
      (sub : ∀ part ∈ stream'.input, part ∈ stream.input) : l'.Supplied id := by
    refine supplied.keep past fun t present => ?_
    obtain rfl := Option.some.inj (found'.symm.trans present)
    exact ⟨stream, found, fun part member => .inl (sub part member)⟩
  -- The stream is changed to one that waits to read what has just been taken in.
  have more {stream stream' : Stream} {part : Inbound} (found : l.stream = some stream)
      (found' : l'.stream = some stream') (noted : .accepted id part ∈ l'.past)
      (sub : ∀ p ∈ stream'.input, p ∈ stream.input ∨ p = part) : l'.Supplied id := by
    refine supplied.keep past fun t present => ?_
    obtain rfl := Option.some.inj (found'.symm.trans present)
    refine ⟨stream, found, fun p member => (sub p member).imp_right fun new => ?_⟩
    rw [new]
    exact noted
  cases h with
  | noted | outdated | left | taken | pruned => exact supplied.keep past same
  | announced | refused | promised =>
    rw [queue_rest] at past same ⊢
    exact supplied.keep past same
  | @opened fresh hopen staying proper small parent priority window bounded list final whole =>
    intro t found part member
    obtain rfl := Option.some.inj found
    rcases Stream.input_acceptHeaders _ list final part member with old | rfl
    · cases old
    · simp
  | trailed found active going list =>
    exact more found rfl (by simp [note]) (Stream.input_acceptHeaders _ list true)
  | received found active going fits => exact more found rfl (by simp [note]) (Stream.input_acceptData fits)
  | granted found active positive fits =>
    obtain ⟨-, released⟩ := Stream.of_grant (Stream.isActive_iff.mp active).2 fits
    obtain ⟨rfl, -⟩ := Prod.mk.inj released
    exact less found (stream_put ..) fun part member => member
  | @reset stream found code =>
    exact less found (stream_put ..) (by simp [Stream.input_reset])
  | @hungUp stream found => exact less found rfl (by simp [Stream.input_abort])
  | @read stream found => exact less found (stream_put ..) (Stream.input_read stream)
  | @readAll stream found => exact less found (stream_put ..) (Stream.input_readUpTo _ stream)
  | sentHeaders found index allowed =>
    obtain ⟨-, -, -, rfl, -⟩ := Stream.of_sendHeaders allowed
    exact less found (stream_put ..) fun part member => member
  | sentData found index allowed =>
    obtain ⟨-, -, -, released⟩ := Stream.of_sendData allowed
    obtain ⟨rfl, -⟩ := Prod.mk.inj released
    exact less found (stream_put ..) fun part member => member
  | cancelled =>
    refine supplied.keep past fun t present => ?_
    obtain ⟨old, found, rfl⟩ := Option.map_eq_some_iff.mp present
    exact ⟨old, found, fun part member => .inl (Stream.input_abort old ▸ member)⟩
  | closed =>
    refine supplied.keep past fun t present => ?_
    dsimp only at present
    split at present
    · obtain ⟨old, found, rfl⟩ := Option.map_eq_some_iff.mp present
      exact ⟨old, found, fun part member => .inl (Stream.input_abort old ▸ member)⟩
    · exact same t present

theorem Steps.supplied (h : Steps version config id (empty id) l) : l.Supplied id := by
  induction h with
  | refl => nofun
  | tail _ last ih => exact last.supplied ih

end Lane

namespace Session

variable {s t : Session}

/-! ### The table -/

/-- The table is that of a receiver that has read all HEADERS frames, and streams take in what it read. -/
structure Abreast (s : Session) : Prop where
  table : s.receiveTable = Header.tableAfter {} (headersBlocks s.journal)
  sourced : Chronicle Sourced s.journal

namespace Abreast

theorem start (version : Version) (config : Config) (handlers : Handlers) (schedule : Schedule)
    (transport : Transport) : (Session.start version config handlers schedule transport).Abreast :=
  ⟨rfl, chronicle_nil⟩

theorem note (abreast : s.Abreast) {e : Event} (block : e.headersBlock? = none) (sourced : Sourced s.journal e) :
    (s.note e).Abreast where
  table := by
    simp only [Session.note, headersBlocks, List.filterMap_append, List.filterMap_cons, block, List.filterMap_nil,
      List.append_nil]
    exact abreast.table
  sourced := abreast.sourced.concat sourced

/-- Events that bring no headers change nothing. -/
theorem keep (abreast : s.Abreast) (events : List Event) (journal : t.journal = s.journal ++ events)
    (blocks : ∀ e ∈ events, e.headersBlock? = none) (headers : ∀ e ∈ events, e.headers? = none)
    (table : t.receiveTable = s.receiveTable) : t.Abreast where
  table := by
    have none : events.filterMap Event.headersBlock? = [] := List.filterMap_eq_nil_iff.mpr blocks
    rw [table, journal, headersBlocks, List.filterMap_append, none, List.append_nil]
    exact abreast.table
  sourced := by
    rw [journal]
    refine abreast.sourced.append fun e member front id list final brings => ?_
    rw [headers e member] at brings
    cases brings

theorem ordinary (abreast : s.Abreast) (change : Ordinary s t) : t.Abreast := by
  obtain ⟨-, -, -, table⟩ := change.rest
  obtain ⟨events, journal, ordinary⟩ := change.journal
  refine abreast.keep events journal (fun e member => ?_) (fun e member => ?_) table <;>
  · have plain := ordinary e member
    cases e <;> first | rfl | cases plain

theorem queue (abreast : s.Abreast) (f : Outgoing) (priority : Nat) : (s.queue f priority).Abreast := by
  unfold Session.queue
  split
  · exact abreast
  · exact abreast.keep [.queued f] rfl (by simp [Event.headersBlock?]) (by simp [Event.headers?]) rfl

theorem sendGoAway (abreast : s.Abreast) (code : ErrorCode) : (s.sendGoAway code).Abreast := by
  unfold Session.sendGoAway
  split
  · exact abreast
  · exact queue (s := { s with goAwaySent := true }) ⟨abreast.table, abreast.sourced⟩ _ _

/-- Headers that come from where they should are taken in, and what follows brings none. -/
theorem take (abreast : s.Abreast) {id : Nat} {list : List Header} {final : Bool}
    (source : ReadLast s.journal id list final ∨ PromisedLast s.journal id list) {events : List Event}
    (journal : t.journal = s.journal ++ .accepted id (.headers list final) :: events)
    (blocks : ∀ e ∈ events, e.headersBlock? = none) (headers : ∀ e ∈ events, e.headers? = none)
    (table : t.receiveTable = s.receiveTable) : t.Abreast := by
  have taken : (s.note (.accepted id (.headers list final))).Abreast := by
    refine abreast.note rfl fun id' list' final' brings => ?_
    cases brings
    exact source
  exact taken.keep events (journal.trans (List.append_cons ..)) blocks headers table

theorem promised (abreast : s.Abreast) {stream : Stream} (allowed : s.pushError? stream = none)
    (idle : s.executor.stopped = false) (unused : s.stream? s.nextPush = none) (list : List Header) (priority : Nat) :
    (addTask s.nextPush (s.promise stream list priority)).Abreast := by
  obtain ⟨new, -, -, added⟩ := addTask_promise allowed idle unused list priority
  rw [added]
  have queued : (s.note (.queued (.pushPromise stream.id s.nextPush list))).Abreast := abreast.note rfl nofun
  exact queued.take (.inr ⟨s.journal, stream.id, rfl⟩) (List.append_cons ..) (by simp [Event.headersBlock?])
    (by simp [Event.headers?]) rfl

theorem effect (abreast : s.Abreast) {decoded : Except Hpack.Fault (List Header)} {frame : Frame}
    (h : Effect s decoded frame t) (idle : s.executor.stopped = false)
    (fresh : ∀ id, s.isFresh id → s.stream? id = none)
    (source : ∀ id block final priority flags list, frame = .headers id block final priority flags →
      decoded = .ok list → ReadLast s.journal id list final) : t.Abreast := by
  cases h with
  | passed => exact abreast
  | left | crashed => exact abreast.ordinary (.beside rfl)
  | breach => exact abreast.sendGoAway _
  | answered => exact abreast.ordinary (.queue rfl _)
  | @adopted params peer allowed =>
    have set : Ordinary s (s.adopt peer) := .beside rfl
    exact abreast.ordinary (set.trans (.queue rfl _))
  | @trailed id block priority flags stream found active going list read =>
    obtain rfl : stream.id = id := id_of_stream? (of_listed? found)
    exact abreast.take (.inl (source _ block true priority flags list rfl read)) rfl (by simp) (by simp) rfl
  | received => exact abreast.keep [_] rfl (by simp [Event.headersBlock?]) (by simp [Event.headers?]) rfl
  | @turnedAway id block final priority flags staying odd new rank =>
    exact queue (s := { s with lastPeer := id }) ⟨abreast.table, abreast.sourced⟩ _ _
  | @opened id block final priority flags staying odd new room rank list read =>
    have unused : s.stream? id = none := fresh id (isFresh_of_odd odd new)
    rw [addTask_addStream (s := { s with lastPeer := id }) unused rfl idle]
    exact abreast.take (.inl (source id block final priority flags list rfl read)) rfl
      (by simp [Event.headersBlock?]) (by simp [Event.headers?]) rfl
  | granted found positive fits => exact abreast.ordinary (.grant found fits)
  | offended found other => exact abreast.ordinary (.reset _ other)
  | hungUp => exact abreast.ordinary (.setStream _)

/-- Looking at a frame reads its header block. -/
theorem heard (abreast : s.Abreast) (frame : Frame) :
    ({ s.note (.dispatched frame) with receiveTable := s.tableAfter frame } : Session).Abreast where
  table := by
    cases frame with
    | headers id block =>
      simp only [Session.note, headersBlocks, List.filterMap_append, tableAfter]
      rw [abreast.table]
      exact (Header.tableAfter_append {} (headersBlocks s.journal) block).symm
    | _ =>
      simp only [Session.note, headersBlocks, List.filterMap_append, tableAfter]
      exact abreast.table.trans (congrArg _ (List.append_nil _).symm)
  sourced := abreast.sourced.concat nofun

theorem advance (abreast : s.Abreast) (h : Advance s t) (stable : s.Stable) (fresh : s.Fresh) : t.Abreast := by
  rcases h.ordinary with ordinary | special
  · exact abreast.ordinary ordinary
  cases special with
  | promised list priority found allowed =>
    obtain ⟨idle, unused⟩ := stable.unused fresh allowed
    exact abreast.promised allowed idle unused list priority
  | @dispatched running frame reader next =>
    obtain ⟨hopen, idle⟩ := stable.running running
    have before : ({ s with reader } : Session).Abreast := ⟨abreast.table, abreast.sourced⟩
    refine (before.heard frame).effect (effect_dispatch { s with reader } frame) idle
      (fun id unused => (fresh id unused).stream) ?_
    rintro id block final priority flags list rfl read
    refine ⟨s.journal, block, priority, flags, rfl, ?_⟩
    rw [← abreast.table]
    exact read
  | wentAway running code => exact abreast.sendGoAway code

end Abreast

section Reached
variable {version : Version} {config : Config} {handlers : Handlers} {schedule : Schedule} {transport : Transport}
  (h : Reaches (start version config handlers schedule transport) t)
include h

theorem abreast_start : t.Abreast :=
  h.keeps_from (.start ..) fun earlier last abreast =>
    abreast.advance last (followed_start earlier).stable (followed_start earlier).fresh

/-- What waits to be read on a stream was taken in. -/
theorem supplied_start {id : Nat} {stream : Stream} (found : t.stream? id = some stream) :
    ∀ part ∈ stream.input, .accepted id part ∈ t.journal := fun part member =>
  (List.mem_filter.mp ((steps_start h id).supplied stream found part member)).1

/-- At every moment of every session, whatever becomes of the frames of the peer, the header table is that of a
    receiver that has read the header blocks of all HEADERS frames that the session has looked at, in order.
    What a stream takes in as headers, and so what waits to be read on it, is what that receiver reads in
    the HEADERS frame that has just been looked at, or the request of a push of this end. So if the peer has written
    all its header blocks with one table and has sent no PUSH_PROMISE frame, the table is the one that it had after
    the blocks that the session has looked at, and what a stream takes in is the list that it wrote for that
    frame. -/
theorem header_tables :
    t.receiveTable = Header.tableAfter {} (headersBlocks t.journal) ∧
    (∀ front id list final, front ++ [.accepted id (.headers list final)] <+: t.journal →
      ReadLast front id list final ∨ PromisedLast front id list) ∧
    (∀ id stream, t.stream? id = some stream → ∀ part ∈ stream.input, .accepted id part ∈ t.journal) ∧
    ∀ lists : List (List Header), (∀ list ∈ lists, ∀ h ∈ list, h.IsShort) →
      blocks t.journal <+: (Header.encodeBlocks {} lists).2 → (∀ e ∈ t.journal, e.isPromise = false) →
        t.receiveTable = (Header.encodeBlocks {} (lists.take (blocks t.journal).length)).1 ∧
        ∀ before id block final priority flags list,
          before ++ [.dispatched (.headers id block final priority flags), .accepted id (.headers list final)]
              <+: t.journal →
            lists[(blocks before).length]? = some list := by
  have abreast := abreast_start h
  refine ⟨abreast.table, fun front id list final early => abreast.sourced front _ early id list final rfl,
    fun id stream found => supplied_start h found, ?_⟩
  intro lists short early unpromised
  constructor
  · rw [abreast.table, ← blocks_eq_headersBlocks unpromised]
    exact Header.tableAfter_of_early Hpack.Table.moderate_empty short early
  · intro before id block final priority flags list taken
    rw [List.append_cons] at taken
    have heard : before ++ [.dispatched (.headers id block final priority flags)] <+: t.journal :=
      (List.prefix_append ..).trans taken
    -- The list came from the block right before it; a promise would have to be in the journal.
    obtain ⟨before', block', priority', flags', same, read⟩ | ⟨before', parent, same⟩ :=
      abreast.sourced _ _ taken id list final rfl
    · obtain ⟨rfl, last⟩ := List.append_inj' same rfl
      cases last
      have plain : ∀ e ∈ before, e.isPromise = false := fun e member =>
        unpromised e (heard.subset (List.mem_append_left _ member))
      have next : blocks before ++ [block] <+: (Header.encodeBlocks {} lists).2 := by
        refine List.IsPrefix.trans ?_ early
        have front := heard.filterMap Event.block?
        rwa [List.filterMap_append] at front
      obtain ⟨list', position, own⟩ := Header.decodeBlock_of_early Hpack.Table.moderate_empty short next
      rw [blocks_eq_headersBlocks plain, read] at own
      rw [position, Except.ok.inj own]
    · cases (List.append_inj' same rfl).2

end Reached

/-! ### Two peers -/

/-- What a peer writes with one table: a request, another message, and the trailers of the request. -/
def said : List (List Header) := [[⟨"a", "1"⟩], [⟨"b", "2"⟩], [⟨"b", "2"⟩]]

/-- A session that takes one stream at a time, and whose peer sends the second of its header blocks in the given
    frame. -/
def talk (second : Bytes → Frame) : Session :=
  let block (index : Nat) := (Header.encodeBlocks {} said).2.getD index []
  let frames := [.headers 1 (block 0) false none 0, second (block 1), .headers 1 (block 2) true none 0]
  start .spdy3 { maxStreams := 1 } { others := [.yield, .act .readAll, .act (.headers [] true)] } .atOnce
    { arrivals := [{ bytes := frames.flatMap (Frame.encode 100) }] }

/-- The peer opens a second stream and is turned away: its trailers are understood. -/
theorem header_tables_talk :
    let t := (talk fun block => .headers 3 block true none 0).runToEnd
    t.receiveTable = (Header.encodeBlocks {} said).1 ∧
      ∃ before, before ++ [.dispatched (.headers 1 [190] true none 5), .accepted 1 (.headers [⟨"b", "2"⟩] true)]
          <+: t.journal ∧
        said[(blocks before).length]? = some [⟨"b", "2"⟩] := by
  intro t
  obtain ⟨-, -, -, known⟩ := header_tables (reaches_runToEnd (talk fun block => .headers 3 block true none 0))
  obtain ⟨early, unpromised, all, taken⟩ :
      blocks t.journal <+: (Header.encodeBlocks {} said).2 ∧ (∀ e ∈ t.journal, e.isPromise = false) ∧
        (blocks t.journal).length = said.length ∧
        t.journal.take 9 ++
          [.dispatched (.headers 1 [190] true none 5), .accepted 1 (.headers [⟨"b", "2"⟩] true)] <+: t.journal := by
    decide +kernel
  obtain ⟨table, read⟩ := known said (by decide) early unpromised
  refine ⟨?_, t.journal.take 9, taken, read _ _ _ _ _ _ _ taken⟩
  rw [table, all, List.take_length]

/-- The peer promises a push: its trailers are taken for a header that it sent before. -/
theorem header_tables_promised :
    let t := (talk fun block => .pushPromise 1 2 block).runToEnd
    blocks t.journal = (Header.encodeBlocks {} said).2 ∧ t.receiveTable ≠ (Header.encodeBlocks {} said).1 ∧
      ∃ before, before ++ [.dispatched (.headers 1 [190] true none 5), .accepted 1 (.headers [⟨"a", "1"⟩] true)]
          <+: t.journal ∧
        said[(blocks before).length]? = some [⟨"b", "2"⟩] := by
  intro t
  obtain ⟨all, apart, taken, position⟩ :
      blocks t.journal = (Header.encodeBlocks {} said).2 ∧ t.receiveTable ≠ (Header.encodeBlocks {} said).1 ∧
        t.journal.take 9 ++
          [.dispatched (.headers 1 [190] true none 5), .accepted 1 (.headers [⟨"a", "1"⟩] true)] <+: t.journal ∧
        said[(blocks (t.journal.take 9)).length]? = some [⟨"b", "2"⟩] := by decide +kernel
  exact ⟨all, apart, t.journal.take 9, taken, position⟩

end Session

end Multiplex
