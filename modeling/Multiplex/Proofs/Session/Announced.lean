import Multiplex.Proofs.Session.Decoding
import Multiplex.Proofs.Session.Settings
import Multiplex.Proofs.Session.StopReasons

/-! # What a session announces, and what it lives by

The first frame of a session announces its limits, and then its decoder and the windows of its streams keep to the
configuration. The decoder brings the frame limit into the legal range, the announcement does not; the announcement cuts
a window down to the largest one, the streams do not. So the announced limits are acceptable to a peer, and are those
that the session lives by, just for the configurations that are in the legal range (`Session.announced_limits`). -/

namespace Multiplex

open Frame.Decoder (leastLimit greatestLimit clampLimit)

/-! ### Announcements -/

/-- A parameter is acceptable just if it is taken in, whatever came before it. -/
theorem Setting.acceptable_iff {version : Version} {p : Setting} :
    p.Acceptable version ↔ ∀ s : PeerSettings, ∃ after, s.apply version p = .ok after := by
  constructor
  · exact fun acceptable s => ⟨_, s.apply_acceptable acceptable⟩
  · intro taken
    by_contra wrong
    obtain ⟨after, applied⟩ := taken {}
    obtain ⟨e, failed⟩ := PeerSettings.apply_unacceptable {} wrong
    rw [applied] at failed
    cases failed

namespace Config

variable (c : Config) (version : Version)

/-- The largest payload that the peer may send, as it is announced: the usual one if nothing is said of it. -/
def announcedFrame : Nat := (Setting.last? Setting.maxFrameSize (c.params version)).getD leastLimit

/-- The announced window of the peer on each stream. -/
def announcedWindow? : Option Nat := Setting.last? Setting.initialWindow (c.params version)

/-- The frame limit is one that may be announced. -/
def FrameLegal : Prop := leastLimit ≤ c.maxFrame.toNat ∧ c.maxFrame.toNat ≤ greatestLimit

instance : Decidable c.FrameLegal := inferInstanceAs (Decidable (_ ∧ _))

/-- The parameters that are announced, one by one. -/
theorem mem_params {p : Setting} :
    p ∈ c.params version ↔ p = { id := Setting.maxConcurrentStreams, value := c.maxStreams } ∨
      version.hasFlowControl ∧
        p = { id := Setting.initialWindow, value := UInt32.ofNat (min c.window.toNat maxWindow) } ∨
      c.maxFrame.toNat ≠ leastLimit ∧ p = { id := Setting.maxFrameSize, value := c.maxFrame } := by
  unfold params
  split <;> split <;> simp [*]

theorem announcedFrame_eq : c.announcedFrame version = c.maxFrame.toNat := by
  have apart : Setting.maxConcurrentStreams ≠ Setting.maxFrameSize := by decide
  have apart' : Setting.initialWindow ≠ Setting.maxFrameSize := by decide
  unfold announcedFrame Setting.last? params
  by_cases usual : c.maxFrame.toNat = leastLimit
  · cases version <;> simp [Version.hasFlowControl, usual, apart, apart']
  · simp [usual]

theorem toNat_min_maxWindow (window : Nat) : (UInt32.ofNat (min window maxWindow)).toNat = min window maxWindow :=
  UInt32.toNat_ofNat_of_lt' (Nat.lt_of_le_of_lt (Nat.min_le_right ..) (by decide))

theorem announcedWindow?_eq :
    c.announcedWindow? version = if version.hasFlowControl then some (min c.window.toNat maxWindow) else none := by
  have apart : Setting.maxConcurrentStreams ≠ Setting.initialWindow := by decide
  have apart' : Setting.maxFrameSize ≠ Setting.initialWindow := by decide
  have value := toNat_min_maxWindow c.window.toNat
  unfold announcedWindow? Setting.last? params
  cases version <;> by_cases usual : c.maxFrame.toNat = leastLimit <;>
    simp [Version.hasFlowControl, usual, apart, apart', value]

/-- All that is announced is acceptable just if the frame limit is legal and there is a window at all. -/
theorem acceptable_params :
    (∀ p ∈ c.params version, p.Acceptable version) ↔
      c.FrameLegal ∧ (version.hasFlowControl → 0 < c.window.toNat) := by
  have streams : Setting.Acceptable version { id := Setting.maxConcurrentStreams, value := c.maxStreams } := by
    simp +decide [Setting.Acceptable]
  have frame : Setting.Acceptable version { id := Setting.maxFrameSize, value := c.maxFrame } ↔ c.FrameLegal := by
    simp +decide [Setting.Acceptable, FrameLegal, leastLimit, greatestLimit]
  have window : Setting.Acceptable version
      { id := Setting.initialWindow, value := UInt32.ofNat (min c.window.toNat maxWindow) } ↔
        version.hasFlowControl ∧ 0 < c.window.toNat := by
    have positive : 0 < maxWindow := by decide
    simp +decide only [Setting.Acceptable, toNat_min_maxWindow]
    constructor
    · rintro ⟨legal, -⟩
      obtain ⟨flow, least, -⟩ := legal trivial
      exact ⟨flow, by omega⟩
    · rintro ⟨flow, some⟩
      exact ⟨fun _ => ⟨flow, by omega⟩, False.elim, False.elim⟩
  constructor
  · intro all
    refine ⟨?_, fun flow => (window.mp (all _ ((mem_params c version).mpr (.inr (.inl ⟨flow, rfl⟩))))).2⟩
    by_cases usual : c.maxFrame.toNat = leastLimit
    · exact ⟨usual.ge, usual.le.trans (by decide)⟩
    · exact frame.mp (all _ ((mem_params c version).mpr (.inr (.inr ⟨usual, rfl⟩))))
  · rintro ⟨legal, some⟩ p member
    rcases (mem_params c version).mp member with rfl | ⟨flow, rfl⟩ | ⟨-, rfl⟩
    · exact streams
    · exact window.mpr ⟨flow, some flow⟩
    · exact frame.mpr legal

end Config

theorem clampLimit_eq_iff {limit : Nat} : clampLimit limit = limit ↔ leastLimit ≤ limit ∧ limit ≤ greatestLimit := by
  unfold clampLimit leastLimit greatestLimit
  omega

namespace Session

variable {s t u : Session}

/-! ### New streams -/

/-- The receive window of a new stream. -/
def firstWindow? (s : Session) : Option ReceiveWindow :=
  if s.version.hasFlowControl then some { room := s.config.window.toNat } else none

/-- A step adds a stream with its first receive window. -/
structure Adds (s t : Session) (new : Stream) : Prop where
  unused : s.stream? new.id = none
  streams : t.streams = s.streams ++ [new]
  receive : new.receive = s.firstWindow?

theorem receive_acceptHeaders (stream : Stream) (list : List Header) (final : Bool) :
    (stream.acceptHeaders list final).receive = stream.receive := by
  unfold Stream.acceptHeaders
  split <;> rfl

theorem adds_addTask {id : Nat} (unused : s.stream? id = none) (idle : s.executor.stopped = false)
    (parent rank : Nat) (list : List Header) (final : Bool) :
    Adds s (addTask id (s.addStream (s.newStream id parent rank) list final))
      ((s.newStream id parent rank).acceptHeaders list final) where
  unused := by rwa [(Stream.reads_acceptHeaders _ list final).id]
  streams := congrArg Session.streams (addTask_addStream unused rfl idle list final)
  receive := receive_acceptHeaders ..

theorem adds_promise (stream : Stream) (idle : s.executor.stopped = false)
    (unused : s.stream? s.nextPush = none) (list : List Header) (priority : Nat) :
    ∃ new, Adds s (addTask s.nextPush (s.promise stream list priority)) new := by
  let q : Session :=
    { s with nextPush := s.nextPush + 2 }.queue (.pushPromise stream.id s.nextPush list) stream.priority
  have kept : Kept { s with nextPush := s.nextPush + 2 } q := .queue ..
  have streams : q.streams = s.streams := streams_queue ..
  have free : q.stream? s.nextPush = none := by rwa [stream?, streams]
  have adds := adds_addTask free (kept.stopped.trans idle) stream.id (min priority Priority.lowest) list true
  have version : q.version = s.version := kept.version
  have config : q.config = s.config := kept.config
  refine ⟨_, ?_, adds.streams.trans (by rw [streams]), adds.receive.trans ?_⟩
  · rw [(Stream.reads_acceptHeaders _ list true).id]
    exact unused
  · rw [firstWindow?, version, config]
    rfl

theorem Effect.adds {decoded : Except Hpack.Fault (List Header)} {frame : Frame} (h : Effect s decoded frame t)
    (idle : s.executor.stopped = false) (fresh : ∀ id, s.isFresh id → s.stream? id = none) :
    t.streams.map (·.id) = s.streams.map (·.id) ∨ ∃ new, Adds s t new := by
  cases h with
  | passed | left | crashed => exact .inl rfl
  | breach => exact .inl (by rw [protocolError, streams_sendGoAway])
  | answered | turnedAway => exact .inl (by rw [streams_queue])
  | adopted => exact .inl (by rw [streams_queue, adopt])
  | trailed | received | hungUp => exact .inl (Ordinary.setStream _).ids
  | granted found positive fits => exact .inl (Ordinary.grant found fits).ids
  | offended found other => exact .inl (Ordinary.reset _ other).ids
  | @opened id block final priority flags staying odd new room rank list read =>
    have unused : s.stream? id = none := fresh id (isFresh_of_odd odd new)
    obtain ⟨unused, streams, receive⟩ := adds_addTask (s := { s with lastPeer := id }) unused idle 0 rank list final
    exact .inr ⟨_, unused, streams, receive⟩

/-- A step leaves the streams that there are, or adds one. -/
theorem Advance.adds (h : Advance s t) (stable : s.Stable) (fresh : s.Fresh) :
    t.streams.map (·.id) = s.streams.map (·.id) ∨ ∃ new, Adds s t new := by
  rcases h.ordinary with ordinary | special
  · exact .inl ordinary.ids
  cases special with
  | promised list priority found allowed =>
    obtain ⟨idle, unused⟩ := stable.unused fresh allowed
    exact .inr (adds_promise _ idle unused list priority)
  | @dispatched running frame reader next =>
    obtain ⟨-, idle⟩ := stable.running running
    rcases (effect_dispatch { s with reader } frame).adds idle (fun id unused => (fresh id unused).stream) with
      same | ⟨new, unused, streams, receive⟩
    · exact .inl same
    · exact .inr ⟨new, unused, streams, receive⟩
  | wentAway running code =>
    exact .inl (by rw [streams_sendGoAway])

/-- A stream started in a step of the run, with `window`. -/
def Started (s t : Session) (id : Nat) (window : Option ReceiveWindow) : Prop :=
  ∃ u v first, Reaches s u ∧ Advance u v ∧ Reaches v t ∧ u.stream? id = none ∧ v.stream? id = some first ∧
    first.receive = window

theorem Started.advance {id : Nat} {window : Option ReceiveWindow} (started : Started s t id window)
    (h : Advance t u) : Started s u id window := by
  obtain ⟨v, w, first, earlier, step, later, rest⟩ := started
  exact ⟨v, w, first, earlier, step, later.trans (.single h), rest⟩

theorem Adds.stream? {new : Stream} (adds : Adds s t new) : t.stream? new.id = some new := by
  have absent : s.streams.find? (·.id == new.id) = none := adds.unused
  rw [Session.stream?, adds.streams, List.find?_append, absent]
  simp

section Reached
variable {version : Version} {config : Config} {handlers : Handlers} {schedule : Schedule} {transport : Transport}
  (h : Reaches (start version config handlers schedule transport) t)
include h

theorem limit_start : t.reader.decoder.limit = clampLimit config.maxFrame.toNat := by
  obtain ⟨wire, read⟩ := hasRead_start h
  have config : t.config = config := (followed_start h).config
  have decoder : ((Frame.Decoder.start t.config.maxFrame.toNat).feed wire).1 = t.reader.decoder :=
    congrArg Prod.fst read
  rw [← decoder, Frame.Decoder.limit_feed, config]
  rfl

/-- Every stream started with the configured window, if there is flow control. -/
theorem started_start : ∀ id ∈ t.streams.map (·.id), Started (start version config handlers schedule transport) t id
    (if version.hasFlowControl then some { room := config.window.toNat } else none) := by
  induction h with
  | refl => exact nofun
  | @tail u v earlier last ih =>
    intro id member
    have followed := followed_start earlier
    rcases last.adds followed.stable followed.fresh with same | ⟨new, adds⟩
    · exact (ih id (same ▸ member)).advance last
    rw [adds.streams, List.map_append, List.map_singleton] at member
    rcases List.mem_append.mp member with old | single
    · exact (ih id old).advance last
    · obtain rfl := List.mem_singleton.mp single
      refine ⟨u, v, new, earlier, last, .refl v, adds.unused, adds.stream?, adds.receive.trans ?_⟩
      rw [firstWindow?, followed.version, followed.config]
      rfl

/-- What a session reads and writes begins with the parameters of the configuration. A peer takes them in just if the
    frame limit is legal and, with flow control, the window is not empty. The decoder goes by the announced frame limit
    at all moments just if that is legal. With flow control every stream starts with the configured window, which is
    the announced one just if it is at most the largest; without there are no windows, and none is announced. -/
theorem announced_limits :
    (t.transfers = [] ∨ t.transfers = [.writeFailed] ∨
      ∃ later, t.transfers = .wrote ((Frame.settings false (config.params version)).encode 0) :: later) ∧
    ((∀ p ∈ config.params version, ∀ peer : PeerSettings, ∃ after, peer.apply version p = .ok after) ↔
      config.FrameLegal ∧ (version.hasFlowControl → 0 < config.window.toNat)) ∧
    (t.reader.decoder.limit = config.announcedFrame version ↔ config.FrameLegal) ∧
    (∀ stream ∈ t.streams, Started (start version config handlers schedule transport) t stream.id
      (if version.hasFlowControl then some { room := config.window.toNat } else none)) ∧
    (version.hasFlowControl → (config.announcedWindow? version = some config.window.toNat ↔
      config.window.toNat ≤ maxWindow)) ∧
    (version.hasFlowControl = false → config.announcedWindow? version = none) := by
  have transferred := transferred_start h
  refine ⟨?_, ?_, ?_, ?_, ?_, ?_⟩
  · by_cases ready : t.status = .ready
    · exact .inl (transferred.ready ready)
    by_cases refused : t.status = .stopped .initialWriteFailed
    · exact .inr (.inl (transferred.refused refused))
    by_cases broken : t.status = .stopped .writeFailed
    · obtain ⟨later, all, -⟩ := transferred.broken broken
      exact .inr (.inr ⟨_, all⟩)
    · obtain ⟨later, all, -⟩ := transferred.whole ⟨ready, refused, broken⟩
      exact .inr (.inr ⟨_, all⟩)
  · rw [← Config.acceptable_params]
    exact forall₂_congr fun p _ => Setting.acceptable_iff.symm
  · rw [limit_start h, config.announcedFrame_eq version]
    exact clampLimit_eq_iff
  · exact fun stream member => started_start h stream.id (List.mem_map_of_mem member)
  · intro flow
    rw [config.announcedWindow?_eq version, if_pos flow, Option.some_inj]
    omega
  · intro without
    rw [config.announcedWindow?_eq version, if_neg (by simp [without])]

end Reached

/-- A session of the given configuration whose peer opens one stream. -/
def welcome (config : Config) : Session :=
  start .spdy3 config {} .never { arrivals := [{ bytes := (Frame.headers 1 [] false none 0).encode 1 }], patience := 2 }

/-- A legal configuration: its limits are acceptable, and the session lives by them. -/
theorem announced_limits_legal :
    let config : Config := { window := 4, maxFrame := 20000 }
    let t := (welcome config).runToEnd
    (∀ p ∈ config.params .spdy3, ∀ peer : PeerSettings, ∃ after, peer.apply .spdy3 p = .ok after) ∧
      t.reader.decoder.limit = config.announcedFrame .spdy3 ∧ Started (welcome config) t 1 (some { room := 4 }) ∧
      config.announcedWindow? .spdy3 = some 4 := by
  intro config t
  obtain ⟨-, accepted, limit, windows, announced, -⟩ := announced_limits (reaches_runToEnd (welcome config))
  have legal : config.FrameLegal := by decide
  obtain ⟨stream, found⟩ : ∃ stream, t.stream? 1 = some stream := Option.isSome_iff_exists.mp (by decide +kernel)
  have started := windows stream (List.mem_of_find?_eq_some found)
  rw [id_of_stream? found] at started
  exact ⟨accepted.mpr ⟨legal, fun _ => by decide⟩, limit.mpr legal, started, (announced rfl).mpr (by decide)⟩

/-- Configurations beyond the legal range. A frame limit of 2^24 is announced, but a peer does not accept it, and the
    decoder goes by one less. An empty window is announced, but not accepted either. A window of 2^32 - 1 is announced
    as the largest, and a stream starts with all of it. -/
theorem announced_limits_illegal :
    (let config : Config := { maxFrame := 16777216 };
      let p : Setting := { id := Setting.maxFrameSize, value := 16777216 };
      p ∈ config.params .spdy3 ∧ ({} : PeerSettings).apply .spdy3 p = .error (.invalidMaxFrameSize 16777216) ∧
        config.announcedFrame .spdy3 = 16777216 ∧ (welcome config).runToEnd.reader.decoder.limit = 16777215) ∧
    (let config : Config := { window := 0 };
      let p : Setting := { id := Setting.initialWindow, value := 0 };
      p ∈ config.params .spdy3 ∧ ({} : PeerSettings).apply .spdy3 p = .error (.invalidInitialWindow 0)) ∧
    (let config : Config := { window := 0xffffffff };
      config.announcedWindow? .spdy3 = some 0x7fffffff ∧
        ((welcome config).runToEnd.stream? 1).map (·.receive) = some (some { room := 0xffffffff })) := by
  refine ⟨⟨by decide, by decide, by decide, by decide +kernel⟩, ⟨by decide, by decide⟩, by decide, by decide +kernel⟩

end Session

end Multiplex
