import Multiplex.Proofs.Session.Turns

/-! # Settings, as a whole or not at all

A list of parameters is taken in if each of them is acceptable, wherever it stands (`PeerSettings.applyAll_acceptable`),
and then the last value of each identifier counts (`PeerSettings.foldl_set`). A session that takes SETTINGS lives by the
new limits in everything that it does afterwards, and acknowledges them once; SETTINGS with a parameter that is not
acceptable leave the limits alone (`Session.settings_whole`). -/

namespace Multiplex

/-! ### Parameters -/

namespace Setting

/-- Whether the peer may announce a parameter, whatever it has announced before. -/
def Acceptable (version : Version) (p : Setting) : Prop :=
  (p.id = initialWindow → version.hasFlowControl ∧ 1 ≤ p.value.toNat ∧ p.value.toNat ≤ maxWindow) ∧
    (p.id = enablePush → p.value.toNat ≤ 1) ∧
    (p.id = maxFrameSize → 16384 ≤ p.value.toNat ∧ p.value.toNat ≤ 16777215)

instance (version : Version) (p : Setting) : Decidable (p.Acceptable version) :=
  inferInstanceAs (Decidable (_ ∧ _ ∧ _))

/-- The value that `params` gives last to an identifier. -/
def last? (id : UInt16) (params : List Setting) : Option Nat :=
  (params.reverse.find? (·.id = id)).map (·.value.toNat)

theorem last?_append (id : UInt16) (params : List Setting) (p : Setting) :
    last? id (params ++ [p]) = if p.id = id then some p.value.toNat else last? id params := by
  rw [last?, List.reverse_append, List.reverse_singleton, List.singleton_append, List.find?_cons]
  by_cases same : p.id = id
  · simp [same]
  · simp [same, last?]

end Setting

namespace PeerSettings

/-- The limits after one parameter, if it is acceptable. -/
def set (s : PeerSettings) (p : Setting) : PeerSettings :=
  if p.id = Setting.initialWindow then { s with window := p.value.toNat }
  else if p.id = Setting.enablePush then { s with enablePush := p.value.toNat = 1 }
  else if p.id = Setting.maxFrameSize then { s with maxFrame := p.value.toNat }
  else s

/-- An acceptable parameter is taken in. -/
theorem apply_acceptable (s : PeerSettings) {version : Version} {p : Setting} (acceptable : p.Acceptable version) :
    s.apply version p = .ok (s.set p) := by
  obtain ⟨window, push, frame⟩ := acceptable
  unfold apply set
  split
  · next same =>
    obtain ⟨flow, least, greatest⟩ := window same
    rw [if_neg (by simp [flow]), if_neg (by omega)]
  split
  · next same => rw [if_neg (Nat.not_lt.mpr (push same))]
  split
  · next same =>
    obtain ⟨least, greatest⟩ := frame same
    rw [if_neg (by simp only [Frame.Decoder.leastLimit, Frame.Decoder.greatestLimit]; omega)]
  · rfl

/-- A parameter that is not acceptable is refused. -/
theorem apply_unacceptable (s : PeerSettings) {version : Version} {p : Setting} (wrong : ¬ p.Acceptable version) :
    ∃ e, s.apply version p = .error e := by
  cases applied : s.apply version p with
  | error e => exact ⟨e, rfl⟩
  | ok after =>
    refine absurd ?_ wrong
    unfold apply at applied
    refine ⟨fun same => ?_, fun same => ?_, fun same => ?_⟩
    · rw [if_pos same] at applied
      split at applied
      · cases applied
      next flow =>
      split at applied
      · cases applied
      next inside => exact ⟨by simpa using flow, by omega, by omega⟩
    · rw [if_neg (by rw [same]; decide), if_pos same] at applied
      split at applied
      · cases applied
      next inside => exact Nat.not_lt.mp inside
    · rw [if_neg (by rw [same]; decide), if_neg (by rw [same]; decide), if_pos same] at applied
      split at applied
      · cases applied
      next inside =>
        simp only [Frame.Decoder.leastLimit, Frame.Decoder.greatestLimit] at inside
        omega

/-- Acceptable parameters are all taken in, from left to right. -/
theorem applyAll_acceptable (s : PeerSettings) {version : Version} {params : List Setting}
    (acceptable : ∀ p ∈ params, p.Acceptable version) : s.applyAll version params = .ok (params.foldl set s) := by
  induction params generalizing s with
  | nil => rfl
  | cons p rest ih =>
    obtain ⟨first, others⟩ := List.forall_mem_cons.mp acceptable
    rw [applyAll, apply_acceptable s first]
    exact ih (s.set p) others

/-- One parameter that is not acceptable, wherever it stands, makes all of them refused. -/
theorem applyAll_unacceptable (s : PeerSettings) {version : Version} {params : List Setting}
    (wrong : ∃ p ∈ params, ¬ p.Acceptable version) : ∃ e, s.applyAll version params = .error e := by
  induction params generalizing s with
  | nil => simp at wrong
  | cons p rest ih =>
    rw [applyAll]
    cases applied : s.apply version p with
    | error e => exact ⟨e, rfl⟩
    | ok after =>
      refine ih after ?_
      obtain ⟨q, member, refused⟩ := wrong
      rcases List.mem_cons.mp member with rfl | later
      · obtain ⟨e, failed⟩ := s.apply_unacceptable refused
        rw [failed] at applied
        cases applied
      · exact ⟨q, later, refused⟩

/-- Of several values of one identifier the last counts. -/
theorem foldl_set (s : PeerSettings) (params : List Setting) :
    params.foldl set s =
      { enablePush := ((Setting.last? Setting.enablePush params).map fun value => decide (value = 1)).getD s.enablePush,
        window := (Setting.last? Setting.initialWindow params).getD s.window,
        maxFrame := (Setting.last? Setting.maxFrameSize params).getD s.maxFrame } := by
  -- From the back, because the last parameter overrides what stands before it.
  induction params using List.reverseRecOn with
  | nil => rfl
  | append_singleton params p ih =>
    simp only [List.foldl_append, List.foldl_cons, List.foldl_nil, ih, Setting.last?_append, set]
    have apart : Setting.initialWindow ≠ Setting.enablePush ∧ Setting.initialWindow ≠ Setting.maxFrameSize ∧
        Setting.enablePush ≠ Setting.maxFrameSize := by decide
    by_cases window : p.id = Setting.initialWindow
    · simp [window, apart]
    by_cases push : p.id = Setting.enablePush
    · simp [push, apart, apart.1.symm]
    by_cases frame : p.id = Setting.maxFrameSize
    · simp [frame, apart.2.1.symm, apart.2.2.symm]
    · simp [window, push, frame]

/-- The window of a peer is never empty. -/
theorem window_applyAll {limits after : PeerSettings} {version : Version} {params : List Setting}
    (positive : 1 ≤ limits.window) (applied : limits.applyAll version params = .ok after) : 1 ≤ after.window := by
  by_cases acceptable : ∀ p ∈ params, p.Acceptable version
  · rw [limits.applyAll_acceptable acceptable, foldl_set] at applied
    cases applied
    dsimp only [Setting.last?]
    cases found : params.reverse.find? (·.id = Setting.initialWindow) with
    | none => exact positive
    | some p =>
      have member := List.mem_reverse.mp (List.mem_of_find?_eq_some found)
      exact ((acceptable p member).1 (by simpa using List.find?_some found)).2.1
  · obtain ⟨e, failed⟩ := limits.applyAll_unacceptable (by simpa using acceptable)
    rw [failed] at applied
    cases applied

end PeerSettings

/-! ### Sessions -/

namespace Session

/-- A session goes by the given limits: it keeps them, new streams and handlers see the same ones, its new streams
    start with their window, and its handlers cut data, are allowed to push and have their frames written as they
    say. -/
structure LivesBy (s : Session) (limits : PeerSettings) : Prop where
  own : s.peer = limits
  window : s.newWindow = limits.window
  pieceLimit : s.pieceLimit = limits.maxFrame
  mayPush : s.mayPush = limits.enablePush
  windows : ∀ id parent priority,
    (s.newStream id parent priority).send = .start limits.window s.version.hasFlowControl
  pieces : ∀ launch stream bytes final,
    perform launch s stream (.data bytes final) = s.send (stream.sendData bytes final limits.maxFrame)
  pushes : ∀ stream, s.pushError? stream = none ↔
    limits.enablePush ∧ { s with mayPush := true }.pushError? stream = none
  frames : ∀ f, s.writeOutgoing f = writeAll (f.wire limits.maxFrame s.sendTable).2
    ({ s with sendTable := (f.wire limits.maxFrame s.sendTable).1 }.note (.taken f))

/-- A push is refused for the limits of the peer alone if it would be allowed otherwise. -/
theorem pushError?_iff (s : Session) (stream : Stream) :
    s.pushError? stream = none ↔ s.mayPush ∧ { s with mayPush := true }.pushError? stream = none := by
  unfold pushError?
  cases s.mayPush with
  | true => simp [isDraining]
  | false =>
    simp only [isDraining, Bool.not_false, Bool.or_true, Bool.true_or, if_true, Bool.false_eq_true, false_and, iff_false]
    split_ifs <;> nofun

/-- A session whose copies agree with the limits that it keeps goes by these. -/
theorem LivesBy.of_copies {s : Session} {limits : PeerSettings} (own : s.peer = limits) (copies : s.copies = limits) :
    s.LivesBy limits := by
  have window : s.newWindow = limits.window := congrArg PeerSettings.window copies
  have pieceLimit : s.pieceLimit = limits.maxFrame := congrArg PeerSettings.maxFrame copies
  have mayPush : s.mayPush = limits.enablePush := congrArg PeerSettings.enablePush copies
  exact
    { own, window, pieceLimit, mayPush
      windows := fun _ _ _ => by rw [newStream, window]
      pieces := fun _ _ _ _ => by rw [perform, pieceLimit]
      pushes := fun stream => mayPush ▸ s.pushError?_iff stream
      frames := fun _ => by rw [writeOutgoing, own] }

theorem window_limitsAfter (version : Version) (journal : List Event) :
    1 ≤ (limitsAfter version journal).window := by
  induction journal using List.reverseRecOn with
  | nil => exact (by decide : 1 ≤ ({} : PeerSettings).window)
  | append_singleton journal e ih =>
    rw [limitsAfter_append]
    unfold Event.adjust
    split
    · split
      · next went => exact PeerSettings.window_applyAll ih went
      · exact ih
    · exact ih

/-! ### What is put into an open outbox -/

section Queued
variable {s : Session} (hopen : s.outbox.closed = false)
include hopen

theorem queued_queue (f : Outgoing) (priority : Nat) : (s.queue f priority).queued = s.queued ++ [f] := by
  rw [queue_of_open hopen, queued, List.filterMap_append]
  rfl

theorem queued_sendGoAway (code : ErrorCode) :
    (s.sendGoAway code).queued = s.queued ++ if s.goAwaySent then [] else [.frame (.goAway s.lastPeer code)] := by
  unfold sendGoAway
  split
  · exact (List.append_nil _).symm
  · exact queued_queue (s := { s with goAwaySent := true }) hopen _ 0

end Queued

variable {version : Version} {config : Config} {handlers : Handlers} {schedule : Schedule} {transport : Transport}

/-- Whatever a session has reached, it lives by the limits of the SETTINGS that it has accepted, and these are in their
    ranges. SETTINGS that are acceptable throughout are adopted from left to right and acknowledged once; others change
    no limit and are not acknowledged. Neither touches a stream. -/
theorem settings_whole {s : Session} (h : Reaches (start version config handlers schedule transport) s) :
    (s.LivesBy (limitsAfter version s.journal) ∧ (1 ≤ s.peer.window ∧ s.peer.window ≤ 2 ^ 31 - 1) ∧
      16384 ≤ s.peer.maxFrame ∧ s.peer.maxFrame ≤ 2 ^ 24 - 1) ∧
    ∀ launch params, let t := dispatch launch s (.settings false params)
      ((∀ p ∈ params, p.Acceptable version) →
        t.LivesBy (params.foldl PeerSettings.set s.peer) ∧ t.streams = s.streams ∧
        (s.isRunning → t.outbox = s.outbox.push (.frame (.settings true [])) 0 ∧
          t.queued = s.queued ++ [.frame (.settings true [])])) ∧
      ((∃ p ∈ params, ¬ p.Acceptable version) →
        t.LivesBy s.peer ∧ t.streams = s.streams ∧
        (s.isRunning → t.queued = s.queued ++
          if s.goAwaySent then [] else [.frame (.goAway s.lastPeer ErrorCode.protocolError)])) := by
  obtain ⟨stable, -, ours, -⟩ := followed_start h
  replace ours : s.version = version := ours
  have limits : s.peer = limitsAfter version s.journal := ours ▸ stable.limits
  have legal := legal_limitsAfter version s.journal
  refine ⟨⟨.of_copies limits (stable.copies.trans limits), ?_, ?_⟩, fun launch params => ⟨fun acceptable => ?_, fun wrong => ?_⟩⟩
  · rw [limits]
    exact ⟨window_limitsAfter version s.journal, legal.window⟩
  · rw [limits]
    exact legal.frame
  · let noted := s.note (.dispatched (.settings false params))
    let adopting : Session := noted.adopt (params.foldl PeerSettings.set s.peer)
    have adopted : dispatch launch s (.settings false params) = adopting.queue (.frame (.settings true [])) 0 :=
      dispatch_settings (ours ▸ s.peer.applyAll_acceptable acceptable)
    rw [adopted]
    refine ⟨.of_copies (Kept.queue ..).peer (Kept.queue ..).copies, streams_queue .., fun running => ?_⟩
    have hopen : adopting.outbox.closed = false := (stable.running (isRunning_iff.mp running)).1
    have unqueued : adopting.queued = s.queued := (queued_append rfl).trans (List.append_nil _)
    rw [queued_queue hopen, unqueued, queue_of_open hopen]
    exact ⟨rfl, rfl⟩
  · let noted := s.note (.dispatched (.settings false params))
    -- One parameter that is refused is enough: the fold stops there and its result is thrown away.
    obtain ⟨e, failed⟩ := s.peer.applyAll_unacceptable wrong
    have refused : dispatch launch s (.settings false params) = noted.protocolError := by
      simp [dispatch, onSettings, noted, note, ours, failed]
    rw [refused]
    refine ⟨.of_copies (peer_sendGoAway ..) ((copies_sendGoAway ..).trans stable.copies), streams_sendGoAway .., fun running => ?_⟩
    have hopen : noted.outbox.closed = false := (stable.running (isRunning_iff.mp running)).1
    have unqueued : noted.queued = s.queued := (queued_append rfl).trans (List.append_nil _)
    rw [protocolError, queued_sendGoAway hopen, unqueued]
    rfl

/-- A session whose peer grants new streams a window of 1000 bytes. -/
def modest : Session :=
  start .spdy3 {} {} .atOnce
    { arrivals := [{ bytes := (Frame.settings false [{ id := Setting.initialWindow, value := 1000 }]).encode 0 }] }

/-- Of two frame limits the later one is adopted; a window before a bad push flag is not. -/
theorem settings_whole_modest :
    ∃ s, Reaches modest s ∧ s.isRunning ∧
      (let good : List Setting :=
          [{ id := Setting.maxFrameSize, value := 20000 }, { id := Setting.enablePush, value := 0 },
            { id := Setting.maxFrameSize, value := 16384 }]
        let t := dispatch spawn s (.settings false good)
        t.peer = { enablePush := false, window := 1000, maxFrame := 16384 } ∧
          t.queued = s.queued ++ [.frame (.settings true [])]) ∧
      let bad : List Setting :=
        [{ id := Setting.initialWindow, value := 70000 }, { id := Setting.enablePush, value := 2 }]
      let t := dispatch spawn s (.settings false bad)
      t.peer = s.peer ∧ t.queued = s.queued ++ [.frame (.goAway 0 ErrorCode.protocolError)] := by
  have began : Reaches modest _ := .single (.began rfl)
  set s := { modest with status := .running }.write _ .initialWriteFailed
  have running : s.status = .running := by decide +kernel
  have went : Reaches modest s.round := began.trans ((reaches_poll running).1.trans (reaches_round running))
  have going : s.round.isRunning := by decide +kernel
  have granted : s.round.peer = { window := 1000 } := by decide +kernel
  obtain ⟨-, whole⟩ := settings_whole went
  refine ⟨s.round, went, going, ?_, ?_⟩
  · intro good t
    obtain ⟨lives, -, once⟩ := (whole spawn good).1 (by simp only [good]; decide)
    refine ⟨lives.own.trans ?_, (once going).2⟩
    rw [granted]
    rfl
  · intro bad t
    obtain ⟨lives, -, once⟩ := (whole spawn bad).2 (by simp only [bad]; decide)
    refine ⟨lives.own, (once going).trans ?_⟩
    rw [show s.round.goAwaySent = false by decide +kernel, show s.round.lastPeer = 0 by decide +kernel]
    rfl

end Session

end Multiplex
