import Multiplex.Proofs.Session.Breaches
import Multiplex.Proofs.Session.Origins

/-! # What GOAWAY tells

A session that goes away tells NO_ERROR or PROTOCOL_ERROR. It tells PROTOCOL_ERROR just if a read has reported an error
or a frame has broken the protocol by then (`goAway_code`). To say what a frame broke, one needs the session that took
it, so the frames of a run are listed together with the sessions that take them (`serveTakes`); the list follows the
rounds of the run, and the journal of the run bears it out (`Truthful.frames`). -/

namespace Multiplex

namespace Event

/-- The frame that a session takes by an event. -/
def frame? : Event → Option Frame
  | .dispatched frame => some frame
  | _ => none

/-- Whether an event neither brings anything of the peer nor announces the end. -/
def isInner : Event → Bool
  | .read .. | .dispatched _ | .queued (.frame (.goAway ..)) => false
  | _ => true

/-- Behind a journal, a read that reports an error has left the decoder with an error; one that goes well has not been
    the first. -/
def Shows (front : List Event) (e : Event) : Prop :=
  ∀ wait status failure, e = .read wait status failure →
    (status = .error → failure.isSome) ∧
    (failure.isSome → status = .success → ∃ wait status failure, .read wait status (some failure) ∈ front)

theorem isInner_of_inner {e : Event} (inner : e.isExchange = false) (silent : e.farewell? = none) : e.isInner := by
  cases e with
  | queued f =>
    cases f with
    | frame frame => cases frame <;> first | rfl | cases silent
    | _ => rfl
  | _ => first | rfl | cases inner

theorem frame?_of_isInner {e : Event} (inner : e.isInner) : e.frame? = none := by
  cases e <;> first | rfl | cases inner

theorem farewell?_of_isInner {e : Event} (inner : e.isInner) : e.farewell? = none := by
  cases e with
  | queued f =>
    cases f with
    | frame frame => cases frame <;> first | rfl | cases inner
    | _ => rfl
  | _ => rfl

theorem shows_of_isInner {e : Event} (inner : e.isInner) (front : List Event) : e.Shows front := by
  rintro wait status failure rfl
  cases inner

end Event

/-- The frames that a session has taken according to its journal. -/
def framesOf (journal : List Event) : List Frame := journal.filterMap Event.frame?

theorem framesOf_append (front back : List Event) : framesOf (front ++ back) = framesOf front ++ framesOf back :=
  List.filterMap_append

/-- If no read reports an error, the first one that leaves the decoder with an error reports the peer's end. -/
theorem failure_of_shows {journal : List Event} (shows_ : Chronicle Event.Shows journal)
    (whole : ∀ wait failure, .read wait .error failure ∉ journal)
    (early : ∀ wait failure, .read wait .closed (some failure) ∉ journal) :
    ∀ wait status failure, .read wait status failure ∈ journal → failure = none := by
  induction journal using List.reverseRecOn with
  | nil => nofun
  | append_singleton front e ih =>
    have before := ih (shows_.of_prefix (List.prefix_append ..))
      (fun wait failure member => whole wait failure (List.mem_append_left _ member))
      (fun wait failure member => early wait failure (List.mem_append_left _ member))
    intro wait status failure member
    rcases List.mem_append.mp member with old | last
    · exact before wait status failure old
    obtain rfl := List.mem_singleton.mp last
    cases failure with
    | none => rfl
    | some failure =>
      cases status with
      | error => exact absurd member (whole wait _)
      | closed => exact absurd member (early wait failure)
      | success =>
        obtain ⟨wait', status', failure', first⟩ := (shows_ front _ (List.prefix_refl _) _ _ _ rfl).2 rfl rfl
        cases before _ _ _ first

namespace Session
variable {s t u : Session}

/-! ### What a run takes -/

/-- The frames that `dispatchUpTo` takes, each with the session that takes it. -/
def takesUpTo : (count : Nat) → Session → List (Session × Frame)
  | 0, _ => []
  | count + 1, s =>
    match s.reader.next? with
    | none => []
    | some (frame, reader) =>
      let t := dispatch spawn { s with reader } frame
      ({ s with reader }, frame) :: if t.isRunning then takesUpTo count t else []

/-- The frames that a round takes. -/
def roundTakes (s : Session) : List (Session × Frame) :=
  let s := s.poll
  if s.transport.isGone then []
  else
    let s := s.prune
    if s.isIdle && s.goAwaySent then []
    else
      let (s, _) := s.readMore s.isIdle
      takesUpTo s.reader.ready.length s

/-- The frames that up to `count` rounds take. -/
def roundsTake : (count : Nat) → Session → List (Session × Frame)
  | 0, _ => []
  | count + 1, s => s.roundTakes ++ if s.round.isRunning then roundsTake count s.round else []

/-- The frames that a session takes from its beginning to its end, each with the session at that moment. -/
def serveTakes (s : Session) : List (Session × Frame) :=
  let first := (Frame.settings false (s.config.params s.version)).encode 0
  let s := { s with status := .running }.write first .initialWriteFailed
  if s.isRunning then roundsTake (s.transport.patience + 1) s else []

/-! ### Inner changes -/

/-- A change in which nothing of the peer is noted and the end is not announced. -/
structure Inner (s t : Session) : Prop where
  failure : t.reader.decoder.failure = s.reader.decoder.failure
  journal : ∃ events, t.journal = s.journal ++ events ∧ ∀ e ∈ events, e.isInner

namespace Inner

theorem of_journal (failure : t.reader.decoder.failure = s.reader.decoder.failure) (same : t.journal = s.journal) :
    Inner s t := ⟨failure, [], same.trans (List.append_nil _).symm, nofun⟩

theorem refl (s : Session) : Inner s s := of_journal rfl rfl

theorem trans (first : Inner s t) (second : Inner t u) : Inner s u where
  failure := second.failure.trans first.failure
  journal := by
    obtain ⟨early, split, inner⟩ := first.journal
    obtain ⟨late, split', inner'⟩ := second.journal
    refine ⟨early ++ late, by rw [split', split, List.append_assoc], fun e member => ?_⟩
    exact (List.mem_append.mp member).elim (inner e) (inner' e)

theorem note (s : Session) {e : Event} (inner : e.isInner) : Inner s (s.note e) :=
  ⟨rfl, [e], rfl, List.forall_mem_singleton.mpr inner⟩

/-- Where GOAWAY is not sent, the end is not announced. -/
theorem of_numbered (before : s.Numbered) (after : t.Numbered) (reader : t.reader = s.reader)
    (goAwaySent : t.goAwaySent = s.goAwaySent) (lastPeer : t.lastPeer = s.lastPeer)
    (noted : ∃ events, t.journal = s.journal ++ events ∧ ∀ e ∈ events, e.isExchange = false) : Inner s t := by
  obtain ⟨events, journal, inner⟩ := noted
  refine ⟨by rw [reader], events, journal, fun e member => Event.isInner_of_inner (inner e member) ?_⟩
  have farewells := farewells_append journal
  rw [after.farewells, before.farewells, goAwaySent, lastPeer] at farewells
  exact List.filterMap_eq_nil_iff.mp (List.self_eq_append_right.mp farewells) e member

theorem kept (change : Kept s t) (before : s.Numbered) (after : t.Numbered) : Inner s t :=
  of_numbered before after (by rw [change.rest]) (by rw [change.rest]) (by rw [change.rest]) change.journal

theorem shutDown (before : s.Numbered) (after : s.shutDown.Numbered) : Inner s s.shutDown := by
  have change := kept_shutDown s
  exact of_numbered before after (by rw [change.rest]; rfl) (by rw [change.rest]; rfl) (by rw [change.rest]; rfl)
    change.journal

theorem write (s : Session) (bytes : Bytes) (reason : StopReason) : Inner s (s.write bytes reason) := by
  unfold Session.write
  split
  · exact ⟨rfl, [.wrote bytes], rfl, List.forall_mem_singleton.mpr rfl⟩
  · exact (note s (e := .writeFailed) rfl).trans (of_journal rfl rfl)

theorem writeAll (frames : List Bytes) (s : Session) : Inner s (writeAll frames s) := by
  induction frames generalizing s with
  | nil => exact refl s
  | cons bytes rest ih =>
    unfold Session.writeAll
    dsimp only
    split
    · exact (write ..).trans (ih _)
    · exact write ..

theorem flushUpTo (count : Nat) (s : Session) : Inner s (flushUpTo count s) := by
  induction count generalizing s with
  | zero => exact refl s
  | succ count ih =>
    unfold Session.flushUpTo
    split
    · exact refl s
    · next f outbox next =>
      have taken (sendTable : Hpack.Table) : Inner s (Session.note { s with outbox, sendTable } (.taken f)) :=
        ⟨rfl, [.taken f], rfl, List.forall_mem_singleton.mpr rfl⟩
      have written : Inner s ({ s with outbox }.writeOutgoing f) := (taken _).trans (writeAll ..)
      dsimp only
      split
      · exact written.trans (ih _)
      · exact written

end Inner

/-! ### Truth -/

/-- Whether, by the end of a journal, a read has reported an error or a frame has broken the protocol. -/
def Faulty (taken : List (Session × Frame)) (front : List Event) : Prop :=
  (∃ wait failure, .read wait .error failure ∈ front) ∨
    ∃ p ∈ taken, p.1.journal ++ [.dispatched p.2] <+: front ∧ p.1.Breaks p.2

/-- Behind a journal, GOAWAY tells whether anything was wrong. -/
def Tells (taken : List (Session × Frame)) (front : List Event) (e : Event) : Prop :=
  ∀ last code, e = .queued (.frame (.goAway last code)) →
    code = ErrorCode.noError ∧ ¬ Faulty taken front ∨ code = ErrorCode.protocolError ∧ Faulty taken front

theorem tells_of_silent {taken : List (Session × Frame)} {e : Event} (silent : e.farewell? = none) (front : List Event) :
    Tells taken front e := by
  rintro last code rfl
  cases silent

/-- A session that has taken `taken`, and whose reads and GOAWAY were true. -/
structure Truthful (taken : List (Session × Frame)) (s : Session) : Prop where
  frames : framesOf s.journal = taken.map (·.2)
  places : ∀ p ∈ taken, p.1.journal ++ [.dispatched p.2] <+: s.journal
  shown : Chronicle Event.Shows s.journal
  failure : s.reader.decoder.failure.isSome → ∃ wait status failure, .read wait status (some failure) ∈ s.journal
  told : Chronicle (Tells taken) s.journal

/-- A session that has not announced the end has seen nothing wrong. -/
def Fair (taken : List (Session × Frame)) (s : Session) : Prop := s.goAwaySent = false → ¬ Faulty taken s.journal

/-- A session that tells the truth, and is to go on doing so. -/
structure Sincere (taken : List (Session × Frame)) (s : Session) : Prop where
  truthful : Truthful taken s
  fair : Fair taken s

section Truthful
variable {taken : List (Session × Frame)}

theorem Sincere.start (version : Version) (config : Config) (handlers : Handlers) (schedule : Schedule)
    (transport : Transport) : Sincere [] (start version config handlers schedule transport) where
  truthful := ⟨rfl, List.forall_mem_nil _, chronicle_nil, nofun, chronicle_nil⟩
  fair := by rintro - (⟨wait, failure, member⟩ | ⟨p, member, -⟩) <;> cases member

/-- What comes in without an error makes nothing wrong that was taken before. -/
theorem Truthful.faulty_append (truthful : Truthful taken s) {events : List Event}
    (fine : ∀ wait failure, .read wait .error failure ∉ events) :
    Faulty taken (s.journal ++ events) ↔ Faulty taken s.journal := by
  refine or_congr (exists₂_congr fun wait failure => ⟨fun member => ?_, List.mem_append_left _⟩) ?_
  · exact (List.mem_append.mp member).resolve_right (fine wait failure)
  · refine exists_congr fun p => and_congr_right fun member => and_congr_left fun _ => ?_
    have early := truthful.places p member
    exact iff_of_true (early.trans (List.prefix_append ..)) early

theorem Truthful.faulty_inner (truthful : Truthful taken s) {events : List Event} (inner : ∀ e ∈ events, e.isInner) :
    Faulty taken (s.journal ++ events) ↔ Faulty taken s.journal :=
  truthful.faulty_append fun wait failure member => by cases inner _ member

theorem Truthful.inner (truthful : Truthful taken s) (change : Inner s t) : Truthful taken t := by
  obtain ⟨events, journal, inner⟩ := change.journal
  constructor
  · have none : framesOf events = [] :=
      List.filterMap_eq_nil_iff.mpr fun e member => Event.frame?_of_isInner (inner e member)
    rw [journal, framesOf_append, none, List.append_nil]
    exact truthful.frames
  · rw [journal]
    exact fun p member => (truthful.places p member).trans (List.prefix_append ..)
  · rw [journal]
    exact truthful.shown.append fun e member front => Event.shows_of_isInner (inner e member) front
  · rw [change.failure, journal]
    intro failed
    obtain ⟨wait, status, failure, member⟩ := truthful.failure failed
    exact ⟨wait, status, failure, List.mem_append_left _ member⟩
  · rw [journal]
    exact truthful.told.append fun e member front => tells_of_silent (Event.farewell?_of_isInner (inner e member)) front

/-- An end that has been announced stays announced. -/
theorem staying_of_append (before : s.Numbered) (after : t.Numbered) {events : List Event}
    (journal : t.journal = s.journal ++ events) (staying : t.goAwaySent = false) : s.goAwaySent = false := by
  have farewells := farewells_append journal
  rw [after.farewells, before.farewells, staying] at farewells
  cases announced : s.goAwaySent with
  | false => rfl
  | true => simp [announced] at farewells

theorem Sincere.inner (sincere : Sincere taken s) (before : s.Numbered) (after : t.Numbered) (change : Inner s t) :
    Sincere taken t := by
  refine ⟨sincere.truthful.inner change, fun staying => ?_⟩
  obtain ⟨events, journal, inner⟩ := change.journal
  rw [journal, sincere.truthful.faulty_inner inner]
  exact sincere.fair (staying_of_append before after journal staying)

/-- Where neither the journal nor the reader nor the announcement of the end changes, nothing does that matters here. -/
theorem Sincere.beside (sincere : Sincere taken s) (journal : t.journal = s.journal) (reader : t.reader = s.reader)
    (goAwaySent : t.goAwaySent = s.goAwaySent) : Sincere taken t where
  truthful := sincere.truthful.inner (.of_journal (by rw [reader]) journal)
  fair := by
    rw [Fair, goAwaySent, journal]
    exact sincere.fair

/-- A session goes away with the truth. -/
theorem Truthful.sendGoAway (truthful : Truthful taken s) {code : ErrorCode}
    (truth : s.goAwaySent = false →
      code = ErrorCode.noError ∧ ¬ Faulty taken s.journal ∨ code = ErrorCode.protocolError ∧ Faulty taken s.journal) :
    Truthful taken (s.sendGoAway code) := by
  unfold Session.sendGoAway
  split
  · exact truthful
  next staying =>
  unfold queue
  split
  · exact ⟨truthful.frames, truthful.places, truthful.shown, truthful.failure, truthful.told⟩
  constructor
  · show framesOf (s.journal ++ [_]) = _
    rw [framesOf_append]
    exact (List.append_nil _).trans truthful.frames
  · exact fun p member => (truthful.places p member).trans (List.prefix_append ..)
  · exact truthful.shown.concat nofun
  · intro failed
    obtain ⟨wait, status, failure, member⟩ := truthful.failure failed
    exact ⟨wait, status, failure, List.mem_append_left _ member⟩
  · refine truthful.told.concat fun last code' same => ?_
    cases same
    exact truth (by simpa using staying)

theorem goAwaySent_sendGoAway (s : Session) (code : ErrorCode) : (s.sendGoAway code).goAwaySent = true := by
  unfold sendGoAway
  split
  · assumption
  · exact congrArg Session.goAwaySent (Kept.queue (s := { s with goAwaySent := true }) ..).rest

theorem fair_sendGoAway (s : Session) (code : ErrorCode) : Fair taken (s.sendGoAway code) := fun staying => by
  rw [goAwaySent_sendGoAway] at staying
  cases staying

/-! ### Reads -/

/-- What a read does: its tasks take their steps, and then the bytes are read. -/
theorem readMore_cases (numbered : ∀ {t : Session}, Reaches s t → t.Numbered) (running : s.status = .running)
    (wait : Bool) : ∃ u reader, Reaches s u ∧ Inner s u ∧
      (s.readMore wait).1 = note { u with reader } (.read wait (s.readMore wait).2 reader.decoder.failure) ∧
      ((s.readMore wait).2 = .error → reader.decoder.failure.isSome) ∧
      (reader.decoder.failure.isSome → (s.readMore wait).2 = .success → u.reader.decoder.failure.isSome) := by
  unfold readMore
  split
  · exact ⟨s, s.reader, .refl s, .refl s, rfl, nofun, fun failed _ => failed⟩
  · next a arrivals first =>
    let v : Session := { s with transport := { s.transport with arrivals } }
    have moves : Moves v (a.resumes.elim v v.resumeReader) := moves_elim_resumeReader v a.resumes
    have arrived : Reaches s v := .single (.arrived running first)
    have went : Reaches s (a.resumes.elim v v.resumeReader) := arrived.trans (.of_moves moves)
    have stepped : Inner v (a.resumes.elim v v.resumeReader) := .kept moves.kept (numbered arrived) (numbered went)
    have first : Inner s v := .of_journal rfl rfl
    have status (reader : Frame.Reader) :
        let fed := if a.bytes.isEmpty then reader else reader.feed a.bytes
        let refused := !a.bytes.isEmpty && fed.decoder.failure.isSome
        let status : ReadStatus := if a.closed then .closed else if refused then .error else .success
        (status = .error → fed.decoder.failure.isSome) ∧
          (fed.decoder.failure.isSome → status = .success → reader.decoder.failure.isSome) := by
      cases a.bytes.isEmpty <;> cases a.closed <;> simp +contextual [Option.isSome_iff_ne_none]
    exact ⟨_, _, went, first.trans stepped, rfl, (status _).1, (status _).2⟩

/-! ### Frames -/

/-- A frame that is taken later was not taken before. -/
theorem faulty_more {front : List Event} (early : front <+: s.journal) (here : u.journal = s.journal) (frame : Frame) :
    Faulty (taken ++ [(u, frame)]) front ↔ Faulty taken front := by
  have late : ¬ u.journal ++ [.dispatched frame] <+: front := fun before => by
    have := (before.trans early).length_le
    rw [here, List.length_append] at this
    exact Nat.not_succ_le_self _ this
  simp [Faulty, or_and_right, exists_or, late]

theorem Truthful.faulty_noted (truthful : Truthful taken s) (here : u.journal = s.journal) (frame : Frame) :
    Faulty (taken ++ [(u, frame)]) (s.journal ++ [.dispatched frame]) ↔ Faulty taken s.journal ∨ u.Breaks frame := by
  have before : Faulty taken (s.journal ++ [.dispatched frame]) ↔ Faulty taken s.journal :=
    truthful.faulty_append (by simp)
  rw [← before]
  simp [Faulty, or_and_right, exists_or, or_assoc, here]

/-- What has been told stays true when more is taken. -/
theorem Truthful.more (truthful : Truthful taken s) (here : u.journal = s.journal) (frame : Frame) :
    Chronicle (Tells (taken ++ [(u, frame)])) s.journal := by
  rintro front e early last code same
  rw [faulty_more ((List.prefix_append ..).trans early) here]
  exact truthful.told front e early last code same

theorem decoder_next? {reader : Frame.Reader} {frame : Frame} (next : s.reader.next? = some (frame, reader)) :
    reader.decoder = s.reader.decoder := by
  unfold Frame.Reader.next? at next
  split at next
  · cases next
  · cases next
    rfl

theorem Truthful.noted (truthful : Truthful taken s) {frame : Frame} {reader : Frame.Reader}
    (next : s.reader.next? = some (frame, reader)) :
    Truthful (taken ++ [({ s with reader }, frame)]) (({ s with reader } : Session).noted frame) where
  frames := by
    show framesOf (s.journal ++ [.dispatched frame]) = _
    rw [framesOf_append, truthful.frames, List.map_append]
    rfl
  places := by
    refine List.forall_mem_append.mpr ⟨fun p member => ?_, List.forall_mem_singleton.mpr (List.prefix_refl _)⟩
    exact (truthful.places p member).trans (List.prefix_append ..)
  shown := truthful.shown.concat nofun
  failure failed := by
    have failed : s.reader.decoder.failure.isSome := decoder_next? next ▸ failed
    obtain ⟨wait, status, failure, member⟩ := truthful.failure failed
    exact ⟨wait, status, failure, List.mem_append_left _ member⟩
  told := by
    have earlier : Chronicle (Tells (taken ++ [({ s with reader }, frame)])) s.journal :=
      truthful.more (u := { s with reader }) rfl frame
    exact earlier.concat (tells_of_silent rfl s.journal)

/-! ### Runs -/

section Reached
variable {version : Version} {config : Config} {handlers : Handlers} {schedule : Schedule} {transport : Transport}
  (h : Reaches (Session.start version config handlers schedule transport) s)
include h

/-- Nothing but a breach makes the session announce the end. -/
theorem inner_dispatch (running : s.status = .running) {frame : Frame} {reader : Frame.Reader}
    (next : s.reader.next? = some (frame, reader)) (fair : ¬ ({ s with reader } : Session).Breaks frame) :
    Inner (({ s with reader } : Session).noted frame) (dispatch spawn { s with reader } frame) := by
  have taken : Reaches s (dispatch addTask { s with reader } frame) := .single (.dispatched running next)
  have launched := numbered_start (h.trans (reaches_dispatch running next))
  have limited := (effect_dispatch { s with reader } frame).limited
  obtain ⟨events, journal, silent⟩ := silent_dispatch fair
  obtain ⟨events', journal', inner⟩ := Kept.journal limited
  obtain rfl := List.append_cancel_left (journal.symm.trans journal')
  refine .trans ⟨congrArg (·.decoder.failure) limited.reader, events, journal, fun e member => ?_⟩
    (.kept (moves_dispatch launches_spawn _ frame).kept (numbered_start (h.trans taken)) launched)
  exact Event.isInner_of_inner (inner e member) (silent e member)

theorem truthful_dispatch (running : s.status = .running) {frame : Frame} {reader : Frame.Reader}
    (next : s.reader.next? = some (frame, reader)) (truthful : Truthful taken s) :
    let taken' := taken ++ [({ s with reader }, frame)]
    let t := dispatch spawn { s with reader } frame
    Truthful taken' t ∧ (Fair taken s → Fair taken' t) := by
  intro taken' t
  have noted : Truthful taken' (({ s with reader } : Session).noted frame) := truthful.noted next
  have whole : Faulty taken' (s.journal ++ [.dispatched frame]) ↔
      Faulty taken s.journal ∨ ({ s with reader } : Session).Breaks frame :=
    truthful.faulty_noted (u := { s with reader }) rfl frame
  -- A breach announces the end at once, before any task runs; without one, neither frame nor tasks announce it.
  by_cases breaks : ({ s with reader } : Session).Breaks frame
  · have broken : t = (({ s with reader } : Session).noted frame).protocolError := dispatch_breaks spawn breaks
    rw [broken]
    exact ⟨noted.sendGoAway fun _ => .inr ⟨rfl, whole.mpr (.inr breaks)⟩, fun _ => fair_sendGoAway _ _⟩
  · have inner : Inner (({ s with reader } : Session).noted frame) t := inner_dispatch h running next breaks
    refine ⟨noted.inner inner, fun fair staying => ?_⟩
    obtain ⟨events, journal, all⟩ := inner.journal
    have longer : t.journal = s.journal ++ (.dispatched frame :: events) := journal.trans (List.append_assoc ..)
    have after := numbered_start (h.trans (reaches_dispatch running next))
    rw [journal, noted.faulty_inner all]
    intro faulty
    exact (whole.mp faulty).elim (fair (staying_of_append (numbered_start h) after longer staying)) breaks

theorem truthful_dispatchUpTo (count : Nat) (running : s.status = .running) (truthful : Truthful taken s) :
    Truthful (taken ++ takesUpTo count s) (dispatchUpTo count s) ∧
      (Fair taken s → Fair (taken ++ takesUpTo count s) (dispatchUpTo count s)) := by
  induction count generalizing s taken with
  | zero =>
    rw [takesUpTo, List.append_nil]
    exact ⟨truthful, id⟩
  | succ count ih =>
    cases next : s.reader.next? with
    | none =>
      simp only [takesUpTo, dispatchUpTo, next, List.append_nil]
      exact ⟨truthful, id⟩
    | some taking =>
      obtain ⟨frame, reader⟩ := taking
      obtain ⟨first, fair⟩ := truthful_dispatch h running next truthful
      simp only [takesUpTo, dispatchUpTo, next]
      split
      · next still =>
        obtain ⟨rest, fair'⟩ := ih (h.trans (reaches_dispatch running next)) (isRunning_iff.mp still) first
        rw [List.append_assoc] at rest fair'
        exact ⟨rest, fun before => fair' (fair before)⟩
      · exact ⟨first, fair⟩

/-- A session that has read with an error is not to go on without telling. -/
theorem truthful_readMore (running : s.status = .running) (wait : Bool) (sincere : Sincere taken s) :
    Truthful taken (s.readMore wait).1 ∧ ((s.readMore wait).2 ≠ .error → Fair taken (s.readMore wait).1) ∧
      ((s.readMore wait).2 = .error → ∃ w failure, .read w .error failure ∈ (s.readMore wait).1.journal) := by
  obtain ⟨u, reader, went, inner, whole, failed, first⟩ :=
    readMore_cases (fun went => numbered_start (h.trans went)) running wait
  rw [whole]
  generalize (s.readMore wait).2 = status at failed first
  obtain ⟨earlier, fair⟩ := sincere.inner (numbered_start h) (numbered_start (h.trans went)) inner
  refine ⟨⟨?_, fun p member => ?_, ?_, fun failed => ?_, ?_⟩, fun fine staying => ?_, fun bad => ?_⟩
  · show framesOf (u.journal ++ [_]) = _
    rw [framesOf_append]
    exact (List.append_nil _).trans earlier.frames
  · exact (earlier.places p member).trans (List.prefix_append ..)
  · refine earlier.shown.concat fun wait' status' failure' same => ?_
    cases same
    exact ⟨failed, fun some success => earlier.failure (first some success)⟩
  · obtain ⟨failure, found⟩ := Option.isSome_iff_exists.mp failed
    exact ⟨wait, status, failure, List.mem_append_right _ (List.mem_singleton.mpr (by rw [← found]; rfl))⟩
  · exact earlier.told.concat (tells_of_silent rfl _)
  -- A read without an error is no fault.
  · show ¬ Faulty taken (u.journal ++ [_])
    have other (wait' : Bool) (failure : Option DecodeError) :
        .read wait' .error failure ∉ [Event.read wait status reader.decoder.failure] := fun member => by
      cases List.mem_singleton.mp member
      exact fine rfl
    rw [earlier.faulty_append other]
    exact fair staying
  · subst bad
    exact ⟨wait, _, List.mem_append_right _ (List.mem_singleton_self _)⟩

/-- What a read brought is taken, and the session is sincere if it goes on. -/
theorem truthful_takeInput (running : s.status = .running) {status : ReadStatus} (truthful : Truthful taken s)
    (fair : status ≠ .error → Fair taken s) (bad : status = .error → ∃ w failure, .read w .error failure ∈ s.journal) :
    let taken' := taken ++ takesUpTo s.reader.ready.length s
    Truthful taken' (s.takeInput status) ∧ ((s.takeInput status).isRunning → Fair taken' (s.takeInput status)) := by
  intro taken'
  obtain ⟨rest, fair'⟩ : Truthful taken' s.dispatchReady ∧ (Fair taken s → Fair taken' s.dispatchReady) :=
    truthful_dispatchUpTo h s.reader.ready.length running truthful
  unfold takeInput
  dsimp only
  split
  · next halted => exact ⟨rest, fun still => absurd still (by simpa using halted)⟩
  cases status with
  | success => exact ⟨rest, fun _ => fair' (fair nofun)⟩
  | error =>
    obtain ⟨wait, failure, member⟩ := bad rfl
    have grown : s.journal <+: s.dispatchReady.journal :=
      (reaches_dispatchUpTo s.reader.ready.length running).keeps (P := fun t => s.journal <+: t.journal)
        (List.prefix_refl _) fun last early => early.trans last.grows
    -- A breach among the frames may have been faster, and has told the same.
    have faulty : Faulty taken' s.dispatchReady.journal := .inl ⟨wait, failure, grown.subset member⟩
    exact ⟨rest.sendGoAway fun _ => .inr ⟨rfl, faulty⟩, fun _ => fair_sendGoAway _ _⟩
  | closed =>
    obtain ⟨pruned, still⟩ : Sincere taken' s.dispatchReady.prune :=
      Sincere.beside ⟨rest, fair' (fair nofun)⟩ rfl rfl rfl
    dsimp only
    split
    · exact ⟨pruned.sendGoAway fun staying => .inl ⟨rfl, still staying⟩, fun _ => fair_sendGoAway _ _⟩
    · exact ⟨pruned, fun _ => still⟩

theorem inner_poll (running : s.status = .running) : Inner s s.poll := by
  have polled : Reaches s (s.note .polled) := .single (.polled running)
  have stepped : Inner (s.note .polled) (s.note .polled).resumePolled.runScheduled :=
    .kept (moves_poll s).kept (numbered_start (h.trans polled))
      (numbered_start (h.trans (polled.trans (.of_moves (moves_poll s)))))
  exact ((Inner.note s rfl).trans stepped).trans (.of_journal rfl rfl)

/-- What goes out before the next round is no matter. -/
theorem sincere_flush (running : s.status = .running) (sincere : Sincere taken s) : Sincere taken s.flush :=
  sincere.inner (numbered_start h) (numbered_start (h.trans (reaches_flush running))) (.flushUpTo _ s)

/-- A session stays sincere in a round as long as it goes on. -/
theorem truthful_round (running : s.status = .running) (sincere : Sincere taken s) :
    Truthful (taken ++ s.roundTakes) s.round ∧ (s.round.isRunning → Fair (taken ++ s.roundTakes) s.round) := by
  obtain ⟨went, polled⟩ := reaches_poll running
  have first : Sincere taken s.poll :=
    sincere.inner (numbered_start h) (numbered_start (h.trans went)) (inner_poll h running)
  unfold round roundTakes
  dsimp only
  split
  · rw [List.append_nil]
    exact ⟨first.truthful.inner (.of_journal rfl rfl), nofun⟩
  split
  · rw [List.append_nil]
    exact ⟨first.truthful.inner (.of_journal rfl rfl), nofun⟩
  -- The session goes on, so it reads: what it takes in this round comes from here.
  have pruned : Reaches s s.poll.prune := went.trans (.single (.pruned polled))
  obtain ⟨read, still⟩ := reaches_readMore (s := s.poll.prune) polled s.poll.prune.isIdle
  obtain ⟨truthful, fair, bad⟩ :=
    truthful_readMore (h.trans pruned) (s := s.poll.prune) polled s.poll.prune.isIdle (first.beside rfl rfl rfl)
  generalize s.poll.prune.readMore s.poll.prune.isIdle = p at read still truthful fair bad ⊢
  obtain ⟨u, status⟩ := p
  obtain ⟨taking, fair⟩ := truthful_takeInput (h.trans (pruned.trans read)) still truthful fair bad
  have taken' := (pruned.trans read).trans (reaches_takeInput still status)
  dsimp only at taking fair taken' ⊢
  split
  · next halted => exact ⟨taking, fun going => absurd going (by simpa using halted)⟩
  next going =>
  replace going : (u.takeInput status).isRunning := by simpa using going
  have flushed := sincere_flush (h.trans taken') (isRunning_iff.mp going) ⟨taking, fair going⟩
  split
  · next halted => exact ⟨flushed.truthful, fun going => absurd going (by simpa using halted)⟩
  split
  · exact ⟨flushed.truthful.inner (.of_journal rfl rfl), nofun⟩
  · obtain ⟨truthful, fair⟩ : Sincere _ (u.takeInput status).flush.prune := flushed.beside rfl rfl rfl
    exact ⟨truthful, fun _ => fair⟩

theorem truthful_rounds (count : Nat) (running : s.status = .running) (sincere : Sincere taken s) :
    Truthful (taken ++ roundsTake count s) (rounds count s) := by
  induction count generalizing s taken with
  | zero =>
    rw [roundsTake, List.append_nil]
    exact sincere.truthful
  | succ count ih =>
    obtain ⟨first, fair⟩ := truthful_round h running sincere
    have went : Reaches s s.round := (reaches_poll running).1.trans (reaches_round running)
    rw [roundsTake, rounds, ← List.append_assoc]
    split
    · next still => exact ih (h.trans went) (isRunning_iff.mp still) ⟨first, fair still⟩
    · rw [List.append_nil]
      exact first

end Reached

theorem truthful_serve (version : Version) (config : Config) (handlers : Handlers) (schedule : Schedule)
    (transport : Transport) :
    let run := Session.start version config handlers schedule transport
    Truthful run.serveTakes run.serve := by
  intro run
  let opening : Session := { run with status := .running }
  let first := (Frame.settings false (run.config.params run.version)).encode 0
  have began : Reaches run (opening.write first .initialWriteFailed) := .single (.began rfl)
  have inner : Inner run (opening.write first .initialWriteFailed) :=
    Inner.trans (t := opening) (.of_journal rfl rfl) (.write ..)
  have sincere := (Sincere.start version config handlers schedule transport).inner (.start ..) (numbered_start began) inner
  unfold serve serveTakes
  dsimp only
  split
  · next still =>
    let count := (opening.write first .initialWriteFailed).transport.patience + 1
    have rest := truthful_rounds began count (isRunning_iff.mp still) sincere
    rwa [List.nil_append] at rest
  · exact sincere.truthful

theorem truthful_runToEnd (version : Version) (config : Config) (handlers : Handlers) (schedule : Schedule)
    (transport : Transport) :
    let run := Session.start version config handlers schedule transport
    Truthful run.serveTakes run.runToEnd := by
  intro run
  have served : Truthful run.serveTakes run.serve := truthful_serve version config handlers schedule transport
  have ready : run.status = .ready := rfl
  by_cases crashed : run.serve.status = .crashed
  · have ended : run.runToEnd = run.serve := by simp [runToEnd, ready, crashed]
    exact ended ▸ served
  · have ended : run.runToEnd = run.serve.shutDown := by simp [runToEnd, ready, crashed]
    have after : run.serve.shutDown.Numbered := ended ▸ numbered_start (reaches_runToEnd run)
    exact ended ▸ served.inner (.shutDown (numbered_start (reaches_serve ready).1) after)

/-- GOAWAY tells NO_ERROR or PROTOCOL_ERROR: the latter just if a read has reported an error or a frame has broken the
    protocol before it went into the outbox, whatever the read has reported that brought the frame. So it tells whether
    anything that was read could not be decoded or broke the protocol, as long as no read that reported the peer's end
    left the decoder with an error. -/
theorem goAway_code (version : Version) (config : Config) (handlers : Handlers) (schedule : Schedule)
    (transport : Transport) :
    let run := Session.start version config handlers schedule transport
    let journal := run.runToEnd.journal
    (framesOf journal = run.serveTakes.map (·.2) ∧
      ∀ p ∈ run.serveTakes, p.1.journal ++ [.dispatched p.2] <+: journal) ∧
    ∀ front last code, front ++ [.queued (.frame (.goAway last code))] <+: journal →
      let proper := ∀ p ∈ run.serveTakes, p.1.journal ++ [.dispatched p.2] <+: front → ¬ p.1.Breaks p.2
      (code = ErrorCode.noError ∨ code = ErrorCode.protocolError) ∧
      (code = ErrorCode.noError ↔ (∀ wait failure, .read wait .error failure ∉ front) ∧ proper) ∧
      ((∀ wait failure, .read wait .closed (some failure) ∉ front) →
        (code = ErrorCode.noError ↔
          (∀ wait status failure, .read wait status failure ∈ front → failure = none) ∧ proper)) := by
  intro run journal
  have truthful : Truthful run.serveTakes run.runToEnd := truthful_runToEnd version config handlers schedule transport
  refine ⟨⟨truthful.frames, truthful.places⟩, ?_⟩
  intro front last code early proper
  have told := truthful.told front _ early last code rfl
  have whole : ¬ Faulty run.serveTakes front ↔ (∀ wait failure, .read wait .error failure ∉ front) ∧ proper := by
    simp [Faulty, proper]
  have shown : Chronicle Event.Shows front := fun front' e prior =>
    truthful.shown front' e (prior.trans ((List.prefix_append ..).trans early))
  -- The code tells of a fault, and the recorder has every fault there was before it.
  have told_iff : code = ErrorCode.noError ↔ ¬ Faulty run.serveTakes front := by
    rcases told with ⟨rfl, fine⟩ | ⟨rfl, faulty⟩
    · exact iff_of_true rfl fine
    · exact iff_of_false (by decide) (not_not.mpr faulty)
  refine ⟨told.imp And.left And.left, told_iff.trans whole, fun orderly => told_iff.trans (whole.trans ?_)⟩
  refine and_congr_left fun _ => ?_
  refine ⟨fun fine => failure_of_shows shown fine orderly, fun clean wait failure member => ?_⟩
  obtain ⟨before, prior, shows_⟩ := shown.of_mem member
  have failed := (shows_ _ _ _ rfl).1 rfl
  rw [clean wait _ failure member] at failed
  cases failed

end Truthful

/-- A session whose peer sends bytes and closes its side with them. -/
def parting (bytes : Bytes) : Session :=
  start .spdy3 {} {} .atOnce { arrivals := [{ bytes, closed := true }] }

/-- What GOAWAY was sent for is a frame that came with the peer's end. -/
theorem goAway_code_parting :
    let run := parting ((Frame.data 1 [] true).encode 0)
    ∃ front, front ++ [.queued (.frame (.goAway 0 ErrorCode.protocolError))] <+: run.runToEnd.journal ∧
      .read true .closed none ∈ front ∧
      ∃ p ∈ run.serveTakes, p.1.journal ++ [.dispatched p.2] <+: front ∧ p.1.Breaks p.2 := by
  intro run
  let front := run.runToEnd.journal.take 4
  have next : run.runToEnd.journal[4]? = some (.queued (.frame (.goAway 0 ErrorCode.protocolError))) := by
    decide +kernel
  have early : front ++ [.queued (.frame (.goAway 0 ErrorCode.protocolError))] <+: run.runToEnd.journal := by
    have whole : run.runToEnd.journal.take 5 <+: run.runToEnd.journal := List.take_prefix ..
    rwa [List.take_add_one, next] at whole
  have reads : front.filter (· matches .read ..) = [.read true .closed none] := by decide +kernel
  have fine {wait : Bool} {status : ReadStatus} {failure : Option DecodeError}
      (member : .read wait status failure ∈ front) : failure = none := by
    have read : Event.read wait status failure ∈ front.filter (· matches .read ..) :=
      List.mem_filter.mpr ⟨member, rfl⟩
    rw [reads, List.mem_singleton] at read
    cases read
    rfl
  refine ⟨front, early, by decide +kernel, ?_⟩
  obtain ⟨-, -, told⟩ := (goAway_code ..).2 front 0 _ early
  have broken := mt (told fun wait failure member => by cases fine member).mpr (by decide)
  by_contra proper
  exact broken ⟨fun _ _ _ => fine, fun p taken before breaks => proper ⟨p, taken, before, breaks⟩⟩

/-- Bytes that cannot be decoded, but come with the peer's end, go without blame. -/
theorem goAway_code_garbage :
    let run := parting (List.replicate 16 0xff)
    ∃ front, front ++ [.queued (.frame (.goAway 0 ErrorCode.noError))] <+: run.runToEnd.journal ∧
      .read true .closed (some (.frameTooLarge 16777215 16384)) ∈ front := by
  intro run
  have next : run.runToEnd.journal[3]? = some (.queued (.frame (.goAway 0 ErrorCode.noError))) := by decide +kernel
  refine ⟨run.runToEnd.journal.take 3, ?_, by decide +kernel⟩
  have whole : run.runToEnd.journal.take 4 <+: run.runToEnd.journal := List.take_prefix ..
  rwa [List.take_add_one, next] at whole

end Session

end Multiplex
