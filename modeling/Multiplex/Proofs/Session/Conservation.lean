import Mathlib.Data.List.Perm.Subperm
import Multiplex.Proofs.Session.Numbers
import Multiplex.Proofs.Session.Sendings
import Multiplex.Proofs.Session.WireGrammar

/-! # No frame is lost or made up

What was taken out of the outbox, and what waits there, is what was put in, each frame as often (`Conserved`), until
the outbox is closed and drops what waits. A closed outbox takes in nothing and gives nothing (`Step.sealed`). -/

namespace Multiplex

/-- The frame that an event puts into the outbox. -/
def Event.queued? : Event → Option Outgoing
  | .queued f => some f
  | _ => none

theorem Event.eq_of_queued? {e : Event} {f : Outgoing} (queued : e.queued? = some f) : e = .queued f := by
  cases e with
  | queued => exact congrArg _ (Option.some.inj queued)
  | _ => cases queued

theorem Event.unmoved_of_isQuiet {e : Event} (quiet : e.isQuiet) : e.queued? = none ∧ e.taken? = none := by
  cases e <;> first | exact ⟨rfl, rfl⟩ | cases quiet

/-- The frames that were put into the outbox, in order. -/
def Session.queued (s : Session) : List Outgoing := s.journal.filterMap Event.queued?

namespace Lane
variable {version : Version} {config : Config} {id : Nat} {l l' : Lane}

/-- What was put into the outbox, in order. -/
def queued (l : Lane) : List Outgoing := l.past.filterMap Event.queued?

/-! ### Open lanes -/

/-- Nothing goes out that was not put in, and while the outbox is open nothing is lost. -/
structure Conserved (l : Lane) : Prop where
  line : l.line.Subperm l.queued
  all : l.closed = false → l.line.Perm l.queued

theorem conserved_empty (id : Nat) : (empty id).Conserved := ⟨.refl _, fun _ => .refl _⟩

theorem Conserved.same (conserved : l.Conserved) (line : l'.line = l.line) (queued : l'.queued = l.queued)
    (closed : l'.closed = l.closed) : l'.Conserved := by
  refine ⟨?_, fun hopen => ?_⟩
  · rw [line, queued]
    exact conserved.line
  · rw [line, queued]
    exact conserved.all (closed ▸ hopen)

theorem Conserved.note (conserved : l.Conserved) {e : Event} (queued : e.queued? = none) (taken : e.taken? = none) :
    (l.note e).Conserved :=
  conserved.same (line_note taken) (by simp [Lane.queued, Lane.note, queued]) rfl

theorem Conserved.queue (conserved : l.Conserved) (f : Outgoing) (priority : Nat) : (l.queue f priority).Conserved := by
  cases hopen : l.closed with
  | true =>
    rw [Lane.queue, if_pos hopen]
    exact conserved
  | false =>
    obtain ⟨front, back, split, put⟩ := line_queue_split hopen f priority
    have queued : (l.queue f priority).queued = l.queued ++ [f] := by
      rw [queue_of_open hopen]
      simp [Lane.queued, Event.queued?]
    have more : (l.queue f priority).line.Perm (l.queue f priority).queued := by
      rw [put, queued]
      refine List.perm_middle.trans ?_
      rw [← split]
      exact ((conserved.all hopen).cons f).trans (List.perm_append_singleton f l.queued).symm
    exact ⟨more.subperm, fun _ => more⟩

theorem Conserved.put (conserved : l.Conserved) (stream : Stream) (frames : List Outgoing) :
    (l.put stream frames).Conserved := by
  have set : ({ l with stream := some stream } : Lane).Conserved := conserved.same rfl rfl rfl
  unfold Lane.put queueAll
  generalize ({ l with stream := some stream } : Lane) = u at set
  induction frames generalizing u with
  | nil => exact set
  | cons f rest ih => exact ih _ (set.queue f stream.priority)

theorem Step.conserved (h : Step version config id l l') (conserved : l.Conserved) : l'.Conserved := by
  have set (stream : Option Stream) : ({ l with stream } : Lane).Conserved := conserved.same rfl rfl rfl
  cases h with
  | noted about quiet =>
    obtain ⟨queued, taken⟩ := Event.unmoved_of_isQuiet quiet
    exact conserved.note queued taken
  | outdated | left | hungUp | pruned => exact conserved.same rfl rfl rfl
  | announced | promised => exact conserved.queue ..
  | refused => exact Conserved.queue (l := { l with fresh := false }) (conserved.same rfl rfl rfl) _ _
  | opened fresh hopen =>
    refine conserved.same ?_ ?_ rfl
    · simp [line, Lane.taken, Event.taken?]
    · simp [queued, Event.queued?]
  | trailed | received => exact (set _).note rfl rfl
  | cancelled => exact (conserved.note (e := .cancelled id) rfl rfl).same rfl rfl rfl
  | granted => exact (conserved.note rfl rfl).put ..
  | reset => exact conserved.put ..
  | read | readAll | sentHeaders | sentData => exact (conserved.put ..).note rfl rfl
  | @taken rank f rest next =>
    refine conserved.same ?_ (by simp [queued, Lane.note, Event.queued?]) rfl
    simp [line, Lane.taken, Lane.note, Event.taken?, next]
  | closed =>
    have less : (l.taken ++ []).Sublist l.line := (List.nil_sublist _).append_left l.taken
    exact ⟨less.subperm.trans conserved.line, fun hopen => by cases hopen⟩

theorem Steps.conserved (h : Steps version config id (empty id) l) : l.Conserved :=
  h.keeps (conserved_empty id) fun _ last => last.conserved

/-! ### Closed lanes -/

/-- The outbox is closed, and nothing waits. -/
structure Sealed (l : Lane) : Prop where
  closed : l.closed
  waiting : l.waiting = []

/-- Nothing is put in or taken out from `l` to `l'`, and `l'` is sealed. -/
structure Rests (l l' : Lane) : Prop where
  sealed : l'.Sealed
  queued : l'.queued = l.queued
  taken : l'.taken = l.taken

theorem Sealed.rests (sealed : l.Sealed) : l.Rests l := ⟨sealed, rfl, rfl⟩

theorem Rests.trans {l'' : Lane} (first : l.Rests l') (second : l'.Rests l'') : l.Rests l'' :=
  ⟨second.sealed, second.queued.trans first.queued, second.taken.trans first.taken⟩

theorem Rests.note (rests : l.Rests l') {e : Event} (queued : e.queued? = none) (taken : e.taken? = none) :
    l.Rests (l'.note e) := by
  refine ⟨⟨rests.sealed.closed, rests.sealed.waiting⟩, ?_, ?_⟩
  · rw [← rests.queued]
    simp [Lane.queued, Lane.note, queued]
  · rw [← rests.taken]
    simp [Lane.taken, Lane.note, taken]

theorem Rests.queue (rests : l.Rests l') (f : Outgoing) (priority : Nat) : l.Rests (l'.queue f priority) := by
  rw [Lane.queue, if_pos rests.sealed.closed]
  exact rests

theorem Rests.put (rests : l.Rests l') (stream : Stream) (frames : List Outgoing) : l.Rests (l'.put stream frames) := by
  rw [Lane.put, queueAll_of_closed (l := { l' with stream := some stream }) rests.sealed.closed]
  exact ⟨⟨rests.sealed.closed, rests.sealed.waiting⟩, rests.queued, rests.taken⟩

theorem Step.rests (h : Step version config id l l') (sealed : l.Sealed) : l.Rests l' := by
  have beside {stream : Option Stream} {listed fresh leaving : Bool} {window : Option Nat} :
      l.Rests { l with stream, listed, fresh, leaving, window } := ⟨⟨sealed.closed, sealed.waiting⟩, rfl, rfl⟩
  cases h with
  | noted about quiet =>
    obtain ⟨queued, taken⟩ := Event.unmoved_of_isQuiet quiet
    exact sealed.rests.note queued taken
  | outdated | left | hungUp | pruned => exact beside
  | announced | promised => exact sealed.rests.queue ..
  | refused => exact Rests.queue beside ..
  | opened fresh hopen => exact absurd sealed.closed (Bool.eq_false_iff.mp hopen)
  | trailed | received | cancelled => exact Rests.note beside rfl rfl
  | granted => exact (sealed.rests.note rfl rfl).put ..
  | reset => exact sealed.rests.put ..
  | read | readAll | sentHeaders | sentData => exact (sealed.rests.put ..).note rfl rfl
  | taken next =>
    rw [sealed.waiting] at next
    cases next
  | closed => exact ⟨⟨rfl, rfl⟩, rfl, rfl⟩

theorem Steps.rests (h : Steps version config id l l') (sealed : l.Sealed) : l.Rests l' :=
  h.keeps sealed.rests fun _ last rests => rests.trans (last.rests rests.sealed)

end Lane

namespace Session

open Multiplex.Frame (Kind)

variable {s t : Session}

/-! ### All lanes -/

theorem lane_queued (s : Session) (id : Nat) : (s.lane id).queued = s.queued.filter (·.stream == id) :=
  filterMap_lane (fun e f queued => by rw [Event.eq_of_queued? queued]; rfl) s id

theorem count_lane (list : List Outgoing) (f : Outgoing) : (list.filter (·.stream == f.stream)).count f = list.count f :=
  List.count_filter (by simp)

theorem subperm_of_lanes (each : ∀ id, (s.lane id).taken.Subperm (s.lane id).queued) : s.taken.Subperm s.queued := by
  refine List.subperm_ext_iff.mpr fun f _ => ?_
  have fewer := (each f.stream).count_le f
  rwa [lane_taken, lane_queued, count_lane, count_lane] at fewer

theorem perm_of_lanes (each : ∀ id, (s.lane id).taken.Perm (s.lane id).queued) : s.taken.Perm s.queued := by
  refine List.perm_iff_count.mpr fun f => ?_
  have same := (each f.stream).count_eq f
  rwa [lane_taken, lane_queued, count_lane, count_lane] at same

theorem countP_queued (s : Session) : s.queued.countP (·.kind == Kind.goAway) = s.farewells.length := by
  have one (e : Event) : e.queued?.toList.countP (·.kind == Kind.goAway) = e.farewell?.toList.length := by
    cases e with
    | queued f =>
      cases f with
      | frame frame => cases frame <;> rfl
      | headers | pushPromise => rfl
    | _ => rfl
  rw [queued, farewells, List.filterMap_eq_flatMap_toList, List.filterMap_eq_flatMap_toList, List.countP_flatMap,
    List.length_flatMap]
  exact congrArg List.sum (List.map_congr_left fun e _ => one e)

section Reached
variable {version : Version} {config : Config} {handlers : Handlers} {schedule : Schedule} {transport : Transport}

theorem taken_subperm (h : Reaches (start version config handlers schedule transport) t) : t.taken.Subperm t.queued :=
  subperm_of_lanes fun id =>
    (List.sublist_append_left (t.lane id).taken _).subperm.trans (steps_start h id).conserved.line

/-- When nothing waits in an open outbox, all that was put in was taken out. -/
theorem taken_perm (h : Reaches (start version config handlers schedule transport) t) (hopen : t.outbox.closed = false)
    (empty : ∀ id, (t.lane id).waiting = []) : t.taken.Perm t.queued := by
  refine perm_of_lanes fun id => ?_
  have all := (steps_start h id).conserved.all hopen
  rwa [Lane.line, empty id, List.map_nil, List.append_nil] at all

/-- Nothing is put in or taken out once the session closes down. -/
theorem perm_shutDown (h : Reaches (start version config handlers schedule transport) s) {reason : StopReason}
    (stopped : s.status = .stopped reason) (all : s.taken.Perm s.queued) : s.shutDown.taken.Perm s.shutDown.queued := by
  let u : Session := { s with outbox := s.outbox.close }.abortListed
  have closed : Reaches s u := .single (.closed stopped)
  have rest : Reaches u s.shutDown := (Reaches.single (.halted rfl)).trans (.of_moves (moves_resumeAll _ _))
  have followed := followed_start (h.trans closed)
  refine perm_of_lanes fun id => ?_
  have rests := ((rest.lanes followed.stable followed.fresh).lanes id).rests ⟨rfl, rfl⟩
  have queued : (u.lane id).queued = s.queued.filter (·.stream == id) := lane_queued s id
  have taken : (u.lane id).taken = s.taken.filter (·.stream == id) := lane_taken s id
  rw [rests.taken, rests.queued, taken, queued]
  exact all.filter _

/-- No more than one GOAWAY is written; and one is, when GOAWAY was sent and all that was put in was written. -/
theorem countP_goAway (h : Reaches (start version config handlers schedule transport) t) :
    (heads t.written).countP (·.kind == Kind.goAway.code) ≤ 1 ∧
      (t.goAwaySent → t.taken.Perm t.queued → t.Unbroken →
        (heads t.written).countP (·.kind == Kind.goAway.code) = 1) := by
  obtain ⟨sent, entered, seen, front, all⟩ := sent_seen (sound_start h) (writing_start h)
  have put : t.queued.countP (·.kind == Kind.goAway) = if t.goAwaySent then 1 else 0 := by
    rw [countP_queued, (numbered_start h).farewells]
    split <;> rfl
  have wrote : (seenOf sent).countP (·.1.kind == Kind.goAway.code) = t.taken.countP (·.kind == Kind.goAway) := by
    rw [countP_seen (by decide) seen, entered]
    exact List.countP_cons_of_neg (by simp [opening, Outgoing.kind])
  have count : (heads t.written).countP (·.kind == Kind.goAway.code) =
      (t.written.filterMap Frame.seen?).countP (·.1.kind == Kind.goAway.code) := List.countP_map ..
  rw [count]
  constructor
  · have less := front.sublist.countP_le (p := (·.1.kind == Kind.goAway.code))
    have fewer := (taken_subperm h).countP_le (·.kind == Kind.goAway)
    split at put <;> omega
  · intro sentOnce perm whole
    rw [all whole, wrote, perm.countP_eq, put, if_pos sentOnce]

end Reached

end Session

end Multiplex
