import Mathlib.Algebra.GroupWithZero.Nat
import Multiplex.Proofs.Session.Tasks

/-! # Runs keep account of the tasks

Whatever a session does in a run, it keeps account of its tasks (`staffed_serve`), and between two rounds no task is in the
middle of a step. When the session closes down, the tasks that wait are cancelled and the suspended handlers
run out (`staffed_runToEnd`): each task that was produced was then started or cancelled, and has
ended if it was started. -/

namespace Multiplex.Session

variable {s t u : Session}

/-! ### Runs of tasks -/

/-- Handing a new task to `launch` keeps account of the tasks, once the task has been added. -/
def Staffs (launch : Nat → Session → Session) : Prop :=
  ∀ going id s, (addTask id s).Staffed going → (launch id s).Staffed going

theorem staffs_addTask : Staffs addTask := fun _ _ _ staffed => staffed

section Tasks
variable {launch : Nat → Session → Session} (staffs : Staffs launch) {going : List Nat}
include staffs

theorem staffed_perform (staffed : s.Staffed going) (stream : Stream) (action : Action) :
    (perform launch s stream action).1.Staffed going := by
  cases plain : s.pushes stream action with
  | false =>
    rw [perform_plain plain]
    exact staffed.keep (.perform stream plain)
  | true =>
    cases action with
    | push list priority =>
      have allowed : s.pushError? stream = none := by simpa [pushes] using plain
      rw [perform_push allowed]
      exact staffs _ _ _ ((staffed.keep (.promise stream list priority)).addTask _)
    | _ => cases plain

theorem staffed_runFrom {id : Nat} (index : Nat) (script : List Multiplex.Step) (staffed : s.Staffed (id :: going)) :
    (runFrom launch id index script s).Staffed going := by
  induction script generalizing index s with
  | nil => exact staffed.returned
  | cons step rest ih =>
    unfold runFrom
    cases found : s.stream? id with
    | none =>
      have present := staffed.present id (List.mem_append_right _ List.mem_cons_self)
      simp [found] at present
    | some stream =>
      cases step with
      | act action =>
        dsimp only
        split
        · exact staffed.parked ..
        · exact ih (index + 1) ((staffed_perform staffs staffed stream action).keep (.note rfl))
      | yield => exact staffed.parked ..
      | await => exact staffed.parked ..
      | fail => exact staffed.brokeDown

theorem staffed_drain (count : Nat) (staffed : s.Staffed going) : (drain (runTask launch) count s).Staffed going := by
  induction count generalizing s with
  | zero => exact staffed
  | succ count ih =>
    unfold drain
    split
    · exact staffed
    · next id executor next => exact ih (staffed_runFrom staffs 0 _ (staffed.started next))

theorem staffs_launch : Staffs (Session.launch launch) := fun going id s staffed => by
  unfold Session.launch
  dsimp only
  split
  · exact staffed_drain staffs _ staffed
  · exact staffed

end Tasks

theorem staffs_launchPushed : Staffs launchPushed := staffs_launch staffs_addTask

theorem staffs_spawn : Staffs spawn := staffs_launch staffs_launchPushed

theorem perm_cons_eraseP {α : Type} {p : α → Bool} {list : List α} {item : α} (found : list.find? p = some item) :
    list.Perm (item :: list.eraseP p) := by
  obtain ⟨here, front, back, rfl, before⟩ := List.find?_eq_some_iff_append.mp found
  rw [List.eraseP_append_right _ (by simpa using before), List.eraseP_cons_of_pos here]
  exact List.perm_middle

section Resumed
variable {going : List Nat}

theorem staffed_resume {p : Parked} (staffed : s.Staffed (p.stream :: going)) : (resume p s).Staffed going := by
  unfold resume
  split
  · next none =>
    have present := staffed.present p.stream (List.mem_append_right _ List.mem_cons_self)
    simp [none] at present
  · dsimp only
    refine staffed_runFrom staffs_launchPushed _ _ ?_
    split
    · exact staffed.keep (.note rfl)
    · exact staffed.keep ((Taskless.readPart _).trans (.note rfl))

theorem staffed_resumeReader (staffed : s.Staffed going) (id : Nat) : (s.resumeReader id).Staffed going := by
  unfold resumeReader
  dsimp only
  split
  · next p stream waits found =>
    split
    · exact staffed
    · exact staffed_resume (staffed.unparked (show s.parked.Perm ([p] ++ _) from perm_cons_eraseP waits))
  · exact staffed

theorem staffed_foldl_resume (list : List Parked) (staffed : s.Staffed (list.map (·.stream) ++ going)) :
    (list.foldl (fun s p => resume p s) s).Staffed going := by
  induction list generalizing s with
  | nil => exact staffed
  | cons p rest ih => exact ih (staffed_resume staffed)

theorem staffed_resumePolled (staffed : s.Staffed going) : s.resumePolled.Staffed going := by
  unfold resumePolled
  rw [List.partition_eq_filter_filter]
  exact staffed_foldl_resume _ (staffed.unparked (List.filter_append_perm ..).symm)

theorem staffed_runScheduled (staffed : s.Staffed going) : s.runScheduled.Staffed going := by
  unfold runScheduled
  split
  · exact staffed_drain staffs_launchPushed _ staffed
  · exact staffed_drain staffs_launchPushed _ staffed
  · exact staffed
  · exact staffed

theorem staffed_resumeAll (count : Nat) (staffed : s.Staffed going) : (resumeAll count s).Staffed going := by
  induction count generalizing s with
  | zero => exact staffed
  | succ count ih =>
    unfold resumeAll
    split
    · exact staffed
    · next p parked first =>
      have split : s.parked.Perm ([p] ++ parked) := by rw [first]; exact .refl _
      exact ih (staffed_resume (staffed.unparked split))

end Resumed

/-! ### Rounds -/

section Rounds
variable {going : List Nat}

theorem Effect.staffed {decoded : Except Hpack.Fault (List Header)} {frame : Frame} (h : Effect s decoded frame t)
    (staffed : s.Staffed going) : t.Staffed going := by
  cases h with
  | passed => exact staffed
  | breach => exact staffed.keep (.sendGoAway _)
  | answered => exact staffed.keep (.queue _ _)
  | @adopted params peer =>
    have set : Taskless s (s.adopt peer) := .of_streams rfl rfl rfl rfl
    exact staffed.keep (set.trans (.queue _ _))
  | left | crashed => exact staffed.keep (.of_streams rfl rfl rfl rfl)
  | trailed | received => exact staffed.keep ((Taskless.setStream _).trans (.note rfl))
  | @turnedAway id =>
    have set : Taskless s { s with lastPeer := id } := .of_streams rfl rfl rfl rfl
    exact staffed.keep (set.trans (.queue _ _))
  | @opened id =>
    have set : Taskless s { s with lastPeer := id } := .of_streams rfl rfl rfl rfl
    exact (staffed.keep (set.trans (.addStream ..))).addTask id
  | granted => exact staffed.keep ((Taskless.note rfl).trans (.update ..))
  | offended => exact staffed.keep (.reset ..)
  | hungUp => exact staffed.keep (.setStream _)

theorem staffed_dispatch (staffed : s.Staffed going) (frame : Frame) : (dispatch spawn s frame).Staffed going := by
  have noted : Taskless s (s.note (.dispatched frame)) := .note rfl
  have looked : Taskless s { s.note (.dispatched frame) with receiveTable := s.tableAfter frame } :=
    noted.trans (.of_streams rfl rfl rfl rfl)
  have taken := (effect_dispatch s frame).staffed (staffed.keep looked)
  rcases dispatch_launch spawn s frame with same | ⟨id, u, added, launched⟩
  · exact same ▸ taken
  · rw [launched]
    exact staffs_spawn going id u (added ▸ taken)

theorem staffed_dispatchUpTo (count : Nat) (staffed : s.Staffed going) : (dispatchUpTo count s).Staffed going := by
  induction count generalizing s with
  | zero => exact staffed
  | succ count ih =>
    unfold dispatchUpTo
    split
    · exact staffed
    · next frame reader _ =>
      have taken := staffed_dispatch (staffed.keep (t := { s with reader }) (.of_streams rfl rfl rfl rfl)) frame
      dsimp only
      split
      · exact ih taken
      · exact taken

theorem staffed_poll (staffed : s.Staffed going) : s.poll.Staffed going := by
  have polled := staffed_runScheduled (staffed_resumePolled (staffed.keep (.note (e := .polled) rfl)))
  exact polled.keep (.of_streams rfl rfl rfl rfl)

theorem staffed_readMore (staffed : s.Staffed going) (wait : Bool) : (s.readMore wait).1.Staffed going := by
  unfold readMore
  split
  · exact staffed.keep (.note rfl)
  · next a arrivals _ =>
    have arrived : Taskless s { s with transport := { s.transport with arrivals } } := .of_streams rfl rfl rfl rfl
    have woken {s : Session} (staffed : s.Staffed going) : (a.resumes.elim s s.resumeReader).Staffed going := by
      cases a.resumes with
      | none => exact staffed
      | some id => exact staffed_resumeReader staffed id
    have went := woken (staffed.keep arrived)
    dsimp only
    generalize a.resumes.elim _ _ = v at went ⊢
    have fed (reader : Frame.Reader) : Taskless v { v with reader } := .of_streams rfl rfl rfl rfl
    exact went.keep ((fed _).trans (.note rfl))

theorem staffed_takeInput (staffed : s.Staffed going) (status : ReadStatus) : (s.takeInput status).Staffed going := by
  have taken : s.dispatchReady.Staffed going := staffed_dispatchUpTo _ staffed
  have pruned := taken.keep (.prune _)
  unfold takeInput
  dsimp only
  split
  · exact taken
  · split
    · exact taken
    · exact taken.keep (.sendGoAway _)
    · split
      · exact pruned.keep (.sendGoAway _)
      · exact pruned

theorem staffed_flushUpTo (count : Nat) (staffed : s.Staffed going) : (flushUpTo count s).Staffed going := by
  induction count generalizing s with
  | zero => exact staffed
  | succ count ih =>
    unfold flushUpTo
    split
    · exact staffed
    · next f outbox _ =>
      have set : Taskless s { s with outbox } := .of_streams rfl rfl rfl rfl
      have written := staffed.keep (set.trans (.writeOutgoing _ f))
      dsimp only
      split
      · exact ih written
      · exact written

theorem staffed_flush (staffed : s.Staffed going) : s.flush.Staffed going := staffed_flushUpTo _ staffed

theorem staffed_round (staffed : s.Staffed going) : s.round.Staffed going := by
  have polled := staffed_poll staffed
  have pruned := polled.keep (.prune _)
  unfold round
  dsimp only
  split
  · exact polled.keep (.stop _ _)
  split
  · exact pruned.keep (.stop _ _)
  have read := staffed_readMore pruned s.poll.prune.isIdle
  have taken := staffed_takeInput read (s.poll.prune.readMore s.poll.prune.isIdle).2
  split
  · exact taken
  have flushed := staffed_flush taken
  split
  · exact flushed
  have done := flushed.keep (.prune _)
  split
  · exact done.keep (.stop _ _)
  · exact done

theorem staffed_rounds (count : Nat) (staffed : s.Staffed going) : (rounds count s).Staffed going := by
  induction count generalizing s with
  | zero => exact staffed
  | succ count ih =>
    unfold rounds
    dsimp only
    split
    · exact ih (staffed_round staffed)
    · exact staffed_round staffed

theorem staffed_serve (staffed : s.Staffed going) : s.serve.Staffed going := by
  have ready : Taskless s { s with status := .running } := .of_streams rfl rfl rfl rfl
  have began (bytes : Bytes) := staffed.keep (ready.trans (.write bytes .initialWriteFailed))
  unfold serve
  dsimp only
  split
  · exact staffed_rounds _ (began _)
  · exact began _

end Rounds

/-! ### Suspended handlers run out -/

theorem resumptions_eq (s : Session) : s.resumptions = (s.parked.map fun p => 1 + p.rest.length).sum := by
  have folded (list : List Parked) (n : Nat) :
      list.foldl (fun n p => n + 1 + p.rest.length) n = n + (list.map fun p => 1 + p.rest.length).sum := by
    induction list generalizing n with
    | nil => rfl
    | cons p rest ih =>
      rw [List.foldl_cons, ih, List.map_cons, List.sum_cons]
      omega
  exact (folded s.parked 0).trans (Nat.zero_add _)

theorem pushes_of_closed (closed : s.outbox.closed) (stream : Stream) (action : Action) :
    s.pushes stream action = false := by
  refine Bool.eq_false_iff.mpr fun pushes => ?_
  cases action with
  | push =>
    obtain ⟨-, hopen, -⟩ := of_pushError? (Option.isNone_iff_eq_none.mp pushes)
    exact Bool.eq_false_iff.mp hopen closed
  | _ => cases pushes

theorem resumptions_of_parked (same : t.parked = s.parked) : t.resumptions = s.resumptions := by
  rw [resumptions, same]
  rfl

theorem resumptions_park (s : Session) (id index : Nat) (step : Multiplex.Step) (rest : List Multiplex.Step) :
    (s.park id index step rest).resumptions = s.resumptions + (1 + rest.length) := by
  simp [resumptions_eq, park]

/-- Once the outbox is closed, a handler that goes on leaves no more for later than the rest of its steps. -/
theorem resumptions_runFrom {launch : Nat → Session → Session} (closed : s.outbox.closed) (id index : Nat)
    (script : List Multiplex.Step) :
    (runFrom launch id index script s).resumptions ≤ s.resumptions + script.length := by
  induction script generalizing index s with
  | nil => exact Nat.le_of_eq (resumptions_of_parked (Taskless.returned s id).parked)
  | cons step rest ih =>
    have parks : (s.park id index step rest).resumptions ≤ s.resumptions + (step :: rest).length := by
      rw [resumptions_park, List.length_cons]
      omega
    unfold runFrom
    cases found : s.stream? id with
    | none => exact Nat.le_add_right ..
    | some stream =>
      cases step with
      | act action =>
        dsimp only
        split
        · exact parks
        -- With the outbox closed no push goes through, so no step of the script brings a new task.
        · have plain := pushes_of_closed closed stream action
          rw [perform_plain plain]
          have taskless : Taskless s ((perform addTask s stream action).1.note
            (.stepped id index (.act action) (perform addTask s stream action).2)) :=
            (Taskless.perform stream plain).trans (.note rfl)
          have shut := ((Kept.perform stream plain).closed.trans closed)
          have later := @ih ((perform addTask s stream action).1.note
            (.stepped id index (.act action) (perform addTask s stream action).2)) shut (index + 1)
          rw [resumptions_of_parked taskless.parked] at later
          exact Nat.le_trans later (Nat.le_succ _)
      | yield => exact parks
      | await => exact parks
      | fail =>
        rw [resumptions_of_parked (s := s) (Taskless.brokeDown s id).parked]
        exact Nat.le_add_right ..

theorem resumptions_resume (closed : s.outbox.closed) (p : Parked) :
    (resume p s).resumptions ≤ s.resumptions + p.rest.length := by
  unfold resume
  split
  · exact Nat.le_add_right ..
  · next stream found =>
    dsimp only
    split
    · exact resumptions_runFrom (s := s.note _) closed ..
    · have taskless : Taskless s (s.readPart stream).1 := .readPart stream
      have shut : ((s.readPart stream).1.note
          (.stepped p.stream p.index p.step (.input (s.readPart stream).2))).outbox.closed :=
        (Kept.readPart stream).closed.trans closed
      have later := @resumptions_runFrom _ launchPushed shut p.stream (p.index + 1) p.rest
      rwa [resumptions_of_parked (s := s) (taskless.trans (.note rfl)).parked] at later

/-- Once the outbox is closed, all suspended handlers run out. -/
theorem parked_resumeAll (closed : s.outbox.closed) {count : Nat} (enough : s.resumptions ≤ count) :
    (resumeAll count s).parked = [] := by
  induction count generalizing s with
  | zero =>
    cases suspended : s.parked with
    | nil => exact suspended
    | cons p rest =>
      rw [resumptions_eq, suspended, List.map_cons, List.sum_cons] at enough
      omega
  | succ count ih =>
    unfold resumeAll
    split
    · next none => exact none
    · next p parked first =>
      have fewer := resumptions_resume (s := { s with parked }) closed p
      have same : s.resumptions = 1 + p.rest.length + ({ s with parked } : Session).resumptions := by
        rw [resumptions_eq, resumptions_eq, first, List.map_cons, List.sum_cons]
      refine ih ((moves_resume p { s with parked }).kept.closed.trans closed) ?_
      omega

/-! ### Whole runs -/

/-- When a session has closed down, it still keeps account of its tasks, and none is suspended. -/
theorem staffed_shutDown (staffed : s.Staffed []) : s.shutDown.Staffed [] ∧ s.shutDown.parked = [] := by
  let u : Session := { s with outbox := s.outbox.close }.abortListed
  have emptied : Taskless s { s with outbox := s.outbox.close } := .of_streams rfl rfl rfl rfl
  have halted := (staffed.keep (emptied.trans (.abortListed _))).halted.1
  have shut : (u.executor.stop.2.foldl cancel { u with executor := u.executor.stop.1 }).outbox.closed :=
    (Kept.foldl_cancel _ _).closed
  exact ⟨staffed_resumeAll _ halted, parked_resumeAll shut (Nat.le_refl _)⟩

theorem staffed_runToEnd (staffed : s.Staffed []) : s.runToEnd.Staffed [] := by
  unfold runToEnd
  split
  · dsimp only
    split
    · exact staffed_serve staffed
    · exact (staffed_shutDown (staffed_serve staffed)).1
  · exact staffed

end Multiplex.Session
