import Multiplex.Proofs.Executor.Todo
import Multiplex.Proofs.Executor.View

/-! # Executors on the thread of their caller

Callers add jobs and have them run, and jobs that are running, or that are being cancelled, add others, stop the executor,
or fail, at any depth. Each call is a chain of steps (`Inline.reaches_call`), and a step that is no failure changes one thing
at a time (`Inline.Onward`). From these follows where every job is at every moment, which one is started next, and what a
stop and a failure leave behind (`Inline.inline_service`). -/

namespace Multiplex

open Job (Event Todo)
open Relation (ReflTransGen)

namespace Inline

variable {m m' : Inline}

/-! ### Calls -/

/-- What a caller asks of an executor. -/
inductive Call where
  | add (job : Job)
  | runOne
  | runAll
  | setRunsOnAdd (runsOnAdd : Bool)
  | stop

/-- What a caller gets. A call fails if a job fails in it. -/
def call (m : Inline) : Call → Inline
  | .add job => m.add job
  | .runOne => m.runOne.1
  | .runAll => m.runAll
  | .setRunsOnAdd runsOnAdd => { m.setRunsOnAdd runsOnAdd with failed := false }
  | .stop => m.stop

/-- How a call begins. -/
def enter (m : Inline) : Call → Inline
  | .add job => { m with failed := false }.submit job
  | .runOne => { m with failed := false }.start?.getD { m with failed := false }
  | .runAll => { m with todo := [.chore .drain], failed := false }
  | .setRunsOnAdd runsOnAdd => { m.setRunsOnAdd runsOnAdd with failed := false }
  | .stop => { m with failed := false }.halt

theorem run_of_idle (idle : m.todo = []) : m.run = m := by
  rw [run, idle]
  rfl

theorem call_eq (idle : m.todo = []) (c : Call) : m.call c = (m.enter c).run := by
  cases c with
  | add | runAll | stop => rfl
  | runOne =>
    simp only [call, enter, runOne]
    cases ({ m with failed := false } : Inline).start? with
    | some next => rfl
    | none => exact (run_of_idle (m := { m with failed := false }) idle).symm
  | setRunsOnAdd runsOnAdd => exact (run_of_idle (m := m.enter (.setRunsOnAdd runsOnAdd)) idle).symm

/-- A caller calls when nothing is in progress; what is in progress goes on by itself. -/
inductive Advance : Inline → Inline → Prop
  | called {m : Inline} (idle : m.todo = []) (c : Call) : Advance m (m.enter c)
  | stepped {m : Inline} (busy : m.todo ≠ []) : Advance m m.step

/-- What an executor reaches is a moment of a sequence of calls. -/
def Reaches : Inline → Inline → Prop := ReflTransGen Advance

/-! ### Steps -/

/-- All jobs are of one group. -/
def group (_ : Job) : Nat := 0

def view (m : Inline) : View :=
  { queue := m.executor.queue, stopped := if m.executor.stopped then [0] else [], threads := [Todo.cancels m.todo],
    events := m.events }

/-- What holds of an executor between two steps. -/
structure Sound (m : Inline) : Prop where
  /-- While something is in progress, no job has failed. -/
  live : m.todo ≠ [] → m.failed = false
  going : m.executor.stopped = false → Todo.cancels m.todo = []
  stopped : m.executor.stopped = true → m.executor.queue.toList = []
  caused : Todo.Caused m.events m.todo

/-- A step that is no failure. -/
structure Onward (m m' : Inline) : Prop where
  quiet : m'.failed = false
  sound : m'.Sound
  step : m.view.Step group m'.view
  /-- The jobs that were started are in progress, until they come to their end. -/
  account : ∃ later, m'.events = m.events ++ later ∧
    (later.filterMap Event.started? ++ Todo.begun m.todo).Perm (later.filterMap Event.ended? ++ Todo.begun m'.todo)

theorem Sound.tail {next : Todo Chore} {rest : List (Todo Chore)} (sound : m.Sound) (top : m.todo = next :: rest) :
    Sound { m with todo := rest } where
  live := fun _ => sound.live (by simp [top])
  going := fun going => by
    have none := sound.going going
    rw [top] at none
    cases next with
    | cancel job => cases none
    | _ => exact none
  stopped := sound.stopped
  caused := (top ▸ sound.caused).tail

/-- What follows from the rest of what is in progress follows from all of it, if the first of it is no cancellation and no
    end of a job. -/
theorem Onward.of_tail {next : Todo Chore} {rest : List (Todo Chore)} (top : m.todo = next :: rest)
    (cancels : Todo.cancels (next :: rest) = Todo.cancels rest) (begun : Todo.begun (next :: rest) = Todo.begun rest)
    (h : Onward { m with todo := rest } m') : m.Onward m' := by
  obtain ⟨quiet, sound, step, account⟩ := h
  have same : m.view = view { m with todo := rest } := by rw [view, view, top, cancels]
  exact ⟨quiet, sound, same ▸ step, by rw [top, begun]; exact account⟩

theorem onward_refl (sound : m.Sound) (quiet : m.failed = false) : m.Onward m :=
  ⟨quiet, sound, .passed _, [], by simp⟩

/-- An executor is seen as it should be after a step. -/
theorem step_view {v w : View} (step : v.Step group w) (queue : m.executor.queue = w.queue)
    (stopped : (if m.executor.stopped then [0] else []) = w.stopped) (threads : [Todo.cancels m.todo] = w.threads)
    (events : m.events = w.events) : v.Step group m.view := by
  rwa [view, queue, stopped, threads, events]

theorem onward_submit (sound : m.Sound) (quiet : m.failed = false) (job : Job) : m.Onward (m.submit job) := by
  unfold submit note
  dsimp only
  split
  · next stopped =>
    refine ⟨quiet, ⟨fun _ => quiet, fun going => ?_, sound.stopped, ?_⟩, ?_, [.added job, .cancelled job],
      List.append_assoc .., by simp [List.filterMap_cons]⟩
    · cases going.symm.trans stopped
    · exact (sound.caused.mono fun _ early => List.mem_append_left _ (List.mem_append_left _ early)).ofCancel (by simp)
    · exact step_view (.refused m.view job) rfl rfl (by simp [view]) (List.append_assoc ..)
  · next going =>
    have going : m.executor.stopped = false := Bool.eq_false_iff.mpr going
    have cancels : Todo.cancels (if m.executor.runsOnAdd then .chore .drain :: m.todo else m.todo) = Todo.cancels m.todo := by
      split <;> rfl
    have begun : Todo.begun (if m.executor.runsOnAdd then .chore .drain :: m.todo else m.todo) = Todo.begun m.todo := by
      split <;> rfl
    refine ⟨quiet, ⟨fun _ => quiet, fun _ => cancels.trans (sound.going going), fun stopped => ?_, ?_⟩, ?_, [.added job], rfl,
      by simp [List.filterMap_cons, begun]⟩
    · cases going.symm.trans stopped
    · exact .of_cancels (cancels.trans (sound.going going))
    · have going : group job ∉ m.view.stopped := by simp [view, going]
      exact step_view (.waits going) rfl rfl (congrArg ([·]) cancels) rfl

theorem onward_start? (sound : m.Sound) (quiet : m.failed = false) (started : m.start? = some m') : m.Onward m' := by
  obtain ⟨⟨job, executor⟩, next, rfl⟩ := Option.map_eq_some_iff.mp started
  unfold Executor.next? at next
  split at next
  · cases next
  · next going =>
    have going : m.executor.stopped = false := Bool.eq_false_iff.mpr going
    obtain ⟨⟨job', queue⟩, popped, same⟩ := Option.map_eq_some_iff.mp next
    cases same
    have none : Todo.cancels (Todo.ofRun job ++ m.todo) = [] := by simp [sound.going going]
    refine ⟨quiet, ⟨fun _ => quiet, fun _ => none, fun stopped => ?_, .of_cancels none⟩, ?_, [.started job], rfl,
      by simp [List.filterMap_cons]⟩
    · cases going.symm.trans stopped
    · exact step_view (.started (v := m.view) popped) rfl rfl (congrArg ([·]) (none.trans (sound.going going).symm)) rfl

/-- A second stop finds nothing that waits. -/
theorem halt_of_stopped (sound : m.Sound) (stopped : m.executor.stopped = true) : m.halt = m := by
  have empty := sound.stopped stopped
  have same := Queue.clear_of_toList empty
  obtain ⟨⟨queue, runsOnAdd, _⟩, todo, failed, events⟩ := m
  cases stopped
  simp_all [halt, Executor.stop]

/-- A stop takes all that waits out of the queue. -/
theorem view_halt (going : m.executor.stopped = false) :
    m.halt.view =
      { m.view with
        queue := m.view.queue.filter (!group · == 0), stopped := 0 :: m.view.stopped,
        threads := [] ++ (m.view.queue.toList.filter (group · == 0) ++ Todo.cancels m.todo) :: [] } := by
  have none : (m.executor.queue.filter (!group · == 0)).toList = [] := by simp [group]
  have queue : m.executor.queue.clear = m.executor.queue.filter (!group · == 0) := Queue.clear_of_toList none
  have all : m.executor.queue.toList.filter (group · == 0) = m.executor.queue.toList := by simp [group]
  simp [view, halt, Executor.stop, going, queue, all]

theorem onward_halt (sound : m.Sound) (quiet : m.failed = false) : m.Onward m.halt := by
  have caused : Todo.Caused m.events m.halt.todo := sound.caused.cancel m.executor.queue.toList
  refine ⟨quiet, ⟨fun _ => quiet, nofun, fun _ => rfl, caused⟩, ?_, [], (List.append_nil _).symm, ?_⟩
  · cases stopped : m.executor.stopped with
    | true => exact halt_of_stopped sound stopped ▸ .passed _
    | false =>
      rw [view_halt stopped]
      exact .withdrawn 0 (show m.view.threads = [] ++ Todo.cancels m.todo :: [] from rfl)
  · simp [halt, Executor.stop]

/-- What is in progress takes a step, or its innermost job fails and ends it all. -/
theorem step_cases (sound : m.Sound) (busy : m.todo ≠ []) :
    m.Onward m.step ∨ ∃ rest, m.todo = .act .fail :: rest ∧ m.step = { m with todo := [], failed := true } := by
  -- Only a failing action goes another way: it takes everything with it that is in progress.
  have quiet := sound.live busy
  unfold step
  split
  · next none => exact absurd none busy
  · next job rest top => exact .inl ((onward_submit (sound.tail top) quiet job).of_tail top rfl rfl)
  · next executor rest top => exact .inl ((onward_halt (sound.tail top) quiet).of_tail top rfl rfl)
  · next rest top => exact .inr ⟨rest, top, rfl⟩
  · next job rest top =>
    have tail := sound.tail top
    have caused := tail.caused.mono (List.subset_append_left m.events [.ended job])
    refine .inl ⟨quiet, ⟨fun _ => quiet, tail.going, tail.stopped, caused⟩, ?_, [.ended job], rfl, ?_⟩
    · exact step_view (.ended m.view job) rfl rfl (by simp [view, note, top]) rfl
    · simp [note, top, List.filterMap_cons]
  · next job rest top =>
    have tail := sound.tail top
    have caused := tail.caused.mono (List.subset_append_left m.events [.cancelled job])
    refine .inl ⟨quiet, ⟨fun _ => quiet, fun going => ?_, tail.stopped, caused.ofCancel (by simp)⟩, ?_, [.cancelled job], rfl, ?_⟩
    · simpa [top] using sound.going going
    · have first : m.view.threads = [] ++ (job :: Todo.cancels rest) :: [] := by simp [view, top]
      exact step_view (.settled first) rfl rfl (by simp [note]) rfl
    · simp [note, top, List.filterMap_cons]
  · next rest top =>
    cases started : m.start? with
    | some next => exact .inl (onward_start? sound quiet started)
    | none => exact .inl ((onward_refl (sound.tail top) quiet).of_tail top rfl rfl)

theorem onward_enter (sound : m.Sound) (idle : m.todo = []) (c : Call) : m.Onward (m.enter c) := by
  -- Whether the last call failed makes no difference.
  have fresh : Sound { m with failed := false } := ⟨fun _ => rfl, sound.going, sound.stopped, sound.caused⟩
  have same {m' : Inline} (h : Onward { m with failed := false } m') : m.Onward m' := ⟨h.quiet, h.sound, h.step, h.account⟩
  cases c with
  | add job => exact same (onward_submit fresh rfl job)
  | runOne =>
    rw [enter]
    cases started : ({ m with failed := false } : Inline).start? with
    | some next => exact same (onward_start? fresh rfl started)
    | none => exact same (onward_refl fresh rfl)
  | runAll =>
    refine ⟨rfl, ⟨fun _ => rfl, fun _ => rfl, sound.stopped, .of_cancels rfl⟩, ?_, [], (List.append_nil _).symm, by simp [enter, idle]⟩
    exact step_view (.passed m.view) rfl rfl (by simp [view, enter, idle]) rfl
  | setRunsOnAdd runsOnAdd =>
    exact ⟨rfl, ⟨fun _ => rfl, sound.going, sound.stopped, sound.caused⟩, .passed _, [], by simp [enter, setRunsOnAdd]⟩
  | stop => exact same (onward_halt fresh rfl)

/-- What is lost in a failure was to be cancelled, and the job that fails was cancelled itself. -/
theorem fails (sound : m.Sound) {rest : List (Todo Chore)} (top : m.todo = .act .fail :: rest)
    (some : Todo.cancels rest ≠ []) : ∃ job, .cancelled job ∈ m.events ∧ .fail ∈ job.onCancel :=
  (top ▸ sound.caused).fail some

theorem Advance.sound (h : Advance m m') (sound : m.Sound) : m'.Sound ∧ m.view.Step group m'.view := by
  cases h with
  | called idle c => exact ⟨(onward_enter sound idle c).sound, (onward_enter sound idle c).step⟩
  | stepped busy =>
    rcases step_cases sound busy with onward | ⟨rest, top, failed⟩
    · exact ⟨onward.sound, onward.step⟩
    · rw [failed]
      refine ⟨⟨fun going => absurd rfl going, fun _ => rfl, sound.stopped, .of_cancels rfl⟩, ?_⟩
      exact .lost (show m.view.threads = [] ++ Todo.cancels m.todo :: [] from rfl) fun some => fails sound top (by simpa [top] using some)

namespace Reaches

theorem sound (h : Reaches m m') (sound : m.Sound) : m'.Sound := by
  induction h with
  | refl => exact sound
  | tail _ last ih => exact (last.sound ih).1

theorem start (h : Reaches {} m) : m.Sound := h.sound ⟨fun busy => absurd rfl busy, fun _ => rfl, nofun, .of_cancels rfl⟩

theorem steps (h : Reaches m m') (sound : m.Sound) : View.Steps group m.view m'.view := by
  induction h with
  | refl => exact .refl
  | tail path last ih => exact ih.tail (last.sound (Reaches.sound path sound)).2

theorem registered (h : Reaches {} m) : ∃ r, m.view.Registers group r := by
  obtain ⟨r, reg, -⟩ := (h.steps (start .refl)).follows View.Registers.initial
  exact ⟨r, reg⟩

theorem events (h : Reaches m m') (sound : m.Sound) : m.events <+: m'.events := (h.steps sound).events

/-- Each job that was started was the first of the queue at some moment. -/
theorem turn (h : Reaches {} m) {front : List Event} {job : Job} (early : front ++ [.started job] <+: m.events) :
    ∃ u : Inline, Reaches {} u ∧ Reaches u m ∧ u.events = front ∧
      ∃ queue, u.executor.queue.pop? = some (job, queue) :=
  View.turn view rfl (fun path last => (last.sound (start path)).2) h early

end Reaches

/-! ### Stopped executors -/

/-- What a stopped executor still tells of: jobs that come to their end, jobs that are cancelled as they are added, and those
    that the stop took out of the queue, which are cancelled in order. -/
inductive Barren : List Job → List Event → Prop
  | nil : Barren [] []
  | ended {gone : List Job} {events : List Event} (h : Barren gone events) (job : Job) : Barren gone (events ++ [.ended job])
  | refused {gone : List Job} {events : List Event} (h : Barren gone events) (job : Job) :
      Barren gone (events ++ [.added job, .cancelled job])
  | settled {gone : List Job} {events : List Event} (h : Barren gone events) (job : Job) :
      Barren (gone ++ [job]) (events ++ [.cancelled job])

/-- What has become of a view with one thread since a stop, when `front` had happened and `jobs` were to be cancelled. -/
structure Halted (front : List Event) (jobs : List Job) (v : View) : Prop where
  stopped : 0 ∈ v.stopped
  empty : v.queue.toList = []
  barren : ∃ gone left later lost, v.threads = [left] ∧ v.events = front ++ later ∧ Barren gone later ∧
    jobs = gone ++ left ++ lost ∧ (lost ≠ [] → ∃ job, .cancelled job ∈ v.events ∧ .fail ∈ job.onCancel)

theorem Halted.step {front : List Event} {jobs left : List Job} {v v' : View} (halted : Halted front jobs v)
    (h : v.Step group v') (alone : v'.threads = [left]) : Halted front jobs v' := by
  obtain ⟨stopped, empty, gone, left', later, lost, same, split, barren, parts, failed⟩ := halted
  -- There is one thread, so there is nothing beside its part of what is to be cancelled.
  have single {before after : List (List Job)} {mine : List Job} (threads : v.threads = before ++ mine :: after) :
      before = [] ∧ mine = left' ∧ after = [] := by
    rw [same] at threads
    cases before with
    | nil => cases threads; exact ⟨rfl, rfl, rfl⟩
    | cons => simp at threads
  have more {events : List Event} (some : lost ≠ []) :
      ∃ job, Event.cancelled job ∈ v.events ++ events ∧ .fail ∈ job.onCancel :=
    (failed some).imp fun job => .imp_left (List.mem_append_left _)
  cases h with
  | passed => exact ⟨stopped, empty, gone, left', later, lost, same, split, barren, parts, failed⟩
  | waits going => exact absurd stopped going
  | refused job =>
    exact ⟨stopped, empty, gone, left', _, lost, same, by rw [split, List.append_assoc], barren.refused job, parts, more⟩
  | started next => simp [Queue.toList_of_pop? next] at empty
  | ended job =>
    exact ⟨stopped, empty, gone, left', _, lost, same, by rw [split, List.append_assoc], barren.ended job, parts, more⟩
  | withdrawn g threads =>
    obtain ⟨rfl, rfl, rfl⟩ := single threads
    exact ⟨List.mem_cons_of_mem _ stopped, by simp [empty], gone, _, later, lost, by simp [empty], split, barren, parts, failed⟩
  | @settled _ _ mine job threads =>
    obtain ⟨rfl, rfl, rfl⟩ := single threads
    exact ⟨stopped, empty, _, mine, _, lost, rfl, by rw [split, List.append_assoc], barren.settled job, by simp [parts], more⟩
  | @lost _ _ mine threads fails =>
    obtain ⟨rfl, rfl, rfl⟩ := single threads
    refine ⟨stopped, empty, gone, [], later, mine ++ lost, rfl, split, barren, by simp [parts], fun some => ?_⟩
    by_cases none : mine = []
    · exact failed (by simpa [none] using some)
    · exact fails none
  | entered => simp [same] at alone

theorem Reaches.halted (h : Reaches m m') (sound : m.Sound) (stopped : m.executor.stopped = true) :
    Halted m.events (Todo.cancels m.todo) m'.view := by
  induction h with
  | refl =>
    refine ⟨by simp [view, stopped], sound.stopped stopped, [], _, [], [], rfl, (List.append_nil _).symm, .nil, by simp,
      fun some => absurd rfl some⟩
  | tail path last ih => exact ih.step (last.sound (Reaches.sound path sound)).2 rfl

/-! ### Calls to their end -/

/-- The jobs that were started since `front` have come to their end, or are in progress. -/
def Since (front : List Event) (m : Inline) : Prop :=
  ∃ later, m.events = front ++ later ∧
    (later.filterMap Event.started?).Perm (later.filterMap Event.ended? ++ Todo.begun m.todo)

theorem Onward.since {front : List Event} (h : m.Onward m') (since : Since front m) : Since front m' := by
  obtain ⟨later, split, account⟩ := since
  obtain ⟨more, events, next⟩ := h.account
  refine ⟨later ++ more, by rw [events, split, List.append_assoc], ?_⟩
  rw [List.filterMap_append, List.filterMap_append]
  calc later.filterMap Event.started? ++ more.filterMap Event.started?
    List.Perm _ (later.filterMap Event.ended? ++ Todo.begun m.todo ++ more.filterMap Event.started?) := account.append_right _
    _ = later.filterMap Event.ended? ++ (Todo.begun m.todo ++ more.filterMap Event.started?) := List.append_assoc ..
    List.Perm _ (later.filterMap Event.ended? ++ (more.filterMap Event.ended? ++ Todo.begun m'.todo)) :=
      (List.perm_append_comm.trans next).append_left _
    _ = later.filterMap Event.ended? ++ more.filterMap Event.ended? ++ Todo.begun m'.todo := (List.append_assoc ..).symm

/-- What is left when nothing is in progress any more. Either no job failed, and all that were started have come to
    their end, or one failed: then just that job and those in which it ran have not, and nothing else is changed. If it
    failed as it was cancelled, those that were to be cancelled after it are lost. -/
inductive Outcome (m : Inline) (front : List Event) : Inline → Prop
  | completed {m' : Inline} {later : List Event} (reached : Reaches m m') (idle : m'.todo = []) (quiet : m'.failed = false)
      (events : m'.events = front ++ later)
      (account : (later.filterMap Event.started?).Perm (later.filterMap Event.ended?)) : Outcome m front m'
  | failed {u : Inline} {rest : List (Todo Chore)} {later : List Event} (reached : Reaches m u)
      (top : u.todo = .act .fail :: rest) (events : u.events = front ++ later)
      (account : (later.filterMap Event.started?).Perm (later.filterMap Event.ended? ++ Todo.begun rest))
      (lost : Todo.cancels rest ≠ [] → ∃ job, .cancelled job ∈ u.events ∧ .fail ∈ job.onCancel) :
      Outcome m front { u with todo := [], failed := true }

namespace Outcome
variable {front : List Event}

theorem reached (h : m.Outcome front m') : Reaches m m' ∧ m'.todo = [] := by
  cases h with
  | completed reached idle => exact ⟨reached, idle⟩
  | @failed u rest later reached top =>
    have step : u.step = { u with todo := [], failed := true } := by
      unfold step
      rw [top]
    exact ⟨step ▸ reached.tail (.stepped (by simp [top])), rfl⟩

theorem after {m₀ : Inline} (before : Reaches m₀ m) (h : m.Outcome front m') : m₀.Outcome front m' := by
  cases h with
  | completed reached idle quiet events account => exact .completed (before.trans reached) idle quiet events account
  | failed reached top events account lost => exact .failed (before.trans reached) top events account lost

end Outcome

theorem outcome_run {front : List Event} (sound : m.Sound) (quiet : m.failed = false) (since : Since front m) :
    m.Outcome front m.run := by
  fun_induction run m with
  | case1 m none =>
    obtain ⟨later, split, account⟩ := since
    have idle : m.todo = [] := List.isEmpty_iff.mp none
    rw [idle, Todo.begun_nil, List.append_nil] at account
    exact .completed .refl idle quiet split account
  | case2 m some ih =>
    have busy : m.todo ≠ [] := by simpa using some
    rcases step_cases sound busy with onward | ⟨rest, top, failed⟩
    · exact (ih onward.sound onward.quiet (onward.since since)).after (.single (.stepped busy))
    · obtain ⟨later, split, account⟩ := since
      rw [failed, run_of_idle rfl]
      exact .failed .refl top split (by simpa [top] using account) (fails sound top)

theorem outcome_enter (sound : m.Sound) (idle : m.todo = []) (c : Call) : (m.enter c).Outcome m.events (m.enter c).run := by
  have onward := onward_enter sound idle c
  exact outcome_run onward.sound onward.quiet (onward.since ⟨[], (List.append_nil _).symm, by rw [idle]; exact .refl _⟩)

theorem outcome_call (sound : m.Sound) (idle : m.todo = []) (c : Call) : m.Outcome m.events (m.call c) := by
  rw [call_eq idle]
  exact (outcome_enter sound idle c).after (.single (.called idle c))

/-- A call is a chain of steps, and nothing is in progress after it. -/
theorem reaches_call (sound : m.Sound) (idle : m.todo = []) (c : Call) : Reaches m (m.call c) ∧ (m.call c).todo = [] :=
  (outcome_call sound idle c).reached

theorem reaches_calls (h : Reaches {} m) (idle : m.todo = []) (calls : List Call) :
    Reaches {} (calls.foldl call m) ∧ (calls.foldl call m).todo = [] := by
  induction calls generalizing m with
  | nil => exact ⟨h, idle⟩
  | cons c rest ih =>
    obtain ⟨first, still⟩ := reaches_call h.start idle c
    exact ih (h.trans first) still

/-! ### What is served -/

/-- The first of the queue is started. -/
theorem runOne_starts (sound : m.Sound) (idle : m.todo = []) (going : m.executor.stopped = false) {job : Job} {rest : List Job}
    (first : m.executor.queue.toList = job :: rest) :
    m.runOne.2 = true ∧ m.events ++ [.started job] <+: m.runOne.1.events := by
  cases popped : m.executor.queue.pop? with
  | none => simp [Queue.pop?_eq_none_iff.mp popped] at first
  | some next =>
    obtain ⟨job', queue⟩ := next
    obtain ⟨rfl, -⟩ := List.cons.inj (first.symm.trans (Queue.toList_of_pop? popped))
    have entered : (m.enter .runOne).events = m.events ++ [.started job] := by
      simp [enter, start?, Executor.next?, going, popped]
    have onward := (outcome_enter sound idle .runOne).reached.1.events (onward_enter sound idle .runOne).sound
    refine ⟨by simp [runOne, start?, Executor.next?, going, popped], ?_⟩
    rw [← entered, show m.runOne.1 = m.call .runOne from rfl, call_eq idle]
    exact onward

/-- What is outermost starts what waits, until nothing waits or a job fails. -/
def Draining (m : Inline) : Prop :=
  m.todo.getLast? = some (.chore .drain) ∨ m.todo = [] ∧ (m.failed = true ∨ m.executor.next? = none)

namespace Draining

/-- What comes before other things that are to be done makes no difference to what is outermost. -/
theorem under {rest : List (Todo Chore)} (outside : rest.getLast? = some (.chore .drain)) (first : List (Todo Chore)) :
    (first ++ rest).getLast? = some (.chore .drain) := by
  rw [List.getLast?_append, outside]
  rfl

theorem submit (h : m.todo.getLast? = some (.chore .drain)) (job : Job) :
    (m.submit job).todo.getLast? = some (.chore .drain) := by
  unfold Inline.submit note
  dsimp only
  split
  · exact under h _
  · split
    · exact under h [_]
    · exact h

theorem step (h : m.todo.getLast? = some (.chore .drain)) : m.step.Draining := by
  -- The drain at the bottom stays there until it is on top.
  have outer {next : Todo Chore} {rest : List (Todo Chore)} (top : m.todo = next :: rest) (inner : next ≠ .chore .drain) :
      rest.getLast? = some (.chore .drain) := by
    rw [top, List.getLast?_cons] at h
    cases last : rest.getLast? with
    | none => exact absurd (by simpa [last] using h) inner
    | some bottom => simpa [last] using h
  unfold Inline.step
  split
  · next none => simp [none] at h
  · next job rest top =>
    have outside := outer top nofun
    exact .inl (submit (m := { m with todo := rest }) outside job)
  · next executor rest top => exact .inl (under (outer top nofun) _)
  · exact .inr ⟨rfl, .inl rfl⟩
  · next job rest top => exact .inl (outer top nofun)
  · next job rest top => exact .inl (under (outer top nofun) _)
  · next rest top =>
    cases started : m.start? with
    | some next =>
      obtain ⟨⟨job, executor⟩, -, rfl⟩ := Option.map_eq_some_iff.mp started
      exact .inl (under h _)
    | none =>
      have nothing : m.executor.next? = Option.none := Option.map_eq_none_iff.mp started
      cases rest with
      | nil => exact .inr ⟨rfl, .inr nothing⟩
      | cons next rest =>
        rw [top, List.getLast?_cons_cons] at h
        exact .inl h

theorem run (h : m.Draining) : m.run.failed = true ∨ m.run.executor.next? = none := by
  fun_induction Inline.run m with
  | case1 m none =>
    have idle : m.todo = [] := List.isEmpty_iff.mp none
    rcases h with bottom | ⟨-, done⟩
    · simp [idle] at bottom
    · exact done
  | case2 m some ih =>
    rcases h with bottom | ⟨idle, -⟩
    · exact ih (step bottom)
    · simp [idle] at some

end Draining

theorem runAll_drains (sound : m.Sound) (idle : m.todo = []) :
    m.runAll.failed = true ∨ m.runAll.executor.queue.toList = [] := by
  refine (Draining.run (m := m.enter .runAll) (.inl rfl)).imp_right fun drained => ?_
  have after := (reaches_call sound idle .runAll).1.sound sound
  cases stopped : m.runAll.executor.stopped with
  | true => exact after.stopped stopped
  | false =>
    have none : (m.enter .runAll).run.executor.queue.pop? = none := by
      unfold Executor.next? at drained
      rw [show (m.enter .runAll).run.executor.stopped = false from stopped] at drained
      exact Option.map_eq_none_iff.mp drained
    exact Queue.pop?_eq_none_iff.mp none

/-! ### The service -/

/-- What an executor does for the jobs that are added to it. -/
structure Service (m : Inline) : Prop where
  /-- Each submission waits, is about to be cancelled, was started once, was cancelled once, or was lost; the last three for
      ever, and the last one only if a job failed as it was cancelled. -/
  once : ∃ r, m.view.Registers group r ∧ r.all.Perm (tickets m.events) ∧ ((tickets m.events).map (·.number)).Nodup ∧
    r.withdrawn.map (·.job) = Todo.cancels m.todo ∧
    r.started.map (·.job) = m.events.filterMap Event.started? ∧
    r.cancelled.map (·.job) = m.events.filterMap Event.cancelled? ∧
    (Harmless m.events → r.lost = []) ∧
    ∀ m', Reaches m m' → ∃ r', m'.view.Registers group r' ∧ View.Follows group m.view r m'.view r'
  /-- A job that was started was the first of those that waited at that moment. -/
  turn : ∀ front job, front ++ [.started job] <+: m.events → ∃ (u : Inline) (r : Register) (t : Ticket) (later : List Ticket),
    Reaches {} u ∧ Reaches u m ∧ u.events = front ∧ u.view.Registers group r ∧
      r.waiting = t :: later ∧ t.job = job ∧ ∀ w ∈ later, t.Before w
  /-- A stop is to cancel what waits, in the order in which it was to be served, before anything else is done. -/
  stop : m.halt.executor.stopped = true ∧ m.halt.events = m.events ∧ ∀ r, m.view.Registers group r →
    r.waiting.Pairwise Ticket.Before ∧ m.halt.todo = r.waiting.map (.cancel ·.job) ++ m.todo ∧
    m.halt.view.Registers group { r with waiting := [], withdrawn := r.waiting ++ r.withdrawn }
  /-- When the stop is over, it has done so. -/
  stopped : m.todo = [] → Harmless m.stop.events → ∃ later, m.stop.events = m.events ++ later ∧
    Barren m.executor.queue.toList later
  /-- After a stop nothing is started, what is added is cancelled at once, what was to be cancelled is cancelled in order, and
      another stop does nothing. -/
  halted : m.executor.stopped = true → m.halt = m ∧ ∀ m', Reaches m m' → m'.executor.stopped = true ∧
    ∃ gone lost later, m'.events = m.events ++ later ∧ Barren gone later ∧
      Todo.cancels m.todo = gone ++ Todo.cancels m'.todo ++ lost ∧ (Harmless m'.events → lost = [])
  /-- A failure loses the job that fails and those in which it runs. -/
  outcome : m.todo = [] → ∀ c, m.Outcome m.events (m.call c)
  /-- What waits is started when it is asked for. -/
  served : m.todo = [] →
    (m.executor.stopped = false → ∀ job rest, m.executor.queue.toList = job :: rest →
      m.runOne.2 = true ∧ m.events ++ [.started job] <+: m.runOne.1.events) ∧
    (m.runAll.failed = true ∨ m.runAll.executor.queue.toList = [])

/-- A stop withdraws what waits. -/
theorem registers_halt (sound : m.Sound) {r : Register} (reg : m.view.Registers group r) :
    m.halt.view.Registers group { r with waiting := [], withdrawn := r.waiting ++ r.withdrawn } := by
  cases stopped : m.executor.stopped with
  | true =>
    have empty : r.waiting = [] := List.map_eq_nil_iff.mp (reg.line.toList.symm.trans (sound.stopped stopped))
    obtain ⟨waiting, withdrawn, started, cancelled, lost⟩ := r
    obtain rfl : waiting = [] := empty
    exact (halt_of_stopped sound stopped).symm ▸ reg
  | false =>
    obtain ⟨before, after, withdrawn, none, halted⟩ := reg.withdraw 0 (show m.view.threads = [] ++ Todo.cancels m.todo :: [] from rfl)
    obtain rfl : before = [] := List.map_eq_nil_iff.mp none
    obtain rfl : r.withdrawn = after := withdrawn
    have rest : r.waiting.filter (!View.isOf group 0 ·) = [] := by simp [View.isOf, group]
    have all : r.waiting.filter (View.isOf group 0) = r.waiting := by simp [View.isOf, group]
    rw [rest, all] at halted
    rw [view_halt stopped]
    exact halted

/-- What is said of a stopped executor by what is seen of it. -/
theorem Reaches.barren (h : Reaches m m') (reached : Reaches {} m') (sound : m.Sound) (stopped : m.executor.stopped = true) :
    m'.executor.stopped = true ∧ ∃ gone lost later, m'.events = m.events ++ later ∧ Barren gone later ∧
      Todo.cancels m.todo = gone ++ Todo.cancels m'.todo ++ lost ∧ (Harmless m'.events → lost = []) := by
  obtain ⟨still, -, gone, left, later, lost, alone, split, barren, parts, failed⟩ := h.halted sound stopped
  obtain rfl : Todo.cancels m'.todo = left := List.singleton_inj.mp alone
  obtain ⟨r, reg⟩ := reached.registered
  refine ⟨?_, gone, lost, later, split, barren, parts, fun harmless => Decidable.byContradiction fun some => ?_⟩
  · simpa [view] using still
  · obtain ⟨job, cancelled, fails⟩ := failed some
    exact harmless job (reg.records.added_of_cancelled cancelled) fails

/-- At each moment of each sequence of calls, an executor serves what was added to it. -/
theorem inline_service (h : Reaches {} m) : m.Service := by
  have sound := h.start
  obtain ⟨r, reg⟩ := h.registered
  exact {
    once := ⟨r, reg, reg.records.perm, nodup_tickets _, by simpa [view] using reg.withdrawn, reg.records.map_started,
      reg.records.map_cancelled, reg.whole, fun _ onward => (onward.steps sound).follows reg⟩
    turn := by
      intro front job early
      obtain ⟨u, reached, onward, events, queue, popped⟩ := h.turn early
      obtain ⟨r, reg⟩ := reached.registered
      obtain ⟨t, later, split, same, -, first⟩ := reg.line.pop popped
      exact ⟨u, r, t, later, reached, onward, events, reg, split, same, first⟩
    stop := by
      refine ⟨rfl, rfl, fun r reg => ⟨reg.line.order, ?_, registers_halt sound reg⟩⟩
      have waiting : m.executor.queue.toList = r.waiting.map (·.job) := reg.line.toList
      rw [show m.halt.todo = m.executor.queue.toList.map .cancel ++ m.todo from rfl, waiting, List.map_map]
      rfl
    stopped := by
      intro idle harmless
      let halted := m.enter .stop
      have begins : Reaches {} halted := h.tail (.called idle .stop)
      obtain ⟨onward, nothing⟩ := (outcome_enter sound idle .stop).reached
      obtain ⟨-, gone, lost, later, events, barren, parts, whole⟩ :=
        onward.barren (begins.trans onward) (onward_enter sound idle .stop).sound rfl
      -- No cancel panics, so none of the tasks that were taken out is lost.
      have all : gone = m.executor.queue.toList := by
        have cancels : Todo.cancels halted.todo = m.executor.queue.toList := by
          simp [halted, enter, halt, Executor.stop, idle]
        rw [← cancels, parts, nothing, whole harmless]
        simp
      exact ⟨later, events, all ▸ barren⟩
    halted := fun stopped => ⟨halt_of_stopped sound stopped, fun _ onward => onward.barren (h.trans onward) sound stopped⟩
    outcome := outcome_call sound
    served := fun idle => ⟨fun going _ _ first => runOne_starts sound idle going first, runAll_drains sound idle⟩ }

/-- A job fails and leaves two that wait; a later one stops the executor from within another that is running. One of those
    that are cancelled then adds a job. -/
def upset : List Call :=
  let a := Job.plan "a" 5 0 [] [.add (.plan "g" 0 0 [] [])]
  let b := Job.plan "b" 1 0 [.add (.plan "c" 2 0 [] []), .fail] []
  let d := Job.plan "d" 0 0 [.add (.plan "e" 0 0 [.stop 0] [])] []
  [.add a, .add b, .runAll, .setRunsOnAdd true, .add d, .add (.plan "f" 3 0 [] [])]

theorem inline_service_upset :
    Reaches {} (upset.foldl call {}) ∧ (upset.foldl call {}).Service ∧
      ((upset.foldl call {}).events.filterMap Event.started?).map Job.name = ["b", "d", "e"] ∧
      ((upset.foldl call {}).events.filterMap Event.ended?).map Job.name = ["e", "d"] ∧
      ((upset.foldl call {}).events.filterMap Event.cancelled?).map Job.name = ["c", "a", "g", "f"] :=
  have reached := (reaches_calls .refl rfl upset).1
  ⟨reached, inline_service reached, by decide +kernel, by decide +kernel, by decide +kernel⟩

/-- Of two jobs that wait when the executor is stopped, the first fails as it is cancelled. The second is neither
    started nor cancelled, and it does not wait any more. -/
theorem inline_service_lost :
    let m := [Call.add (.plan "a" 0 0 [] [.fail]), .add (.plan "b" 0 0 [] []), .stop].foldl call {}
    (m.events.filterMap Event.submitted?).map Job.name = ["a", "b"] ∧ m.executor.queue.toList.length = 0 ∧ m.todo.length = 0 ∧
      (m.events.filterMap Event.started?).map Job.name = [] ∧ (m.events.filterMap Event.cancelled?).map Job.name = ["a"] := by
  decide +kernel

end Inline

end Multiplex
