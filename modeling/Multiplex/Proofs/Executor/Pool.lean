import Multiplex.Executor.Pool
import Multiplex.Proofs.Executor.Todo
import Multiplex.Proofs.Executor.View

/-! # Pools that serve several executors

The worker and those who use the pool take steps at any time, others come in, and the pool is shut down. A job that stops
its own executor, be it while another one is cancelled, waits for its own end (`Pool.isStuck`). What a step does to the
queue, to what is to be cancelled and to the record of events is one of a few things (`Pool.step_exec`). -/

namespace Multiplex.Pool

open Job (Event Todo)
open Relation (ReflTransGen)

variable {p p' : Pool} {todo : List (Todo Chore)}

/-! ### What happens on a pool -/

/-- What goes on by itself: the worker works, and those who use the pool go on with what they do. -/
inductive Labour : Pool → Pool → Prop
  | worked {p : Pool} (busy : p.isIdle = false) (free : p.isStuck = false) : Labour p p.step
  | called {p : Pool} {front back : List (List (Todo Chore))} {todo : List (Todo Chore)}
      (split : p.callers = front ++ todo :: back) (some : todo ≠ []) (free : p.waits todo = false) :
      Labour p { (p.exec todo).1 with callers := front ++ (p.exec todo).2 :: back }

/-- What happens on a pool: what goes on by itself, and what is asked of it at any time. -/
inductive Advance : Pool → Pool → Prop
  | laboured {p p' : Pool} (h : Labour p p') : Advance p p'
  /-- Somebody comes in to add jobs and to stop executors. -/
  | entered (p : Pool) (acts : List Job.Act) : Advance p { p with callers := p.callers ++ [acts.map .act] }
  | closed (p : Pool) : Advance p { p with shuttingDown := true }

def Labours : Pool → Pool → Prop := ReflTransGen Labour

def Reaches : Pool → Pool → Prop := ReflTransGen Advance

theorem Labours.reaches (h : Labours p p') : Reaches p p' := by
  induction h with
  | refl => exact .refl
  | tail _ last ih => exact ih.tail (.laboured last)

/-- What the worker does. -/
inductive Work (p : Pool) : Pool → Prop
  | started {job : Job} {queue : Queue Job} (free : p.running = none) (idle : p.worker = [])
      (next : p.queue.pop? = some (job, queue)) :
      Work p ({ p with queue, running := some job, worker := Todo.ofRun job }.note (.started job))
  | released {job : Job} (on : p.running = some job) (done : p.worker = []) : Work p { p with running := none }
  | went (some : p.worker ≠ []) : Work p { (p.exec p.worker).1 with worker := (p.exec p.worker).2 }

theorem work_cases (busy : p.isIdle = false) : p.Work p.step := by
  unfold step
  split
  · next idle none =>
    split
    · next nothing =>
      rw [Queue.pop?_eq_none_iff, Queue.toList_eq, List.map_eq_nil_iff] at nothing
      simp [isIdle, none, idle, Queue.isEmpty_iff.mpr nothing] at busy
    · next job queue popped => exact .started none idle popped
  · next done on => exact .released on done
  · next outside =>
    refine .went fun none => ?_
    cases on : p.running <;> simp_all

theorem Work.step_eq (h : p.Work p') : p.step = p' := by
  unfold step
  cases h with
  | started free idle next => rw [free, idle, next]
  | released on done => rw [on, done]
  | went some =>
    split
    · next none _ => exact absurd none some
    · next none _ => exact absurd none some
    · rfl

theorem Work.busy (h : p.Work p') : p.isIdle = false := by
  unfold isIdle
  cases h with
  | started free idle next =>
    have some : p.queue.isEmpty = false := by
      obtain ⟨rank, entries⟩ := Queue.entries_of_pop? next
      simp [Bool.eq_false_iff, Queue.isEmpty_iff, entries]
    rw [some, Bool.and_false]
  | released on => simp [on]
  | went some => simp [List.isEmpty_eq_false_iff.mpr some]

/-- What the worker does touches no other thread. -/
theorem Work.callers (h : p.Work p') : p'.callers = p.callers := by
  cases h with
  | started | released => rfl
  | went => exact (p.exec_rest p.worker).2.2.1

/-- A job that is refused is cancelled at once. -/
theorem submit_of_refuses {job : Job} (refuses : p.refuses job.owner = true) :
    p.submit job = ({ p with events := p.events ++ [.added job, .cancelled job] }, Todo.ofCancel job) := by
  have refuses : (p.note (.added job)).refuses job.owner = true := refuses
  unfold submit
  dsimp only
  rw [if_pos refuses]
  simp [note]

theorem submit_of_takes {job : Job} (takes : p.refuses job.owner = false) :
    p.submit job = ({ p with queue := p.queue.push job.priority job, events := p.events ++ [.added job] }, []) := by
  have takes : (p.note (.added job)).refuses job.owner = false := takes
  unfold submit
  dsimp only
  rw [takes]
  rfl

/-! ### Changes -/

def view (p : Pool) : View :=
  { queue := p.queue, stopped := p.stopped, threads := (p.worker :: p.callers).map Todo.cancels, events := p.events }

/-- What a thread does is one of a few things. -/
theorem step_exec (caused : Todo.Caused p.events todo) (front back : List (List Job)) :
    View.Step Job.owner { p.view with threads := front ++ Todo.cancels todo :: back }
      { (p.exec todo).1.view with threads := front ++ Todo.cancels (p.exec todo).2 :: back } := by
  -- The cases are those of what the thread has to do next.
  unfold exec
  split
  · exact .passed _
  · next job rest =>
    cases refuses : p.refuses job.owner with
    | true =>
      rw [submit_of_refuses refuses]
      simp only [Todo.cancels_append, Todo.cancels_ofCancel, List.nil_append]
      exact .refused { p.view with threads := front ++ Todo.cancels rest :: back } job
    | false =>
      obtain ⟨-, going⟩ : p.shuttingDown = false ∧ job.owner ∉ p.stopped := by simpa [Pool.refuses] using refuses
      rw [submit_of_takes refuses]
      exact .waits (v := { p.view with threads := front ++ Todo.cancels rest :: back }) going
  · next executor rest =>
    have step : View.Step Job.owner { p.view with threads := front ++ Todo.cancels rest :: back } _ := .withdrawn executor rfl
    have cancels : Todo.cancels ((p.withdraw executor).2 ++ rest) =
        p.queue.toList.filter (·.of executor) ++ Todo.cancels rest := by
      simp [withdraw]
    rw [cancels]
    exact step
  · next rest => exact .lost (v := { p.view with threads := front ++ Todo.cancels rest :: back }) rfl fun some => caused.fail some
  · next job rest => exact .ended { p.view with threads := front ++ Todo.cancels rest :: back } job
  · next job rest =>
    have step : View.Step Job.owner { p.view with threads := front ++ (job :: Todo.cancels rest) :: back } _ := .settled rfl
    simp only [Todo.cancels_append, Todo.cancels_ofCancel, List.nil_append]
    exact step
  · next executor rest =>
    have same : Todo.cancels (if p.isRunning executor then .chore (.await executor) :: rest else rest) = Todo.cancels rest := by
      split <;> rfl
    rw [same]
    exact .passed _

theorem events_exec (p : Pool) (todo : List (Todo Chore)) : p.events <+: (p.exec todo).1.events := by
  unfold exec
  split
  · exact List.prefix_refl _
  · next job rest =>
    unfold submit note
    dsimp only
    split
    · exact (List.prefix_append ..).trans (List.prefix_append ..)
    · exact List.prefix_append ..
  · exact List.prefix_refl _
  · exact List.prefix_refl _
  · exact List.prefix_append ..
  · exact List.prefix_append ..
  · exact List.prefix_refl _

theorem caused_exec (caused : Todo.Caused p.events todo) : Todo.Caused (p.exec todo).1.events (p.exec todo).2 := by
  have later := caused.mono (events_exec p todo).subset
  unfold exec at later ⊢
  split at later
  · exact later
  · next job rest =>
    cases refuses : p.refuses job.owner with
    | true =>
      rw [submit_of_refuses refuses] at later ⊢
      exact later.tail.ofCancel (by simp)
    | false =>
      rw [submit_of_takes refuses] at later ⊢
      exact later.tail
  · next executor rest => exact (later.tail.cancel _).push [.chore (.await executor)] (by simp)
  · exact .of_cancels rfl
  · exact later.tail
  · exact later.tail.ofCancel (by simp [note])
  · dsimp only
    split
    · exact later
    · exact later.tail

/-- What holds of a pool between two steps. -/
structure Sound (p : Pool) : Prop where
  caused : ∀ todo ∈ p.worker :: p.callers, Todo.Caused p.events todo
  /-- What the worker does it does for some job. -/
  idle : p.running = none → p.worker = []

theorem Labour.sound (h : Labour p p') (sound : p.Sound) : p'.Sound ∧ p.view.Step Job.owner p'.view := by
  have later {q : Pool} (events : p.events <+: q.events) {todo : List (Todo Chore)} (member : todo ∈ p.worker :: p.callers) :
      Todo.Caused q.events todo :=
    (sound.caused todo member).mono events.subset
  cases h with
  | @called front back todo split some free =>
    obtain ⟨running, worker, -⟩ := p.exec_rest todo
    have inside : todo ∈ p.worker :: p.callers := by simp [split]
    have step := step_exec (sound.caused todo inside) ((p.worker :: front).map Todo.cancels) (back.map Todo.cancels)
    refine ⟨⟨fun other member => ?_, fun free => worker.trans (sound.idle (running.symm.trans free))⟩, ?_⟩
    -- All threads but the one that took a step are as they were.
    · have old : other = (p.exec todo).2 ∨ other ∈ p.worker :: p.callers := by
        simp only [worker, split, List.mem_cons, List.mem_append] at member ⊢
        grind
      rcases old with rfl | old
      · exact caused_exec (sound.caused todo inside)
      · exact later (events_exec p todo) old
    · simpa [view, split, worker] using step
  | worked busy free =>
    have work := work_cases busy
    generalize p.step = p' at work
    cases work with
    | @started job queue none idle next =>
      have step : View.Step Job.owner p.view _ := .started next
      refine ⟨⟨fun other member => ?_, nofun⟩, by simpa [view, note, idle] using step⟩
      rcases List.mem_cons.mp member with rfl | caller
      · exact .of_cancels (by simp [note])
      · exact later (List.prefix_append ..) (List.mem_cons_of_mem _ caller)
    | released on done => exact ⟨⟨sound.caused, fun _ => done⟩, .passed _⟩
    | went some =>
      obtain ⟨running, -, callers, -⟩ := p.exec_rest p.worker
      have caused := sound.caused p.worker (List.mem_cons_self ..)
      have step := step_exec caused [] (p.callers.map Todo.cancels)
      refine ⟨⟨fun other member => ?_, fun free => absurd (sound.idle (running.symm.trans free)) some⟩, ?_⟩
      · rcases List.mem_cons.mp member with rfl | caller
        · exact caused_exec caused
        · exact later (events_exec p p.worker) (List.mem_cons_of_mem _ (callers ▸ caller))
      · simpa [view, callers] using step

theorem Advance.sound (h : Advance p p') (sound : p.Sound) : p'.Sound ∧ p.view.Step Job.owner p'.view := by
  cases h with
  | laboured h => exact h.sound sound
  | entered acts =>
    have step : View.Step Job.owner p.view _ := .entered p.view
    refine ⟨⟨fun other member => ?_, sound.idle⟩, by simpa [view] using step⟩
    rcases List.mem_append.mp (List.cons_append ▸ member : other ∈ (p.worker :: p.callers) ++ [acts.map .act]) with old | new
    · exact sound.caused other old
    · obtain rfl := List.mem_singleton.mp new
      exact .of_cancels (Todo.cancels_acts _)
  | closed => exact ⟨⟨sound.caused, sound.idle⟩, .passed _⟩

namespace Reaches

theorem sound (h : Reaches p p') (sound : p.Sound) : p'.Sound := by
  induction h with
  | refl => exact sound
  | tail _ last ih => exact (last.sound ih).1

theorem start (h : Reaches {} p) : p.Sound :=
  h.sound ⟨fun todo member => by obtain rfl := List.mem_singleton.mp member; exact .of_cancels rfl, fun _ => rfl⟩

theorem steps (h : Reaches p p') (sound : p.Sound) : View.Steps Job.owner p.view p'.view := by
  induction h with
  | refl => exact .refl
  | tail path last ih => exact ih.tail (last.sound (Reaches.sound path sound)).2

theorem registered (h : Reaches {} p) : ∃ r, p.view.Registers Job.owner r := by
  obtain ⟨r, reg, -⟩ := (h.steps (start .refl)).follows View.Registers.initial
  exact ⟨r, reg⟩

/-- Each job that was started was the first of the queue at some moment. -/
theorem turn (h : Reaches {} p) {front : List Event} {job : Job} (early : front ++ [.started job] <+: p.events) :
    ∃ u, Reaches {} u ∧ Reaches u p ∧ u.events = front ∧ ∃ queue, u.queue.pop? = some (job, queue) :=
  View.turn view rfl (fun path last => (last.sound (start path)).2) h early

end Reaches

/-! ### Refusals -/

theorem Labour.closing (h : Labour p p') : p'.shuttingDown = p.shuttingDown := by
  cases h with
  | @called _ _ todo => exact (p.exec_rest todo).2.2.2
  | worked busy =>
    have work := work_cases busy
    generalize p.step = p' at work
    cases work with
    | started | released => rfl
    | went => exact (p.exec_rest p.worker).2.2.2

theorem Reaches.closing (h : Reaches p p') (closing : p.shuttingDown = true) : p'.shuttingDown = true := by
  induction h with
  | refl => exact closing
  | tail _ last ih =>
    cases last with
    | laboured h => exact h.closing.trans ih
    | entered => exact ih
    | closed => rfl

/-- An executor that refuses jobs never takes any again. -/
theorem Reaches.refuses (start : Reaches {} p) (h : Reaches p p') {executor : Nat} (refuses : p.refuses executor = true) :
    p'.refuses executor = true := by
  obtain ⟨r, reg⟩ := start.registered
  obtain ⟨r', -, follows⟩ := (h.steps start.start).follows reg
  rcases Bool.or_eq_true_iff.mp refuses with closing | stopped
  · rw [Pool.refuses, h.closing closing, Bool.true_or]
  · have still : executor ∈ p'.stopped := follows.stopped executor (List.contains_iff_mem.mp stopped)
    rw [Pool.refuses, List.contains_iff_mem.mpr still, Bool.or_true]

/-! ### Rest -/

/-- What is left to do. -/
def burden (p : Pool) : Nat := p.work + Todo.workAll p.callers.flatten

theorem Labour.burden (h : Labour p p') : p'.burden < p.burden := by
  cases h with
  | @called front back todo split some free =>
    obtain ⟨running, worker, -⟩ := p.exec_rest todo
    have less := p.work_exec some free
    simp only [Pool.burden, work, running, worker, split, List.flatten_append, List.flatten_cons, Todo.workAll_append]
    omega
  | worked busy free =>
    have less := work_step p busy free
    rw [Pool.burden, Pool.burden, (work_cases busy).callers]
    omega

/-- What goes on by itself comes to its end. -/
theorem wellFounded_labour : WellFounded fun p' p => Labour p p' :=
  Subrelation.wf Labour.burden (measure burden).wf

/-- The worker waits for itself when its job has stopped the executor that it belongs to. -/
theorem exists_of_stuck (stuck : p.isStuck = true) :
    ∃ job rest, p.running = some job ∧ p.worker = .chore (.await job.owner) :: rest := by
  unfold isStuck waits at stuck
  split at stuck
  · next x rest top =>
    cases on : p.running with
    | none => simp [isRunning, on] at stuck
    | some job =>
      obtain rfl : job.owner = x := by simpa [isRunning, on, Job.of] using stuck
      exact ⟨job, rest, rfl, top⟩
  · cases stuck

/-- When nothing goes on by itself, everything is done, or the worker waits for itself. -/
theorem at_rest (rest : ∀ p', ¬ Labour p p') : p.isStuck = true ∨ p.isIdle = true ∧ ∀ todo ∈ p.callers, todo = [] := by
  cases stuck : p.isStuck with
  | true => exact .inl rfl
  | false =>
    cases idle : p.isIdle with
    | false => exact absurd (.worked idle stuck) (rest _)
    | true =>
      refine .inr ⟨rfl, fun todo member => Decidable.byContradiction fun some => ?_⟩
      obtain ⟨front, back, split⟩ := List.append_of_mem member
      have free : p.running = none := by simpa using (Bool.and_eq_true_iff.mp (Bool.and_eq_true_iff.mp idle).1).1
      have waits : p.waits todo = false := by
        unfold waits
        split
        · simp [isRunning, free]
        · rfl
      exact rest _ (.called split some waits)

/-- Running all that waits is what goes on by itself, as long as the worker does not wait for itself. -/
theorem labours_runAll (p : Pool) : Labours p p.runAll ∧ (p.runAll.isIdle = true ∨ p.runAll.isStuck = true) := by
  fun_induction runAll p with
  | case1 p done => exact ⟨.refl, Bool.or_eq_true_iff.mp done⟩
  | case2 p going ih =>
    obtain ⟨busy, free⟩ : p.isIdle = false ∧ p.isStuck = false := by simpa using going
    exact ⟨.head (.worked busy free) ih.1, ih.2⟩

/-- A thread that comes in and goes on. -/
theorem labours_drive (p : Pool) (todo : List (Todo Chore)) :
    Labours { p with callers := p.callers ++ [todo] } (p.drive todo) := by
  fun_induction drive p todo with
  | case1 p todo done => exact .refl
  | case2 p todo going ih =>
    obtain ⟨some, free⟩ : todo ≠ [] ∧ p.waits todo = false := by simpa using going
    have split : ({ p with callers := p.callers ++ [todo] } : Pool).callers = p.callers ++ todo :: [] := rfl
    have first := Labour.called split some free
    rw [exec_others p p.worker (p.callers ++ [todo]) todo] at first
    obtain ⟨-, worker, callers, -⟩ := p.exec_rest todo
    rw [callers] at ih
    refine .head first ?_
    rw [← worker] at *
    exact ih

theorem waiting_of_idle {r : Register} (reg : p.view.Registers Job.owner r) (idle : p.isIdle = true) : r.waiting = [] := by
  have empty : p.queue.entries = [] := Queue.isEmpty_iff.mp (Bool.and_eq_true_iff.mp idle).2
  exact List.map_eq_nil_iff.mp (reg.line.entries.symm.trans empty)

/-- When everything is done, nothing is still to be cancelled. -/
theorem withdrawn_of_done {r : Register} (reg : p.view.Registers Job.owner r) (idle : p.isIdle = true)
    (done : ∀ todo ∈ p.callers, todo = []) : r.withdrawn = [] := by
  have worker : p.worker = [] := by simpa using (Bool.and_eq_true_iff.mp (Bool.and_eq_true_iff.mp idle).1).2
  have nothing : (p.view.threads).flatten = [] := by
    refine List.flatten_eq_nil_iff.mpr fun jobs member => ?_
    obtain ⟨todo, inside, rfl⟩ := List.mem_map.mp member
    rcases List.mem_cons.mp inside with rfl | caller
    · rw [worker, Todo.cancels_nil]
    · rw [done todo caller, Todo.cancels_nil]
  exact List.map_eq_nil_iff.mp (reg.withdrawn.trans nothing)

/-- When nothing waits any more, what waited before has been started, or its executor has been stopped. -/
theorem started_of_idle {v : View} {r r' : Register} (follows : View.Follows Job.owner v r p.view r')
    (reg : p.view.Registers Job.owner r') (idle : p.isIdle = true) {t : Ticket} (waits : t ∈ r.waiting)
    (going : t.job.owner ∉ p.stopped) : t ∈ r'.started := by
  rcases follows.kept t waits going with still | started
  · simp [waiting_of_idle reg idle] at still
  · exact started

/-! ### Stops -/

/-- A thread stops an executor. Beside the pool after that stands the one on which the thread does not. -/
inductive Stops (executor : Nat) (p : Pool) : Pool → Pool → Prop
  | worker {rest : List (Todo Chore)} (top : p.worker = .act (.stop executor) :: rest) :
      Stops executor p { (p.withdraw executor).1 with worker := (p.withdraw executor).2 ++ rest } { p with worker := rest }
  | caller {front back : List (List (Todo Chore))} {rest : List (Todo Chore)}
      (split : p.callers = front ++ (.act (.stop executor) :: rest) :: back) :
      Stops executor p { (p.withdraw executor).1 with callers := front ++ ((p.withdraw executor).2 ++ rest) :: back }
        { p with callers := front ++ rest :: back }

namespace Stops
variable {spared : Pool} {executor : Nat} {r : Register}

theorem labour (h : p.Stops executor p' spared) : Labour p p' := by
  cases h with
  | @worker rest top =>
    have went : p.Work _ := .went (by simp [top])
    have step := Labour.worked went.busy (by simp [isStuck, waits, top])
    rw [went.step_eq, top] at step
    exact step
  | caller split => exact .called split (by simp) rfl

/-- A stop takes just the waiting jobs of its executor out of the queue. -/
theorem registers (h : p.Stops executor p' spared) (reg : p.view.Registers Job.owner r) :
    ∃ before after, r.withdrawn = before ++ after ∧ p'.view.Registers Job.owner
      { r with
        waiting := r.waiting.filter (!View.isOf Job.owner executor ·),
        withdrawn := before ++ r.waiting.filter (View.isOf Job.owner executor) ++ after } := by
  cases h with
  | @worker rest top =>
    have split : p.view.threads = [] ++ Todo.cancels rest :: p.callers.map Todo.cancels := by simp [view, top]
    obtain ⟨before, after, withdrawn, -, reg'⟩ := reg.withdraw executor split
    refine ⟨before, after, withdrawn, ?_⟩
    simpa [view, withdraw, Job.of] using reg'
  | @caller front back rest split =>
    have split' : p.view.threads = (p.worker :: front).map Todo.cancels ++ Todo.cancels rest :: back.map Todo.cancels := by
      simp [view, split]
    obtain ⟨before, after, withdrawn, -, reg'⟩ := reg.withdraw executor split'
    refine ⟨before, after, withdrawn, ?_⟩
    simpa [view, withdraw, Job.of] using reg'

theorem others (h : p.Stops executor p' spared) :
    p'.running = p.running ∧ p'.events = p.events ∧ p'.stopped = executor :: p.stopped := by
  cases h <;> exact ⟨rfl, rfl, rfl⟩

/-- The pool on which the thread does not stop the executor is as it should be. -/
theorem sound (h : p.Stops executor p' spared) (sound : p.Sound) : spared.Sound := by
  cases h with
  | @worker rest top =>
    refine ⟨fun todo member => ?_, fun none => absurd (sound.idle none) (by simp [top])⟩
    rcases List.mem_cons.mp member with rfl | caller
    · exact (top ▸ sound.caused p.worker (List.mem_cons_self ..)).tail
    · exact sound.caused todo (List.mem_cons_of_mem _ caller)
  | @caller front back rest split =>
    refine ⟨fun todo member => ?_, sound.idle⟩
    rcases List.mem_cons.mp member with rfl | caller
    · exact sound.caused p.worker (List.mem_cons_self ..)
    · rcases List.mem_cons.mp (List.perm_middle.mem_iff.mp caller) with rfl | old
      · exact (sound.caused (.act (.stop executor) :: todo) (by simp [split])).tail
      · exact sound.caused todo (List.mem_cons_of_mem _ (split ▸ List.perm_middle.mem_iff.mpr (List.mem_cons_of_mem _ old)))

end Stops

theorem drive_done (p : Pool) : p.drive [] = { p with callers := p.callers ++ [[]] } := by
  rw [drive]
  rfl

theorem drive_next {next : Todo Chore} {rest : List (Todo Chore)} (free : p.waits (next :: rest) = false) :
    p.drive (next :: rest) = (p.exec (next :: rest)).1.drive (p.exec (next :: rest)).2 := by
  rw [drive, free]
  rfl

/-- Jobs that do nothing when they are cancelled. -/
theorem drive_cancel {jobs : List Job} (calm : ∀ job ∈ jobs, job.onCancel = []) :
    p.drive (jobs.map .cancel) = { p with callers := p.callers ++ [[]], events := p.events ++ jobs.map .cancelled } := by
  induction jobs generalizing p with
  | nil => simpa using p.drive_done
  | cons job rest ih =>
    obtain ⟨first, others⟩ := List.forall_mem_cons.mp calm
    rw [List.map_cons, drive_next rfl]
    simp only [exec, Todo.ofCancel, first, List.map_nil, List.nil_append]
    rw [ih others]
    simp [note]

/-- A stop that has nothing to wait for cancels the waiting jobs of its executor at once, and if they do nothing then,
    nothing else happens. -/
theorem stop_calm {executor : Nat} (free : p.isRunning executor = false)
    (calm : ∀ job ∈ p.queue.toList.filter (·.of executor), job.onCancel = []) :
    p.stop executor =
      { (p.withdraw executor).1 with
        callers := p.callers ++ [[]],
        events := p.events ++ (p.queue.toList.filter (·.of executor)).map .cancelled } := by
  let own := p.queue.toList.filter (·.of executor)
  have left : (p.withdraw executor).2 = .chore (.await executor) :: own.map .cancel := rfl
  have ready : (p.withdraw executor).1.waits (.chore (.await executor) :: own.map .cancel) = false := free
  have passes : (p.withdraw executor).1.exec (p.withdraw executor).2 = ((p.withdraw executor).1, own.map .cancel) := by
    rw [left, exec, show (p.withdraw executor).1.isRunning executor = false from free]
    rfl
  rw [stop, drive_next rfl]
  show (p.withdraw executor).1.drive ((p.withdraw executor).2 ++ []) = _
  rw [List.append_nil, left, drive_next ready, ← left, passes]
  exact drive_cancel calm

theorem reaches_drive (p : Pool) (acts : List Job.Act) : Reaches p (p.drive (acts.map .act)) :=
  .head (.entered p acts) (labours_drive ..).reaches

end Multiplex.Pool
