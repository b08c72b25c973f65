import Multiplex.Executor.Job

/-! # Pools

A pool has one worker and one queue for several executors. Those who use the pool are threads of their own: each takes one
step after the other (`Pool.exec`), and so does the worker (`Pool.step`), and anything may happen on the pool between two
steps. Stopping an executor takes its own waiting jobs out of the queue at once and touches no others; they are cancelled by
the thread that stopped it, which waits for that until no job of the executor is running. A pool that shuts down runs
what waits and cancels whatever is added from then on. -/

namespace Multiplex

open Job (Todo)

/-- What else a thread does. -/
inductive Pool.Chore where
  /-- It waits until no job of an executor is running. -/
  | await (executor : Nat)

/-- A pool with a single worker. -/
structure Pool where
  queue : Queue Job := .empty
  /-- The executors that have been stopped. -/
  stopped : List Nat := []
  shuttingDown : Bool := false
  /-- The job that the worker is on. -/
  running : Option Job := none
  /-- What the worker has yet to do for it. -/
  worker : List (Todo Pool.Chore) := []
  /-- What those who use the pool have yet to do. -/
  callers : List (List (Todo Pool.Chore)) := []
  events : List Job.Event := []

/-- Whether a job belongs to an executor. -/
def Job.of (executor : Nat) (job : Job) : Bool := job.owner == executor

namespace Pool

def note (p : Pool) (e : Job.Event) : Pool := { p with events := p.events ++ [e] }

/-- Whether a job added to an executor is cancelled at once. -/
def refuses (p : Pool) (executor : Nat) : Bool := p.shuttingDown || p.stopped.contains executor

/-- Whether a job of an executor is running. -/
def isRunning (p : Pool) (executor : Nat) : Bool := p.running.any (·.of executor)

/-! ### Threads -/

/-- Lets a job wait, or cancels it. The thread then does what comes of that first. -/
def submit (p : Pool) (job : Job) : Pool × List (Todo Chore) :=
  let p := p.note (.added job)
  if p.refuses job.owner then (p.note (.cancelled job), Todo.ofCancel job)
  else ({ p with queue := p.queue.push job.priority job }, [])

/-- Takes the waiting jobs of an executor out of the queue, and lets it have no others. The thread then waits for the
    job that is running, and cancels those that were taken out. -/
def withdraw (p : Pool) (executor : Nat) : Pool × List (Todo Chore) :=
  ({ p with queue := p.queue.filter (!·.of executor), stopped := executor :: p.stopped },
    .chore (.await executor) :: (p.queue.toList.filter (·.of executor)).map .cancel)

/-- Whether a thread waits for the end of a job. -/
def waits (p : Pool) : List (Todo Chore) → Bool
  | .chore (.await executor) :: _ => p.isRunning executor
  | _ => false

/-- One step of a thread, and what it has to do then. -/
def exec (p : Pool) (todo : List (Todo Chore)) : Pool × List (Todo Chore) :=
  match todo with
  | [] => (p, [])
  | .act (.add job) :: rest => ((p.submit job).1, (p.submit job).2 ++ rest)
  | .act (.stop executor) :: rest => ((p.withdraw executor).1, (p.withdraw executor).2 ++ rest)
  | .act .fail :: _ => (p, [])
  | .finish job :: rest => (p.note (.ended job), rest)
  | .cancel job :: rest => (p.note (.cancelled job), Todo.ofCancel job ++ rest)
  | .chore (.await executor) :: rest => (p, if p.isRunning executor then todo else rest)

theorem work_exec (p : Pool) {todo : List (Todo Chore)} (some : todo ≠ []) (free : p.waits todo = false) :
    (p.exec todo).1.queue.work + Todo.workAll (p.exec todo).2 < p.queue.work + Todo.workAll todo := by
  unfold exec
  split
  · contradiction
  · next job rest =>
    unfold submit note
    dsimp only
    split <;>
      simp only [Todo.workAll, Todo.work, Job.Act.work, Todo.workAll_append, Todo.workAll_ofCancel, Queue.work_push,
        Job.work_eq job] <;> omega
  · next executor rest =>
    -- To cancel a job that was taken out costs no more than the job itself, which left the queue.
    have fewer := Queue.work_filter Chore (·.of executor) p.queue
    simp only [withdraw, List.cons_append, Todo.workAll, Todo.work, Job.Act.work, Todo.workAll_append] at fewer ⊢
    omega
  · simp only [Todo.workAll, Todo.work, Job.Act.work]
    omega
  · simp only [note, Todo.workAll, Todo.work]
    omega
  · simp only [note, Todo.workAll, Todo.work, Todo.workAll_append, Todo.workAll_ofCancel]
    omega
  · next executor rest =>
    have free : p.isRunning executor = false := free
    simp only [free, Todo.workAll, Todo.work, Bool.false_eq_true, if_false]
    omega

/-- What a thread does not touch. -/
theorem exec_rest (p : Pool) (todo : List (Todo Chore)) :
    (p.exec todo).1.running = p.running ∧ (p.exec todo).1.worker = p.worker ∧ (p.exec todo).1.callers = p.callers ∧
      (p.exec todo).1.shuttingDown = p.shuttingDown := by
  unfold exec
  split
  · exact ⟨rfl, rfl, rfl, rfl⟩
  · unfold submit note
    dsimp only
    split <;> exact ⟨rfl, rfl, rfl, rfl⟩
  all_goals exact ⟨rfl, rfl, rfl, rfl⟩

/-- What a thread does does not depend on the others. -/
theorem exec_others (p : Pool) (worker : List (Todo Chore)) (callers : List (List (Todo Chore))) (todo : List (Todo Chore)) :
    { p with worker, callers }.exec todo = ({ (p.exec todo).1 with worker, callers }, (p.exec todo).2) := by
  unfold exec
  split
  · rfl
  · unfold submit note refuses
    dsimp only
    split <;> rfl
  all_goals rfl

/-- Lets a thread come in and go on until it is done or has to wait. -/
def drive (p : Pool) (todo : List (Todo Chore)) : Pool :=
  if todo.isEmpty || p.waits todo then { p with callers := p.callers ++ [todo] }
  else drive (p.exec todo).1 (p.exec todo).2
termination_by p.queue.work + Todo.workAll todo
decreasing_by exact work_exec p (by simp_all) (by simp_all)

def add (p : Pool) (job : Job) : Pool := p.drive [.act (.add job)]

/-- Stops an executor. Its waiting jobs are cancelled at once if there is nothing to wait for. -/
def stop (p : Pool) (executor : Nat) : Pool := p.drive [.act (.stop executor)]

/-! ### Working -/

/-- What the worker does next: it goes on with its job, or takes one if it has none. When nothing is left to do for its
    job, be it that the job has failed, the job does not count as running any more. -/
def step (p : Pool) : Pool :=
  match p.worker, p.running with
  | [], none =>
    match p.queue.pop? with
    | none => p
    | some (job, queue) => { p with queue, running := some job, worker := Todo.ofRun job }.note (.started job)
  | [], some _ => { p with running := none }
  | todo, _ => { (p.exec todo).1 with worker := (p.exec todo).2 }

/-- Whether the worker has nothing to do. -/
def isIdle (p : Pool) : Bool := p.running.isNone && p.worker.isEmpty && p.queue.isEmpty

/-- Whether the worker waits for the end of the job that it is on. -/
def isStuck (p : Pool) : Bool := p.waits p.worker

/-- A bound on the steps that the worker has left. -/
def work (p : Pool) : Nat := p.queue.work + Todo.workAll p.worker + (if p.running.isSome then 1 else 0)

theorem work_step (p : Pool) (busy : p.isIdle = false) (free : p.isStuck = false) : p.step.work < p.work := by
  unfold step
  split
  · next none idle =>
    split
    · next nothing =>
      rw [Queue.pop?_eq_none_iff, Queue.toList_eq, List.map_eq_nil_iff] at nothing
      simp [isIdle, none, idle, Queue.isEmpty_iff.mpr nothing] at busy
    · next job queue taken =>
      simp only [work, note, none, idle, Queue.work_of_pop? taken, Todo.workAll_ofRun, Todo.workAll, Job.work_eq job,
        Option.isSome_some, if_true]
      omega
  · next none job on =>
    simp only [work, on, Option.isSome_some, Option.isSome_none, Bool.false_eq_true, if_true, if_false]
    omega
  · next todo =>
    have some : p.worker ≠ [] := by
      intro none
      cases on : p.running <;> simp_all
    have less := p.work_exec some free
    rw [work, work, (p.exec_rest p.worker).1]
    dsimp only
    omega

/-- Runs all that waits, with the jobs that are added meanwhile. -/
def runAll (p : Pool) : Pool := if p.isIdle || p.isStuck then p else runAll p.step
termination_by p.work
decreasing_by exact work_step p (by simp_all) (by simp_all)

/-- Shuts the pool down: what waits still runs, but what it adds is cancelled. -/
def shutDown (p : Pool) : Pool := { p with shuttingDown := true }.runAll

end Pool

end Multiplex
