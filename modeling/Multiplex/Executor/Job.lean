import Multiplex.Executor.Basic

/-! # Jobs

A job is a task that takes some actions when it runs, and others when it is cancelled: it adds further jobs, stops an
executor, or fails. What a thread has yet to do is a list (`Job.Todo`), and what an action leads to comes before the rest
of it. A failure drops the list; the jobs in it that were still to be cancelled are lost.

On an executor that runs tasks as they are added, jobs run inside one another to any depth. `Inline.step` is one step of
such a run, `Inline.run` goes on until nothing is left to do; that it ends is seen by the work that is left
(`Inline.work`), which every step makes less. -/

namespace Multiplex

mutual

inductive Job where
  | plan (name : String) (priority owner : Nat) (acts onCancel : List Job.Act)

/-- What a job does. -/
inductive Job.Act where
  | add (job : Job)
  /-- Where there is one executor only, it is the one that stops. -/
  | stop (executor : Nat)
  /-- Ends what is in progress. -/
  | fail

end

namespace Job

instance : Inhabited Job := ⟨plan "" 0 0 [] []⟩

/-- The job that adds jobs, then stops the first executor if it is to, and at last fails if it is to. It does nothing when
    it is cancelled. -/
def mk (name : String) (priority owner : Nat) (adds : List Job) (stops fails : Bool) : Job :=
  plan name priority owner
    (adds.map .add ++ (if stops then [.stop 0] else []) ++ (if fails then [.fail] else [])) []

def name : Job → String | plan name .. => name
def priority : Job → Nat | plan _ priority .. => priority
/-- The executor that the job is added to, where there are several. -/
def owner : Job → Nat | plan _ _ owner .. => owner
/-- What the job does when it runs, in order. -/
def acts : Job → List Act | plan _ _ _ acts _ => acts
/-- What the job does when it is cancelled, in order. -/
def onCancel : Job → List Act | plan _ _ _ _ onCancel => onCancel

mutual

/-- A bound on the steps that a job takes, with all the jobs that it leads to. -/
def work : Job → Nat
  | plan _ _ _ acts onCancel => 3 + workAll acts + workAll onCancel

def Act.work : Act → Nat
  | .add job => job.work + 2
  | .stop _ => 2
  | .fail => 1

/-- A bound on the steps that actions take, with all the jobs that they lead to. -/
def workAll : List Act → Nat
  | [] => 0
  | act :: rest => act.work + workAll rest

end

theorem work_eq (job : Job) : job.work = 3 + workAll job.acts + workAll job.onCancel := by
  cases job
  rw [work, acts, onCancel]

inductive Event where
  | added (job : Job)
  | started (job : Job)
  | ended (job : Job)
  | cancelled (job : Job)

/-- What is yet to be done. A kind of executor has chores of its own. -/
inductive Todo (Chore : Type) where
  | act (act : Act)
  /-- A job that was started comes to its end. -/
  | finish (job : Job)
  /-- A job that a stop took out of the queue is cancelled. -/
  | cancel (job : Job)
  | chore (chore : Chore)

namespace Todo

variable {Chore : Type}

/-- What a job does when it runs, to its end. -/
def ofRun (job : Job) : List (Todo Chore) := job.acts.map .act ++ [.finish job]

/-- What a job does when it is cancelled. -/
def ofCancel (job : Job) : List (Todo Chore) := job.onCancel.map .act

def work : Todo Chore → Nat
  | .act does => does.work
  | .cancel job => 1 + Job.workAll job.onCancel
  | .finish _ | .chore _ => 1

/-- A bound on the steps that are yet to be taken, with all the jobs that they lead to. -/
def workAll : List (Todo Chore) → Nat
  | [] => 0
  | next :: rest => next.work + workAll rest

theorem workAll_append (front back : List (Todo Chore)) : workAll (front ++ back) = workAll front + workAll back := by
  induction front with
  | nil => exact (Nat.zero_add _).symm
  | cons next rest ih => rw [List.cons_append, workAll, workAll, ih, Nat.add_assoc]

theorem workAll_acts (acts : List Act) : workAll (acts.map .act : List (Todo Chore)) = Job.workAll acts := by
  induction acts with
  | nil => rfl
  | cons does rest ih => rw [List.map_cons, workAll, ih, work, Job.workAll]

theorem workAll_ofCancel (job : Job) : workAll (ofCancel job : List (Todo Chore)) = Job.workAll job.onCancel :=
  workAll_acts _

theorem workAll_ofRun (job : Job) : workAll (ofRun job : List (Todo Chore)) = Job.workAll job.acts + 1 := by
  rw [ofRun, workAll_append, workAll_acts]
  rfl

end Todo

end Job

open Job (Todo)

namespace Queue

/-- A bound on the steps that jobs take, with all the jobs that they lead to. -/
def workOf : List Job → Nat
  | [] => 0
  | job :: rest => job.work + workOf rest

def work (q : Queue Job) : Nat := workOf q.toList

theorem workOf_perm {jobs jobs' : List Job} (perm : jobs.Perm jobs') : workOf jobs = workOf jobs' := by
  induction perm with
  | nil => rfl
  | cons job _ ih => rw [workOf, workOf, ih]
  | swap => simp only [workOf]; omega
  | trans _ _ first second => exact first.trans second

theorem work_push (q : Queue Job) (priority : Nat) (job : Job) :
    (q.push priority job).work = job.work + q.work :=
  workOf_perm (q.toList_push_perm priority job)

theorem work_of_pop? {q rest : Queue Job} {job : Job} (taken : q.pop? = some (job, rest)) :
    q.work = job.work + rest.work := by
  rw [work, toList_of_pop? taken, workOf, work]

theorem work_clear (q : Queue Job) : q.clear.work = 0 := rfl

/-- To cancel a job takes fewer steps than to run it. -/
theorem workAll_cancel_le (Chore : Type) (jobs : List Job) :
    Todo.workAll (jobs.map Todo.cancel : List (Todo Chore)) ≤ workOf jobs := by
  induction jobs with
  | nil => exact Nat.le_refl _
  | cons job rest ih =>
    simp only [List.map_cons, Todo.workAll, Todo.work, workOf, Job.work_eq job]
    omega

theorem workOf_append (front back : List Job) : workOf (front ++ back) = workOf front + workOf back := by
  induction front with
  | nil => exact (Nat.zero_add _).symm
  | cons job rest ih => rw [List.cons_append, workOf, workOf, ih, Nat.add_assoc]

/-- Some jobs are taken out to be cancelled. -/
theorem work_filter (Chore : Type) (drop : Job → Bool) (q : Queue Job) :
    (q.filter (!drop ·)).work + Todo.workAll ((q.toList.filter drop).map Todo.cancel : List (Todo Chore)) ≤ q.work := by
  have fewer := workAll_cancel_le Chore (q.toList.filter drop)
  have parts := workOf_perm (List.filter_append_perm drop q.toList)
  rw [workOf_append] at parts
  rw [work, work, toList_filter]
  omega

end Queue

/-! ### Running inside one another -/

/-- What else is to be done on an executor. -/
inductive Inline.Chore where
  /-- All that waits is being run. -/
  | drain

/-- An executor of jobs, with what is in progress on it, the innermost job first. -/
structure Inline where
  executor : Executor Job := {}
  todo : List (Todo Inline.Chore) := []
  /-- Whether a job failed; its failure ends everything in progress. -/
  failed : Bool := false
  events : List Job.Event := []

namespace Inline

def work (m : Inline) : Nat := m.executor.queue.work + Todo.workAll m.todo

def note (m : Inline) (e : Job.Event) : Inline := { m with events := m.events ++ [e] }

/-- Stops the executor. What waits is to be cancelled. -/
def halt (m : Inline) : Inline :=
  let (executor, jobs) := m.executor.stop
  { m with executor, todo := jobs.map .cancel ++ m.todo }

/-- Lets a job wait, or cancels it. -/
def submit (m : Inline) (job : Job) : Inline :=
  let m := m.note (.added job)
  if m.executor.stopped then { m with todo := Todo.ofCancel job ++ m.todo }.note (.cancelled job)
  else
    { m with executor := m.executor.enqueue job.priority job,
             todo := if m.executor.runsOnAdd then .chore .drain :: m.todo else m.todo }

/-- Starts the job that comes next, if there is one. -/
def start? (m : Inline) : Option Inline :=
  m.executor.next?.map fun (job, executor) =>
    { m with executor, todo := Todo.ofRun job ++ m.todo, events := m.events ++ [.started job] }

/-- One step of what is in progress. -/
def step (m : Inline) : Inline :=
  match m.todo with
  | [] => m
  | .act (.add job) :: rest => { m with todo := rest }.submit job
  | .act (.stop _) :: rest => { m with todo := rest }.halt
  | .act .fail :: _ => { m with todo := [], failed := true }
  | .finish job :: rest => { m with todo := rest }.note (.ended job)
  | .cancel job :: rest => { m with todo := Todo.ofCancel job ++ rest }.note (.cancelled job)
  | .chore .drain :: rest => m.start?.getD { m with todo := rest }

theorem work_halt (m : Inline) : m.halt.work ≤ m.work := by
  have fewer := Queue.workAll_cancel_le Chore m.executor.queue.toList
  simp only [work, halt, Executor.stop, Queue.work_clear, Todo.workAll_append]
  rw [Queue.work]
  omega

theorem work_submit (m : Inline) (job : Job) : (m.submit job).work < m.work + (job.work + 2) := by
  unfold submit note
  dsimp only
  split
  · simp only [work, Todo.workAll_append, Todo.workAll_ofCancel, Job.work_eq job]
    omega
  · split <;>
      simp only [work, Executor.enqueue, Queue.work_push, Todo.workAll, Todo.work] <;> omega

theorem work_start? {m m' : Inline} (started : m.start? = some m') : m'.work < m.work := by
  obtain ⟨⟨job, executor⟩, next, rfl⟩ := Option.map_eq_some_iff.mp started
  unfold Executor.next? at next
  split at next
  · cases next
  · obtain ⟨⟨job', queue⟩, popped, same⟩ := Option.map_eq_some_iff.mp next
    cases same
    simp only [work, Queue.work_of_pop? popped, Todo.workAll_append, Todo.workAll_ofRun, Job.work_eq job]
    omega

theorem work_step (m : Inline) (busy : m.todo ≠ []) : m.step.work < m.work := by
  unfold step
  split
  · contradiction
  · next job rest top =>
    have less := work_submit { m with todo := rest } job
    simp only [work, top, Todo.workAll, Todo.work, Job.Act.work] at less ⊢
    omega
  · next executor rest top =>
    have less := work_halt { m with todo := rest }
    simp only [work, top, Todo.workAll, Todo.work, Job.Act.work] at less ⊢
    omega
  · next rest top =>
    simp only [work, top, Todo.workAll, Todo.work, Job.Act.work]
    omega
  · next job rest top =>
    simp only [work, note, top, Todo.workAll, Todo.work]
    omega
  · next job rest top =>
    simp only [work, note, top, Todo.workAll, Todo.work, Todo.workAll_append, Todo.workAll_ofCancel]
    omega
  · next rest top =>
    -- A job that starts takes its own work out of the queue; with none to start the chore is done.
    cases started : m.start? with
    | some next => exact work_start? started
    | none =>
      simp only [Option.getD_none, work, top, Todo.workAll, Todo.work]
      omega

def run (m : Inline) : Inline := if m.todo.isEmpty then m else run m.step
termination_by m.work
decreasing_by exact work_step m (by simp_all)

/-! ### What a caller does -/

def add (m : Inline) (job : Job) : Inline := ({ m with failed := false }.submit job).run

/-- Runs the job that comes next, and tells whether there was one. -/
def runOne (m : Inline) : Inline × Bool :=
  match { m with failed := false }.start? with
  | some m => (m.run, true)
  | none => ({ m with failed := false }, false)

def runAll (m : Inline) : Inline := { m with todo := [.chore .drain], failed := false }.run

/-- Says whether an added job makes all that waits run at once. -/
def setRunsOnAdd (m : Inline) (runsOnAdd : Bool) : Inline :=
  { m with executor := { m.executor with runsOnAdd } }

/-- Stops the executor, and cancels what waits. -/
def stop (m : Inline) : Inline := { m with failed := false }.halt.run

end Inline

end Multiplex
