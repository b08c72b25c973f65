import Multiplex.Queue

/-! # Executors

An executor holds tasks until they are started, the most urgent first and the oldest first among
those of one priority. Once the executor is stopped, it starts none: what waits is given back in that
same order, to be cancelled, and whatever is added later is to be cancelled, too. -/

namespace Multiplex

/-- The tasks that wait, and how the executor treats a new one. -/
structure Executor (τ : Type) where
  queue : Queue τ := .empty
  /-- Whether adding a task makes all that waits run at once. -/
  runsOnAdd : Bool := false
  stopped : Bool := false

namespace Executor

variable {τ : Type}

def enqueue (x : Executor τ) (priority : Nat) (task : τ) : Executor τ :=
  { x with queue := x.queue.push priority task }

/-- Takes the task that is started next. A stopped executor starts none. -/
def next? (x : Executor τ) : Option (τ × Executor τ) :=
  if x.stopped then none else x.queue.pop?.map fun (task, queue) => (task, { x with queue })

/-- Stops the executor, and gives the tasks to cancel. -/
def stop (x : Executor τ) : Executor τ × List τ :=
  ({ x with queue := x.queue.clear, stopped := true }, x.queue.toList)

end Executor

end Multiplex
