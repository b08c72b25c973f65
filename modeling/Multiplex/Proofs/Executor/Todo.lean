import Multiplex.Executor.Job

/-! # What is yet to be done

Of a list of what a thread has yet to do, two things matter to the jobs of an executor: which jobs it is to cancel, and
which ones it has started and is to bring to their end. A failure while jobs are still to be cancelled comes of a job that
was cancelled itself (`Job.Todo.Caused`): what stands before a cancellation in the list was put there by other
cancellations. -/

namespace Multiplex.Job.Todo

variable {Chore : Type} {todo rest : List (Todo Chore)}

/-- The job that is to be cancelled. -/
@[simp] def cancel? : Todo Chore → Option Job
  | .cancel job => some job
  | _ => none

/-- The job that is to be brought to its end. -/
@[simp] def finish? : Todo Chore → Option Job
  | .finish job => some job
  | _ => none

/-- The jobs that are to be cancelled, in order. -/
def cancels (todo : List (Todo Chore)) : List Job := todo.filterMap cancel?

/-- The jobs in progress, the innermost first. -/
def begun (todo : List (Todo Chore)) : List Job := todo.filterMap finish?

@[simp] theorem cancels_nil : cancels ([] : List (Todo Chore)) = [] := rfl

@[simp] theorem begun_nil : begun ([] : List (Todo Chore)) = [] := rfl

@[simp] theorem cancels_append (front back : List (Todo Chore)) : cancels (front ++ back) = cancels front ++ cancels back :=
  List.filterMap_append

@[simp] theorem begun_append (front back : List (Todo Chore)) : begun (front ++ back) = begun front ++ begun back :=
  List.filterMap_append

@[simp] theorem cancels_act (does : Act) (rest : List (Todo Chore)) : cancels (.act does :: rest) = cancels rest := rfl

@[simp] theorem begun_act (does : Act) (rest : List (Todo Chore)) : begun (.act does :: rest) = begun rest := rfl

@[simp] theorem cancels_finish (job : Job) (rest : List (Todo Chore)) : cancels (.finish job :: rest) = cancels rest := rfl

@[simp] theorem begun_finish (job : Job) (rest : List (Todo Chore)) : begun (.finish job :: rest) = job :: begun rest := rfl

@[simp] theorem cancels_cancel (job : Job) (rest : List (Todo Chore)) :
    cancels (.cancel job :: rest) = job :: cancels rest := rfl

@[simp] theorem begun_cancel (job : Job) (rest : List (Todo Chore)) : begun (.cancel job :: rest) = begun rest := rfl

@[simp] theorem cancels_chore (chore : Chore) (rest : List (Todo Chore)) : cancels (.chore chore :: rest) = cancels rest := rfl

@[simp] theorem begun_chore (chore : Chore) (rest : List (Todo Chore)) : begun (.chore chore :: rest) = begun rest := rfl

@[simp] theorem cancels_acts (acts : List Act) : cancels (acts.map .act : List (Todo Chore)) = [] := by
  simp [cancels]

@[simp] theorem begun_acts (acts : List Act) : begun (acts.map .act : List (Todo Chore)) = [] := by
  simp [begun]

@[simp] theorem cancels_map_cancel (jobs : List Job) : cancels (jobs.map .cancel : List (Todo Chore)) = jobs := by
  simp [cancels, List.filterMap_map, Function.comp_def]

@[simp] theorem begun_map_cancel (jobs : List Job) : begun (jobs.map .cancel : List (Todo Chore)) = [] := by
  simp [begun]

@[simp] theorem cancels_ofRun (job : Job) : cancels (ofRun job : List (Todo Chore)) = [] := by
  simp [ofRun]

@[simp] theorem begun_ofRun (job : Job) : begun (ofRun job : List (Todo Chore)) = [job] := by
  simp [ofRun]

@[simp] theorem cancels_ofCancel (job : Job) : cancels (ofCancel job : List (Todo Chore)) = [] := cancels_acts _

@[simp] theorem begun_ofCancel (job : Job) : begun (ofCancel job : List (Todo Chore)) = [] := begun_acts _

/-! ### Causes -/

/-- What is done before the last cancellation of a list is done by jobs that were cancelled. -/
def Caused (events : List Event) (todo : List (Todo Chore)) : Prop :=
  ∃ upper lower, todo = upper ++ lower ∧ cancels lower = [] ∧
    ∀ does, .act does ∈ upper → ∃ job, .cancelled job ∈ events ∧ does ∈ job.onCancel

namespace Caused
variable {events later : List Event}

theorem of_cancels (none : cancels todo = []) : Caused events todo := ⟨[], todo, rfl, none, nofun⟩

theorem mono (h : Caused events todo) (more : events ⊆ later) : Caused later todo := by
  obtain ⟨upper, lower, split, none, causes⟩ := h
  refine ⟨upper, lower, split, none, fun does member => ?_⟩
  obtain ⟨job, cancelled, brought⟩ := causes does member
  exact ⟨job, more cancelled, brought⟩

theorem tail {next : Todo Chore} (h : Caused events (next :: rest)) : Caused events rest := by
  obtain ⟨upper, lower, split, none, causes⟩ := h
  cases upper with
  | nil =>
    obtain rfl : next :: rest = lower := split
    refine of_cancels ?_
    cases next with
    | cancel job => cases none
    | _ => exact none
  | cons first upper =>
    obtain ⟨-, rfl⟩ := List.cons.inj split
    exact ⟨upper, lower, rfl, none, fun does member => causes does (List.mem_cons_of_mem _ member)⟩

/-- What comes first is no action, or an action of a job that was cancelled. -/
theorem push (h : Caused events rest) (first : List (Todo Chore))
    (causes : ∀ does, .act does ∈ first → ∃ job, .cancelled job ∈ events ∧ does ∈ job.onCancel) :
    Caused events (first ++ rest) := by
  obtain ⟨upper, lower, rfl, none, before⟩ := h
  refine ⟨first ++ upper, lower, (List.append_assoc ..).symm, none, fun does member => ?_⟩
  exact (List.mem_append.mp member).elim (causes does) (before does)

theorem ofCancel (h : Caused events rest) {job : Job} (cancelled : .cancelled job ∈ events) :
    Caused events (Todo.ofCancel job ++ rest) := by
  refine h.push _ fun does member => ⟨job, cancelled, ?_⟩
  obtain ⟨does', inside, same⟩ := List.mem_map.mp member
  cases same
  exact inside

theorem cancel (h : Caused events rest) (jobs : List Job) : Caused events (jobs.map .cancel ++ rest) :=
  h.push _ (by simp)

/-- A failure before a cancellation. -/
theorem fail (h : Caused events (.act .fail :: rest)) (some : cancels rest ≠ []) :
    ∃ job, .cancelled job ∈ events ∧ .fail ∈ job.onCancel := by
  obtain ⟨upper, lower, split, none, causes⟩ := h
  cases upper with
  | nil =>
    obtain rfl : .act .fail :: rest = lower := split
    exact absurd none some
  | cons first upper =>
    obtain ⟨rfl, -⟩ := List.cons.inj split
    exact causes .fail (List.mem_cons_self ..)

end Caused

end Multiplex.Job.Todo
