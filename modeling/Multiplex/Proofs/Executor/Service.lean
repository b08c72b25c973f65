import Multiplex.Proofs.Executor.Isolation

/-! # What a pool does for its executors

Each job that is added to an executor of a pool is started once or cancelled once, the most urgent and the oldest of those
that wait first; a job that fails makes no difference to the others, unless it fails as it is cancelled. A stop takes the
jobs of its executor out of the queue and no others, and those of the other executors are served as they would have been
without it (`Pool.pool_service`). -/

namespace Multiplex.Pool

open Job (Event Todo)

variable {p p' : Pool}

/-- What a pool does for the jobs that are added to its executors. -/
structure Service (p : Pool) : Prop where
  /-- Each submission waits, is about to be cancelled, was started once, was cancelled once, or was lost, the last one only
      if a job failed as it was cancelled. -/
  once : ∃ r, p.view.Registers Job.owner r ∧ r.all.Perm (tickets p.events) ∧ ((tickets p.events).map (·.number)).Nodup ∧
    r.withdrawn.map (·.job) = ((p.worker :: p.callers).map Todo.cancels).flatten ∧
    r.started.map (·.job) = p.events.filterMap Event.started? ∧
    r.cancelled.map (·.job) = p.events.filterMap Event.cancelled? ∧
    (Harmless p.events → r.lost = [])
  /-- What was started, cancelled or lost stays so, what waits is not cancelled unless its executor is stopped, and what a
      stop took out is cancelled in that order. -/
  onward : ∀ r, p.view.Registers Job.owner r → ∀ p', Reaches p p' →
    ∃ r', p'.view.Registers Job.owner r' ∧ View.Follows Job.owner p.view r p'.view r'
  /-- A job that was started was the first of those that waited at that moment. -/
  turn : ∀ front job, front ++ [.started job] <+: p.events → ∃ (u : Pool) (r : Register) (t : Ticket) (later : List Ticket),
    Reaches {} u ∧ Reaches u p ∧ u.events = front ∧ u.view.Registers Job.owner r ∧
      r.waiting = t :: later ∧ t.job = job ∧ ∀ w ∈ later, t.Before w
  /-- What goes on by itself comes to its end. Unless a job has stopped its own executor, and waits for itself, each
      submission has then been started or cancelled, and what waited has been started if its executor is not stopped; that
      jobs fail as they run makes no difference. -/
  rest : Acc (fun p' p => Labour p p') p ∧ ∀ r, p.view.Registers Job.owner r → ∀ p', Labours p p' →
    (∀ p'', ¬ Labour p' p'') →
    (∃ job rest, p'.running = some job ∧ p'.worker = .chore (.await job.owner) :: rest) ∨
    ∃ r', p'.view.Registers Job.owner r' ∧ (r'.started ++ r'.cancelled ++ r'.lost).Perm (tickets p'.events) ∧
      (Harmless p'.events → r'.lost = []) ∧ ∀ t ∈ r.waiting, t.job.owner ∉ p'.stopped → t ∈ r'.started
  /-- What waits when the pool is shut down is started, if its executor is not stopped. -/
  shutDown : Labours { p with shuttingDown := true } p.shutDown ∧
    ((∃ job rest, p.shutDown.running = some job ∧ p.shutDown.worker = .chore (.await job.owner) :: rest) ∨
      p.shutDown.isIdle = true ∧ ∀ r, p.view.Registers Job.owner r →
        ∃ r', p.shutDown.view.Registers Job.owner r' ∧ ∀ t ∈ r.waiting, t.job.owner ∉ p.shutDown.stopped → t ∈ r'.started)
  /-- A stop takes out just the waiting jobs of its executor, to be cancelled in the order in which they were to be served. -/
  stop : ∀ executor p' spared, p.Stops executor p' spared → Labour p p' ∧
    p'.running = p.running ∧ p'.events = p.events ∧ p'.stopped = executor :: p.stopped ∧
    ∀ r, p.view.Registers Job.owner r →
      let own := r.waiting.filter (View.isOf Job.owner executor)
      let others := r.waiting.filter (!View.isOf Job.owner executor ·)
      own.Pairwise Ticket.Before ∧ ∃ before after, r.withdrawn = before ++ after ∧
        p'.view.Registers Job.owner { r with waiting := others, withdrawn := before ++ own ++ after }
  /-- They are cancelled at once if there is nothing to wait for. -/
  atOnce : ∀ executor, p.isRunning executor = false →
    (∀ job ∈ p.queue.toList.filter (·.of executor), job.onCancel = []) →
    p.stop executor =
      { (p.withdraw executor).1 with
        callers := p.callers ++ [[]],
        events := p.events ++ (p.queue.toList.filter (·.of executor)).map .cancelled }
  /-- After a stop of its executor, or when the pool is shutting down, a job is cancelled as it is added. -/
  refused : ∀ job, p.shuttingDown = true ∨ job.owner ∈ p.stopped →
    p.submit job = ({ p with events := p.events ++ [.added job, .cancelled job] }, Todo.ofCancel job) ∧
    ∀ p', Reaches p p' → p'.shuttingDown = true ∨ job.owner ∈ p'.stopped
  /-- The jobs of the other executors wait, and have been served, as they could have without the stop. -/
  apart : ∀ executor p' spared, p.Stops executor p' spared → p.Confined executor → ∀ w, Confines executor spared w →
    ∃ w', Reaches p' w' ∧ Shadow executor w w'
  /-- If nobody interferes, they are served just as they would have been without the stop. -/
  undisturbed : ∀ executor, p.Confined executor → Shadow executor p.runAll (p.stop executor).runAll

/-- At each moment, a pool serves what was added to its executors, each apart from the others. -/
theorem pool_service (h : Reaches {} p) : p.Service := by
  have sound := h.start
  obtain ⟨r, reg⟩ := h.registered
  have follows {r : Register} (reg : p.view.Registers Job.owner r) {p' : Pool} (onward : Reaches p p') :=
    (onward.steps sound).follows reg
  exact {
    once := ⟨r, reg, reg.records.perm, nodup_tickets _, reg.withdrawn, reg.records.map_started, reg.records.map_cancelled,
      reg.whole⟩
    onward := fun r reg p' onward => follows reg onward
    turn := by
      intro front job early
      obtain ⟨u, reached, onward, events, queue, popped⟩ := h.turn early
      obtain ⟨r, reg⟩ := reached.registered
      obtain ⟨t, later, split, same, -, first⟩ := reg.line.pop popped
      exact ⟨u, r, t, later, reached, onward, events, reg, split, same, first⟩
    rest := by
      refine ⟨wellFounded_labour.apply p, fun r reg p' labours still => ?_⟩
      -- Where nothing is left to be done, the worker waits for its own job or the pool has run dry.
      rcases at_rest still with stuck | ⟨idle, done⟩
      · exact .inl (exists_of_stuck stuck)
      · obtain ⟨r', reg', follows⟩ := follows reg labours.reaches
        have all : r'.all.Perm (tickets p'.events) := reg'.records.perm
        rw [Register.all, waiting_of_idle reg' idle, withdrawn_of_done reg' idle done, List.nil_append, List.nil_append] at all
        exact .inr ⟨r', reg', all, reg'.whole, fun t waits going => started_of_idle follows reg' idle waits going⟩
    shutDown := by
      obtain ⟨labours, done⟩ := labours_runAll { p with shuttingDown := true }
      refine ⟨labours, ?_⟩
      rcases done with idle | stuck
      · refine .inr ⟨idle, fun r reg => ?_⟩
        obtain ⟨r', reg', follows⟩ := follows reg (.head (.closed p) labours.reaches)
        exact ⟨r', reg', fun t waits going => started_of_idle follows reg' idle waits going⟩
      · exact .inl (exists_of_stuck stuck)
    stop := by
      intro executor p' spared stops
      obtain ⟨running, events, stopped⟩ := stops.others
      exact ⟨stops.labour, running, events, stopped, fun r reg => ⟨reg.line.order.filter _, stops.registers reg⟩⟩
    atOnce := fun executor free calm => stop_calm free calm
    refused := by
      intro job refuses
      have spelled (u : Pool) : u.refuses job.owner = true ↔ u.shuttingDown = true ∨ job.owner ∈ u.stopped := by
        simp [Pool.refuses]
      have closed := (spelled p).mpr refuses
      exact ⟨submit_of_refuses closed, fun p' onward => (spelled p').mp (Reaches.refuses h onward closed)⟩
    apart := by
      intro executor p' spared stops confined w path
      obtain ⟨beside, callers⟩ := stops.beside sound confined
      obtain ⟨w', reached, beside'⟩ := beside.confines callers path
      exact ⟨w', reached, beside'.toShadow⟩
    undisturbed := fun executor confined => (Beside.of_stop sound confined).runAll.toShadow }

/-! ### A stop that waits -/

/-- The last who came in goes on. -/
def resume (p : Pool) : Pool := { p with callers := p.callers.dropLast }.drive (p.callers.getLastD [])

theorem labours_resume (some : p.callers ≠ []) : Labours p p.resume := by
  have whole : p.callers.dropLast ++ [p.callers.getLastD []] = p.callers := by
    rw [List.getLastD_eq_getLast?, List.getLast?_eq_some_getLast some, Option.getD_some, List.dropLast_concat_getLast]
  have drives := labours_drive { p with callers := p.callers.dropLast } (p.callers.getLastD [])
  rw [whole] at drives
  exact drives

/-- An executor is stopped while a job of it is running, which then adds a job to another executor, and fails. The stop
    waits for that before it goes on. -/
def upset : Pool :=
  let a := Job.plan "a" 5 0 [] []
  let b := Job.plan "b" 1 0 [.add (.plan "c" 4 1 [] []), .fail] []
  let d := Job.plan "d" 3 1 [] []
  ((((({} : Pool).add a).add b).add d).step.stop 0).step.step.step.resume

theorem pool_service_upset :
    Reaches {} upset ∧ upset.Service ∧
      (upset.shutDown.events.filterMap Event.started?).map Job.name = ["b", "d", "c"] ∧
      (upset.shutDown.events.filterMap Event.cancelled?).map Job.name = ["a"] := by
  have reached : Reaches {} upset := by
    have added (p : Pool) (job : Job) : Reaches p (p.add job) := reaches_drive p [.add job]
    have stopped (p : Pool) (executor : Nat) : Reaches p (p.stop executor) := reaches_drive p [.stop executor]
    have worked {p : Pool} (busy : p.isIdle = false) (free : p.isStuck = false) : Reaches p p.step :=
      .single (.laboured (.worked busy free))
    refine .trans (.trans (.trans (.trans (.trans (.trans ?_ (worked ?_ ?_)) (stopped _ 0)) (worked ?_ ?_)) (worked ?_ ?_))
      (worked ?_ ?_)) (labours_resume ?_).reaches
    · exact (added _ _).trans ((added _ _).trans (added _ _))
    all_goals decide +kernel
  exact ⟨reached, pool_service reached, by decide +kernel, by decide +kernel⟩

/-- Of two jobs that wait when their executor is stopped, the first fails as it is cancelled. The second is neither
    started nor cancelled; it does not wait any more, and nothing is left to be done. -/
theorem pool_service_lost :
    let p := ((({} : Pool).add (.plan "a" 0 0 [] [.fail])).add (.plan "b" 0 0 [] [])).stop 0
    (p.events.filterMap Event.submitted?).map Job.name = ["a", "b"] ∧ p.isIdle = true ∧ p.callers.all (·.isEmpty) = true ∧
      (p.events.filterMap Event.started?).map Job.name = [] ∧ (p.events.filterMap Event.cancelled?).map Job.name = ["a"] := by
  decide +kernel

end Multiplex.Pool
