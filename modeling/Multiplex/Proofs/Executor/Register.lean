import Multiplex.Executor.Job
import Multiplex.Proofs.Queue

/-! # The register of an executor

A register says what has become of each job that was submitted to an executor: the job waits, was withdrawn by a
stop, was started, was cancelled, or was lost when a failure came before its cancellation. The events of the executor tell
how the register came about (`Records`). A job that is started is the most urgent of those that wait, the oldest of these if
there are several; a stop withdraws all jobs of a group, and they are cancelled in that same order. So every submission is
in the register once (`Records.perm`). The queue of the executor is the line of those that wait (`Line`), in the order in
which they are to be served. -/

namespace Multiplex

namespace Job.Event

/-- The job that an event is about. -/
def job : Event → Job
  | added job | started job | ended job | cancelled job => job

@[simp] theorem job_added (job : Job) : (added job).job = job := rfl
@[simp] theorem job_started (job : Job) : (started job).job = job := rfl
@[simp] theorem job_ended (job : Job) : (ended job).job = job := rfl
@[simp] theorem job_cancelled (job : Job) : (cancelled job).job = job := rfl

/-- The job that an event submits. -/
@[simp] def submitted? : Event → Option Job
  | added job => some job
  | _ => none

/-- The job that an event starts. -/
@[simp] def started? : Event → Option Job
  | started job => some job
  | _ => none

/-- The job that an event brings to its end. -/
@[simp] def ended? : Event → Option Job
  | ended job => some job
  | _ => none

/-- The job that an event cancels. -/
@[simp] def cancelled? : Event → Option Job
  | cancelled job => some job
  | _ => none

variable (jobs : List Job)

@[simp] theorem filterMap_started_cancelled : jobs.filterMap (started? ∘ cancelled) = [] := by
  simp

@[simp] theorem filterMap_ended_cancelled : jobs.filterMap (ended? ∘ cancelled) = [] := by
  simp

end Job.Event

open Job (Event)

/-! ### Tickets -/

/-- A job with the number of its submission. -/
structure Ticket where
  number : Nat
  job : Job

/-- Whether a job is to be served before another: the more urgent one is, and of two equally urgent the older. -/
def Ticket.Before (t u : Ticket) : Prop :=
  t.job.priority < u.job.priority ∨ t.job.priority = u.job.priority ∧ t.number < u.number

/-- The jobs that were submitted, each with its number. -/
def tickets (events : List Event) : List Ticket :=
  (events.filterMap Event.submitted?).mapIdx fun number job => { number, job }

/-- The ticket of a job that is submitted next. -/
def ticket (events : List Event) (job : Job) : Ticket := { number := (tickets events).length, job }

theorem tickets_append (events later : List Event) (silent : later.filterMap Event.submitted? = []) :
    tickets (events ++ later) = tickets events := by
  rw [tickets, tickets, List.filterMap_append, silent, List.append_nil]

theorem tickets_added (events : List Event) (job : Job) :
    tickets (events ++ [.added job]) = tickets events ++ [ticket events job] := by
  simp [tickets, ticket, Event.submitted?, List.mapIdx_append]

theorem length_tickets_le {events later : List Event} (early : events <+: later) :
    (tickets events).length ≤ (tickets later).length := by
  simp only [tickets, List.length_mapIdx]
  exact (early.filterMap Event.submitted?).length_le

/-- No two tickets have the same number. -/
theorem nodup_tickets (events : List Event) : ((tickets events).map (·.number)).Nodup := by
  have numbers : (tickets events).map (·.number) = List.range (tickets events).length :=
    List.ext_getElem (by simp) (by simp [tickets])
  rw [numbers]
  exact List.nodup_range

/-- What has happened before something else did not happen after it. -/
theorem early_silent {events later front : List Event} {e : Event} (others : e ∉ later)
    (early : front ++ [e] <+: events ++ later) : front ++ [e] <+: events := by
  obtain ⟨rest, split⟩ := early
  rw [List.append_assoc] at split
  rcases List.append_eq_append_iff.mp split with ⟨between, rfl, inside⟩ | ⟨middle, -, inside⟩
  · cases between with
    | nil =>
      obtain rfl : e :: rest = later := inside
      simp at others
    | cons e' between =>
      cases inside
      exact ⟨between, by simp⟩
  · simp [inside] at others

/-- The last thing that has happened is that which is looked for, or it happened before. -/
theorem early_last {events front : List Event} {e last : Event} (early : front ++ [e] <+: events ++ [last]) :
    front ++ [e] <+: events ∨ events = front ∧ e = last := by
  rcases List.prefix_concat_iff.mp early with whole | early
  · obtain ⟨rfl, same⟩ := List.append_inj' whole rfl
    exact .inr ⟨rfl, List.singleton_inj.mp same⟩
  · exact .inl early

/-! ### Registers -/

/-- What has become of the jobs that were submitted. -/
structure Register where
  waiting : List Ticket := []
  /-- The jobs that a stop took from those that wait, and that have yet to be cancelled. -/
  withdrawn : List Ticket := []
  started : List Ticket := []
  cancelled : List Ticket := []
  /-- The withdrawn jobs that will never be cancelled, the last that were lost first. -/
  lost : List Ticket := []

namespace Register

/-- All entries of a register. -/
def all (r : Register) : List Ticket := r.waiting ++ r.withdrawn ++ r.started ++ r.cancelled ++ r.lost

/-- A register comes after another: what was settled stays so. -/
structure Leads (r r' : Register) : Prop where
  started : r.started <+: r'.started
  cancelled : r.cancelled <+: r'.cancelled
  lost : r.lost <:+ r'.lost

namespace Leads
variable {r r' r'' : Register}

theorem refl (r : Register) : Leads r r := ⟨List.prefix_refl _, List.prefix_refl _, List.suffix_refl _⟩

theorem trans (first : Leads r r') (second : Leads r' r'') : Leads r r'' :=
  ⟨first.started.trans second.started, first.cancelled.trans second.cancelled, first.lost.trans second.lost⟩

end Leads

end Register

/-- How events enter jobs into a register. A stop withdraws the waiting jobs of one group, of which none is withdrawn
    already, and each group is cancelled in the order in which it was withdrawn. What is lost is all that is left of some
    groups. -/
inductive Records (group : Job → Nat) : List Event → Register → Prop
  | nil : Records group [] {}
  | added {events : List Event} {r : Register} (h : Records group events r) (job : Job) {waiting : List Ticket}
      (more : waiting.Perm (ticket events job :: r.waiting)) :
      Records group (events ++ [.added job]) { r with waiting }
  /-- A job is cancelled as soon as it is submitted. -/
  | refused {events : List Event} {r : Register} (h : Records group events r) (job : Job) :
      Records group (events ++ [.added job, .cancelled job])
        { r with cancelled := r.cancelled ++ [ticket events job] }
  | started {events : List Event} {r : Register} (h : Records group events r) {t : Ticket} {rest : List Ticket}
      (fewer : r.waiting.Perm (t :: rest)) (first : ∀ u ∈ rest, t.Before u) :
      Records group (events ++ [.started t.job]) { r with waiting := rest, started := r.started ++ [t] }
  | ended {events : List Event} {r : Register} (h : Records group events r) (job : Job) :
      Records group (events ++ [.ended job]) r
  | withdrawn {events : List Event} {r : Register} (h : Records group events r) (g : Nat)
      {own rest front back : List Ticket} (fewer : r.waiting.Perm (own ++ rest)) (inside : ∀ t ∈ own, group t.job = g)
      (outside : ∀ t ∈ rest, group t.job ≠ g) (order : own.Pairwise Ticket.Before) (split : r.withdrawn = front ++ back)
      (first : own ≠ [] → ∀ t ∈ r.withdrawn, group t.job ≠ g) :
      Records group events { r with waiting := rest, withdrawn := front ++ own ++ back }
  | cancelled {events : List Event} {r : Register} (h : Records group events r) {t : Ticket}
      {front back : List Ticket} (split : r.withdrawn = front ++ t :: back)
      (first : ∀ u ∈ front, group u.job ≠ group t.job) :
      Records group (events ++ [.cancelled t.job])
        { r with withdrawn := front ++ back, cancelled := r.cancelled ++ [t] }
  | lost {events : List Event} {r : Register} (h : Records group events r) {front own back : List Ticket}
      (split : r.withdrawn = front ++ own ++ back) (apart : ∀ t ∈ own, ∀ u ∈ front ++ back, group u.job ≠ group t.job) :
      Records group events { r with withdrawn := front ++ back, lost := own ++ r.lost }

namespace Records
variable {group : Job → Nat} {events : List Event} {r : Register}

/-- Every submission is in the register once. -/
theorem perm (h : Records group events r) : r.all.Perm (tickets events) := by
  classical
  -- Each event adds one ticket, or moves some from one part of the register to another: only the counts matter.
  induction h with
  | nil => exact .refl _
  | @added events r h job waiting more ih =>
    refine List.perm_iff_count.mpr fun t => ?_
    have before := ih.count_eq t
    have entered := more.count_eq t
    simp only [Register.all, tickets_added, List.count_append, List.count_cons, List.count_nil] at before entered ⊢
    omega
  | @refused events r h job ih =>
    have both : events ++ [.added job, .cancelled job] = events ++ [.added job] ++ [.cancelled job] := List.append_cons ..
    rw [both, tickets_append _ [.cancelled job] rfl, tickets_added]
    refine List.perm_iff_count.mpr fun t => ?_
    have before := ih.count_eq t
    simp only [Register.all, List.count_append] at before ⊢
    omega
  | @started events r h t rest fewer first ih =>
    rw [tickets_append _ [.started t.job] rfl]
    refine .trans (List.perm_iff_count.mpr fun u => ?_) ih
    have left := fewer.count_eq u
    simp only [Register.all, List.count_append, List.count_cons, List.count_nil] at left ⊢
    omega
  | @ended events r h job ih =>
    rw [tickets_append _ [.ended job] rfl]
    exact ih
  | @withdrawn events r h g own rest front back fewer inside outside order split first ih =>
    refine .trans (List.perm_iff_count.mpr fun u => ?_) ih
    have left := fewer.count_eq u
    simp only [Register.all, split, List.count_append] at left ⊢
    omega
  | @cancelled events r h t front back split first ih =>
    rw [tickets_append _ [.cancelled t.job] rfl]
    refine .trans (List.perm_iff_count.mpr fun u => ?_) ih
    simp only [Register.all, split, List.count_append, List.count_cons, List.count_nil]
    omega
  | @lost events r h front own back split apart ih =>
    refine .trans (List.perm_iff_count.mpr fun u => ?_) ih
    simp only [Register.all, split, List.count_append]
    omega

/-- The jobs that were started, in order. -/
theorem map_started (h : Records group events r) : r.started.map (·.job) = events.filterMap Event.started? := by
  induction h with
  | withdrawn | lost => assumption
  | _ => simp_all [Event.started?]

/-- The jobs that were cancelled, in order. -/
theorem map_cancelled (h : Records group events r) :
    r.cancelled.map (·.job) = events.filterMap Event.cancelled? := by
  induction h with
  | withdrawn | lost => assumption
  | _ => simp_all [Event.cancelled?, ticket, List.filterMap_cons]

/-- What was cancelled had been submitted. -/
theorem added_of_cancelled (h : Records group events r) {job : Job} (cancelled : .cancelled job ∈ events) :
    .added job ∈ events := by
  have settled : job ∈ r.cancelled.map (·.job) :=
    h.map_cancelled ▸ List.mem_filterMap.mpr ⟨.cancelled job, cancelled, rfl⟩
  obtain ⟨t, member, rfl⟩ := List.mem_map.mp settled
  have all : t ∈ r.all := by simp [Register.all, member]
  obtain ⟨number, inside, rfl⟩ := List.mem_mapIdx.mp (h.perm.mem_iff.mp all)
  obtain ⟨e, noted, new⟩ := List.mem_filterMap.mp (List.getElem_mem inside)
  cases e with
  | added job =>
    obtain rfl : job = _ := Option.some.inj new
    exact noted
  | _ => cases new

/-- What is in the register has a smaller number than what is submitted later. -/
theorem number_lt (h : Records group events r) {t : Ticket} (member : t ∈ r.all) : t.number < (tickets events).length := by
  obtain ⟨number, inside, rfl⟩ := List.mem_mapIdx.mp (h.perm.mem_iff.mp member)
  simpa [tickets] using inside

end Records

/-! ### Queues -/

/-- The jobs of a queue are those that wait, in the order in which they are to be served. -/
structure Line (waiting : List Ticket) (q : Queue Job) : Prop where
  entries : q.entries = waiting.map fun t => (t.job.priority, t.job)
  order : waiting.Pairwise Ticket.Before

namespace Line
variable {waiting : List Ticket} {q : Queue Job}

theorem clear (q : Queue Job) : Line [] q.clear := ⟨rfl, .nil⟩

theorem toList (line : Line waiting q) : q.toList = waiting.map (·.job) := by
  simp [Queue.toList_eq, line.entries]

/-- A job that is put in, with the greatest number, goes somewhere between those that wait. -/
theorem push (line : Line waiting q) {t : Ticket} (young : ∀ u ∈ waiting, u.number < t.number) :
    ∃ early late, waiting = early ++ late ∧ Line (early ++ t :: late) (q.push t.job.priority t.job) := by
  obtain ⟨front, back, split, inserted, less, greater⟩ := Queue.insert_ranked t.job.priority t.job q.sorted
  obtain ⟨early, late, rfl, rfl, rfl⟩ := List.map_eq_append_iff.mp (line.entries.symm.trans split)
  obtain ⟨before, after, across⟩ := List.pairwise_append.mp line.order
  refine ⟨early, late, rfl, ⟨by simp [inserted], ?_⟩⟩
  -- Those that come first are at least as urgent, and the others less urgent, so only equals need the numbers.
  refine List.pairwise_append.mpr ⟨before, List.pairwise_cons.mpr ⟨fun u member => ?_, after⟩, fun u member v later => ?_⟩
  · exact .inl (greater _ (List.mem_map_of_mem member))
  · rcases List.mem_cons.mp later with rfl | later
    · have le : u.job.priority ≤ v.job.priority := less _ (List.mem_map_of_mem member)
      exact (Nat.lt_or_eq_of_le le).imp_right fun same => ⟨same, young u (List.mem_append_left _ member)⟩
    · exact across u member v later

/-- What is taken out of the queue is the first of those that wait. -/
theorem pop (line : Line waiting q) {job : Job} {rest : Queue Job} (taken : q.pop? = some (job, rest)) :
    ∃ t later, waiting = t :: later ∧ t.job = job ∧ Line later rest ∧ ∀ u ∈ later, t.Before u := by
  obtain ⟨priority, first⟩ := Queue.entries_of_pop? taken
  cases waiting with
  | nil => simp [line.entries] at first
  | cons t later =>
    obtain ⟨least, order⟩ := List.pairwise_cons.mp line.order
    obtain ⟨⟨-, same⟩, rest⟩ := by simpa [line.entries] using first
    exact ⟨t, later, rfl, same, ⟨rest.symm, order⟩, least⟩

theorem filter (line : Line waiting q) (keep : Job → Bool) : Line (waiting.filter (keep ·.job)) (q.filter keep) where
  entries := by simp [line.entries, List.filter_map, Function.comp_def]
  order := line.order.filter _

end Line

end Multiplex
