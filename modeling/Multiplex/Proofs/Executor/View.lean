import Mathlib.Logic.Relation
import Multiplex.Proofs.Executor.Register

/-! # What changes on an executor

However jobs are run, what becomes of them is told by the queue, by what each thread has yet to cancel, and by the record
of events (`View`), and what changes at a time is one of a few things (`View.Step`). From these follows where every job
is at every moment (`View.Registers`), what of that stays so (`Follows`), and which job is started next (`View.turn`). Jobs
come in groups, each of which can be stopped. -/

namespace Multiplex

open Job (Event)
open Relation (ReflTransGen)

/-- What the jobs of an executor have to do with. -/
structure View where
  queue : Queue Job
  /-- The groups that have been stopped. -/
  stopped : List Nat
  /-- For each thread, the jobs that it has yet to cancel, in order. -/
  threads : List (List Job)
  events : List Event

/-- What changes at a time. -/
inductive View.Step (group : Job → Nat) : View → View → Prop
  | passed (v : View) : Step group v v
  | waits {v : View} {job : Job} (going : group job ∉ v.stopped) :
      Step group v { v with queue := v.queue.push job.priority job, events := v.events ++ [.added job] }
  | refused (v : View) (job : Job) : Step group v { v with events := v.events ++ [.added job, .cancelled job] }
  | started {v : View} {job : Job} {queue : Queue Job} (next : v.queue.pop? = some (job, queue)) :
      Step group v { v with queue, events := v.events ++ [.started job] }
  | ended (v : View) (job : Job) : Step group v { v with events := v.events ++ [.ended job] }
  /-- A thread takes the jobs of a group out of the queue, and is to cancel them before what it was to cancel. -/
  | withdrawn {v : View} (g : Nat) {front back : List (List Job)} {mine : List Job}
      (split : v.threads = front ++ mine :: back) :
      Step group v { v with
        queue := v.queue.filter (!group · == g), stopped := g :: v.stopped,
        threads := front ++ (v.queue.toList.filter (group · == g) ++ mine) :: back }
  | settled {v : View} {front back : List (List Job)} {mine : List Job} {job : Job}
      (split : v.threads = front ++ (job :: mine) :: back) :
      Step group v { v with threads := front ++ mine :: back, events := v.events ++ [.cancelled job] }
  /-- A thread fails. If it had jobs to cancel, it was one that was being cancelled which failed. -/
  | lost {v : View} {front back : List (List Job)} {mine : List Job} (split : v.threads = front ++ mine :: back)
      (fails : mine ≠ [] → ∃ job, .cancelled job ∈ v.events ∧ .fail ∈ job.onCancel) :
      Step group v { v with threads := front ++ [] :: back }
  /-- There is another thread. -/
  | entered (v : View) : Step group v { v with threads := v.threads ++ [[]] }

/-- No job fails when it is cancelled. -/
def Harmless (events : List Event) : Prop := ∀ job, .added job ∈ events → .fail ∉ job.onCancel

namespace View

def Steps (group : Job → Nat) : View → View → Prop := ReflTransGen (Step group)

variable {group : Job → Nat} {v v' : View} {r r' : Register}

/-! ### Registers -/

/-- Whether the job of a ticket is of a group. -/
def isOf (group : Job → Nat) (g : Nat) (t : Ticket) : Bool := group t.job == g

/-- A register says what has become of the jobs of an executor. -/
structure Registers (group : Job → Nat) (v : View) (r : Register) : Prop where
  records : Records group v.events r
  /-- The queue holds what waits, in the order in which it is to be served. -/
  line : Line r.waiting v.queue
  withdrawn : r.withdrawn.map (·.job) = v.threads.flatten
  /-- Nothing waits of a stopped group. -/
  going : ∀ t ∈ r.waiting, group t.job ∉ v.stopped
  halted : ∀ t ∈ r.withdrawn, group t.job ∈ v.stopped
  /-- What is to be cancelled of a group is left to one thread. -/
  apart : v.threads.Pairwise fun mine others => ∀ job ∈ mine, ∀ other ∈ others, group job ≠ group other
  /-- Nothing is lost unless a job fails that is being cancelled. -/
  lost : r.lost ≠ [] → ∃ job, .cancelled job ∈ v.events ∧ .fail ∈ job.onCancel

namespace Registers

/-- At first there is one thread, and nothing has happened. -/
theorem initial : Registers group { queue := .empty, stopped := [], threads := [[]], events := [] } {} where
  records := .nil
  line := .clear .empty
  withdrawn := rfl
  going := nofun
  halted := nofun
  apart := List.pairwise_singleton ..
  lost := fun some => absurd rfl some

theorem going_of_mem (reg : v.Registers group r) {job : Job} (waits : job ∈ v.queue.toList) : group job ∉ v.stopped := by
  rw [reg.line.toList] at waits
  obtain ⟨t, member, rfl⟩ := List.mem_map.mp waits
  exact reg.going t member

theorem halted_of_mem (reg : v.Registers group r) {job : Job} (gone : job ∈ v.threads.flatten) : group job ∈ v.stopped := by
  rw [← reg.withdrawn] at gone
  obtain ⟨t, member, rfl⟩ := List.mem_map.mp gone
  exact reg.halted t member

/-- What one of the threads has yet to cancel, among all that is to be cancelled. -/
theorem thread (reg : v.Registers group r) {front back : List (List Job)} {mine : List Job}
    (split : v.threads = front ++ mine :: back) :
    ∃ before own after, r.withdrawn = before ++ (own ++ after) ∧ before.map (·.job) = front.flatten ∧
      own.map (·.job) = mine ∧ after.map (·.job) = back.flatten ∧
      ∀ t ∈ own, ∀ u ∈ before ++ after, group u.job ≠ group t.job := by
  have whole := reg.withdrawn
  rw [split, List.flatten_append, List.flatten_cons] at whole
  obtain ⟨before, rest, withdrawn, first, others⟩ := List.map_eq_append_iff.mp whole
  obtain ⟨own, after, rfl, same, last⟩ := List.map_eq_append_iff.mp others
  refine ⟨before, own, after, withdrawn, first, same, last, fun t member u other => ?_⟩
  obtain ⟨-, later, earlier⟩ := List.pairwise_append.mp (split ▸ reg.apart)
  have inside : t.job ∈ mine := same ▸ List.mem_map_of_mem member
  rcases List.mem_append.mp other with early | late
  · obtain ⟨others, member', of⟩ := List.mem_flatten.mp (first ▸ List.mem_map_of_mem early : u.job ∈ front.flatten)
    exact earlier others member' mine (List.mem_cons_self ..) _ of _ inside
  · obtain ⟨others, member', of⟩ := List.mem_flatten.mp (last ▸ List.mem_map_of_mem late : u.job ∈ back.flatten)
    exact ((List.pairwise_cons.mp later).1 others member' _ inside _ of).symm

/-- A thread may get jobs to cancel of whose groups no other has any. -/
theorem apart_replace {front back : List (List Job)} {mine mine' : List Job}
    (apart : (front ++ mine :: back).Pairwise fun mine others => ∀ job ∈ mine, ∀ other ∈ others, group job ≠ group other)
    (more : ∀ job ∈ mine', job ∈ mine ∨ ∀ other ∈ front.flatten ++ back.flatten, group other ≠ group job) :
    (front ++ mine' :: back).Pairwise fun mine others => ∀ job ∈ mine, ∀ other ∈ others, group job ≠ group other := by
  obtain ⟨before, later, earlier⟩ := List.pairwise_append.mp apart
  obtain ⟨next, after⟩ := List.pairwise_cons.mp later
  refine List.pairwise_append.mpr ⟨before, List.pairwise_cons.mpr ⟨?_, after⟩, ?_⟩
  · intro others member job inside other of
    rcases more job inside with old | new
    · exact next others member job old other of
    · exact (new other (List.mem_append_right _ (List.mem_flatten.mpr ⟨others, member, of⟩))).symm
  · intro others member thread which other of job inside
    rcases List.mem_cons.mp which with rfl | late
    · rcases more job inside with old | new
      · exact earlier others member mine (List.mem_cons_self ..) other of job old
      · exact new other (List.mem_append_left _ (List.mem_flatten.mpr ⟨others, member, of⟩))
    · exact earlier others member thread (List.mem_cons_of_mem _ late) other of job inside

/-- A job that enters the queue. -/
theorem waits (reg : v.Registers group r) {job : Job} (going : group job ∉ v.stopped) :
    ∃ early late, r.waiting = early ++ late ∧
      Registers group { v with queue := v.queue.push job.priority job, events := v.events ++ [.added job] }
        { r with waiting := early ++ ticket v.events job :: late } := by
  obtain ⟨early, late, split, line⟩ := reg.line.push (t := ticket v.events job) fun u waits =>
    reg.records.number_lt (by simp [Register.all, waits])
  refine ⟨early, late, split, {
    records := reg.records.added job (split ▸ List.perm_middle)
    line
    withdrawn := reg.withdrawn
    going := fun t member => ?_
    halted := reg.halted
    apart := reg.apart
    lost := fun some => (reg.lost some).imp fun job => .imp_left (List.mem_append_left _) }⟩
  rcases List.mem_cons.mp (List.perm_middle.mem_iff.mp member) with rfl | old
  · exact going
  · exact reg.going t (split ▸ old)

/-- What a stop takes out of the queue. -/
theorem withdraw (reg : v.Registers group r) (g : Nat) {front back : List (List Job)} {mine : List Job}
    (split : v.threads = front ++ mine :: back) :
    ∃ before after, r.withdrawn = before ++ after ∧ before.map (·.job) = front.flatten ∧
      Registers group
        { v with
          queue := v.queue.filter (!group · == g), stopped := g :: v.stopped,
          threads := front ++ (v.queue.toList.filter (group · == g) ++ mine) :: back }
        { r with
          waiting := r.waiting.filter (!isOf group g ·),
          withdrawn := before ++ r.waiting.filter (isOf group g) ++ after } := by
  obtain ⟨before, own, after, withdrawn, first, same, last, -⟩ := reg.thread split
  have inside : ∀ t ∈ r.waiting.filter (isOf group g), group t.job = g := fun t member => by
    simpa [isOf] using (List.mem_filter.mp member).2
  have outside : ∀ t ∈ r.waiting.filter (!isOf group g ·), group t.job ≠ g := fun t member => by
    simpa [isOf] using (List.mem_filter.mp member).2
  -- Nothing of the group had been taken out, unless nothing of it waits.
  have new : ∀ t ∈ r.waiting.filter (isOf group g), ∀ u ∈ r.withdrawn, group u.job ≠ group t.job :=
    fun t waits u old same => reg.going t (List.mem_filter.mp waits).1 (same ▸ reg.halted u old)
  refine ⟨before, own ++ after, withdrawn, first, {
    records := ?_
    line := reg.line.filter fun job => !group job == g
    withdrawn := ?_
    going := ?_
    halted := ?_
    apart := apart_replace (split ▸ reg.apart) ?_
    lost := reg.lost }⟩
  · refine reg.records.withdrawn g (List.filter_append_perm ..).symm inside outside (reg.line.order.filter _) withdrawn
      fun some u old => ?_
    obtain ⟨t, member⟩ := List.exists_mem_of_ne_nil _ some
    exact inside t member ▸ new t member u old
  · simp only [List.map_append, first, same, last, List.flatten_append, List.flatten_cons, reg.line.toList, List.filter_map,
      List.append_assoc]
    rfl
  · intro t member
    exact List.not_mem_cons_of_ne_of_not_mem (outside t member) (reg.going t (List.mem_filter.mp member).1)
  · intro t member
    rcases List.mem_append.mp member with early | late
    · rcases List.mem_append.mp early with early | waits
      · exact List.mem_cons_of_mem _ (reg.halted t (withdrawn ▸ List.mem_append_left _ early))
      · exact inside t waits ▸ List.mem_cons_self ..
    · exact List.mem_cons_of_mem _ (reg.halted t (withdrawn ▸ List.mem_append_right _ late))
  · intro job member
    rcases List.mem_append.mp member with waits | old
    · refine .inr fun other elsewhere same => reg.going_of_mem (List.mem_filter.mp waits).1 ?_
      refine same ▸ reg.halted_of_mem ?_
      rw [split, List.flatten_append, List.flatten_cons]
      rcases List.mem_append.mp elsewhere with early | late
      · exact List.mem_append_left _ early
      · exact List.mem_append_right _ (List.mem_append_right _ late)
    · exact .inl old

/-- A thread cancels the first job that it is to cancel. -/
theorem settle (reg : v.Registers group r) {front back : List (List Job)} {mine : List Job} {job : Job}
    (split : v.threads = front ++ (job :: mine) :: back) :
    ∃ before t after, r.withdrawn = before ++ t :: after ∧ t.job = job ∧ (∀ u ∈ before, group u.job ≠ group t.job) ∧
      Registers group { v with threads := front ++ mine :: back, events := v.events ++ [.cancelled job] }
        { r with withdrawn := before ++ after, cancelled := r.cancelled ++ [t] } := by
  obtain ⟨before, own, after, withdrawn, first, same, last, others⟩ := reg.thread split
  obtain ⟨t, own, rfl, rfl, rfl⟩ := List.map_eq_cons_iff.mp same
  have early : ∀ u ∈ before, group u.job ≠ group t.job := fun u member =>
    others t (List.mem_cons_self ..) u (List.mem_append_left _ member)
  refine ⟨before, t, own ++ after, withdrawn, rfl, early, {
    records := reg.records.cancelled withdrawn early
    line := reg.line
    withdrawn := by simp [first, last]
    going := reg.going
    halted := fun u member => reg.halted u ?_
    apart := apart_replace (split ▸ reg.apart) fun job member => .inl (List.mem_cons_of_mem _ member)
    lost := fun some => (reg.lost some).imp fun job => .imp_left (List.mem_append_left _) }⟩
  rw [withdrawn]
  rcases List.mem_append.mp member with old | old
  · exact List.mem_append_left _ old
  · exact List.mem_append_right _ (List.mem_cons_of_mem _ old)

/-- A thread fails. -/
theorem lose (reg : v.Registers group r) {front back : List (List Job)} {mine : List Job}
    (split : v.threads = front ++ mine :: back)
    (fails : mine ≠ [] → ∃ job, .cancelled job ∈ v.events ∧ .fail ∈ job.onCancel) :
    ∃ before own after, r.withdrawn = before ++ (own ++ after) ∧ own.map (·.job) = mine ∧
      (∀ t ∈ own, ∀ u ∈ before ++ after, group u.job ≠ group t.job) ∧
      Registers group { v with threads := front ++ [] :: back }
        { r with withdrawn := before ++ after, lost := own ++ r.lost } := by
  obtain ⟨before, own, after, withdrawn, first, same, last, others⟩ := reg.thread split
  refine ⟨before, own, after, withdrawn, same, others, {
    records := reg.records.lost (withdrawn.trans (List.append_assoc ..).symm) others
    line := reg.line
    withdrawn := by simp [first, last]
    going := reg.going
    halted := fun u member => reg.halted u ?_
    apart := apart_replace (split ▸ reg.apart) nofun
    lost := fun some => ?_ }⟩
  · rw [withdrawn]
    rcases List.mem_append.mp member with old | old
    · exact List.mem_append_left _ old
    · exact List.mem_append_right _ (List.mem_append_right _ old)
  · by_cases none : own = []
    · exact reg.lost (by simpa [none] using some)
    · exact fails fun empty => none (List.map_eq_nil_iff.mp (same.trans empty))

/-- Nothing is lost if no job fails that is cancelled. -/
theorem whole (reg : v.Registers group r) (harmless : Harmless v.events) : r.lost = [] := by
  refine Decidable.byContradiction fun some => ?_
  obtain ⟨job, cancelled, fails⟩ := reg.lost some
  exact harmless job (reg.records.added_of_cancelled cancelled) fails

end Registers

/-! ### Later registers -/

/-- Whether a job of a group was submitted before some number. -/
def isOld (group : Job → Nat) (g number : Nat) (t : Ticket) : Bool := isOf group g t && t.number < number

/-- What a stop of a group withdrew, when so many jobs had been submitted, is cancelled in that order, unless the last of
    it are lost. -/
def Settles (group : Job → Nat) (g number : Nat) (r r' : Register) : Prop :=
  ∃ later gone, r'.cancelled = r.cancelled ++ later ∧ r'.lost = gone ++ r.lost ∧
    later.filter (isOld group g number) ++ r'.withdrawn.filter (isOf group g) ++ gone.filter (isOf group g) =
      r.withdrawn.filter (isOf group g)

namespace Settles
variable {g number : Nat} {r'' : Register}

theorem refl (r : Register) : Settles group g number r r := ⟨[], [], by simp⟩

/-- Cancelling what was submitted later, or is of other groups, makes no difference. -/
theorem more (h : Settles group g number r r') {new : List Ticket} (cancelled : r''.cancelled = r'.cancelled ++ new)
    (silent : ∀ t ∈ new, isOld group g number t = false)
    (withdrawn : r''.withdrawn.filter (isOf group g) = r'.withdrawn.filter (isOf group g)) (lost : r''.lost = r'.lost) :
    Settles group g number r r'' := by
  obtain ⟨later, gone, split, gone', account⟩ := h
  refine ⟨later ++ new, gone, by rw [cancelled, split, List.append_assoc], lost.trans gone', ?_⟩
  have nothing : new.filter (isOld group g number) = [] := List.filter_eq_nil_iff.mpr (by simpa using silent)
  rw [List.filter_append, nothing, List.append_nil, withdrawn]
  exact account

theorem next (h : Settles group g number r r') (old : ∀ t ∈ r.withdrawn, t.number < number)
    {before after : List Ticket} {t : Ticket} (split : r'.withdrawn = before ++ t :: after)
    (first : ∀ u ∈ before, group u.job ≠ group t.job) :
    Settles group g number r { r' with withdrawn := before ++ after, cancelled := r'.cancelled ++ [t] } := by
  by_cases own : isOf group g t
  · obtain ⟨later, gone, same, gone', account⟩ := h
    have of : group t.job = g := by simpa [isOf] using own
    have others : before.filter (isOf group g) = [] := by
      simpa [isOf, of] using first
    rw [split, List.filter_append, others, List.nil_append, List.filter_cons_of_pos own] at account
    have member : t ∈ r.withdrawn.filter (isOf group g) := account ▸ by simp
    have early : isOld group g number t := by simp [isOld, own, old t (List.mem_filter.mp member).1]
    refine ⟨later ++ [t], gone, by rw [same, List.append_assoc], gone', ?_⟩
    rw [List.filter_append, List.filter_append, others, List.filter_cons_of_pos early, List.filter_nil, List.nil_append]
    simpa using account
  · refine h.more rfl (by simp [isOld, own]) ?_ rfl
    rw [split, List.filter_append, List.filter_append, List.filter_cons_of_neg own]

/-- What is lost of a group is all that was left of it. -/
theorem lose (h : Settles group g number r r') {before own after : List Ticket}
    (split : r'.withdrawn = before ++ (own ++ after))
    (apart : ∀ t ∈ own, ∀ u ∈ before ++ after, group u.job ≠ group t.job) :
    Settles group g number r { r' with withdrawn := before ++ after, lost := own ++ r'.lost } := by
  obtain ⟨later, gone, same, gone', account⟩ := h
  refine ⟨later, own ++ gone, same, by rw [gone', List.append_assoc], ?_⟩
  rw [← account, split]
  by_cases touched : own.filter (isOf group g) = []
  · simp [touched]
  · obtain ⟨t, member⟩ := List.exists_mem_of_ne_nil _ touched
    obtain ⟨inside, of⟩ := List.mem_filter.mp member
    have of : group t.job = g := by simpa [isOf] using of
    have others : (before ++ after).filter (isOf group g) = [] :=
      List.filter_eq_nil_iff.mpr fun u other => by simpa [isOf, of] using apart t inside u other
    rw [List.filter_append, List.append_eq_nil_iff] at others
    simp [others.1, others.2]

end Settles

/-- What comes of a register later. What was started, cancelled or lost stays so. What waits is served in its order, and is
    not cancelled unless its group is stopped. What a stop withdrew is cancelled in its order. -/
structure Follows (group : Job → Nat) (v : View) (r : Register) (v' : View) (r' : Register) : Prop where
  leads : r.Leads r'
  grown : (tickets v.events).length ≤ (tickets v'.events).length
  stopped : ∀ g ∈ v.stopped, g ∈ v'.stopped
  kept : ∀ t ∈ r.waiting, group t.job ∉ v'.stopped → t ∈ r'.waiting ∨ t ∈ r'.started
  served : ∃ later, r'.started = r.started ++ later ∧
    ((later ++ r'.waiting).filter (·.number < (tickets v.events).length)).Sublist r.waiting
  settles : ∀ g ∈ v.stopped, Settles group g (tickets v.events).length r r'

namespace Follows
variable {v'' : View} {r'' : Register}

theorem refl (v : View) (r : Register) : Follows group v r v r where
  leads := .refl r
  grown := Nat.le_refl _
  stopped := fun _ member => member
  kept := fun _ member _ => .inl member
  served := ⟨[], by simp [List.filter_sublist]⟩
  settles := fun _ _ => .refl r

/-- What waits and what was started stay the same. -/
theorem beside (follows : Follows group v r v' r') (still : r''.waiting = r'.waiting ∧ r''.started = r'.started)
    (cancelled : r'.cancelled <+: r''.cancelled) (lost : r'.lost <:+ r''.lost) (stopped : v''.stopped = v'.stopped)
    (events : v'.events <+: v''.events)
    (settles : ∀ g ∈ v.stopped, Settles group g (tickets v.events).length r r'') : Follows group v r v'' r'' where
  leads := follows.leads.trans ⟨still.2 ▸ List.prefix_refl _, cancelled, lost⟩
  grown := Nat.le_trans follows.grown (length_tickets_le events)
  stopped := stopped ▸ follows.stopped
  kept := by
    rw [still.1, still.2, stopped]
    exact follows.kept
  served := by
    rw [still.1, still.2]
    exact follows.served
  settles := settles

/-- A job that enters the queue is younger than what waited before. -/
theorem waits (follows : Follows group v r v' r') (job : Job) {early late : List Ticket} (split : r'.waiting = early ++ late)
    (queue : Queue Job) :
    Follows group v r { v' with queue, events := v'.events ++ [.added job] }
      { r' with waiting := early ++ ticket v'.events job :: late } where
  leads := ⟨follows.leads.started, follows.leads.cancelled, follows.leads.lost⟩
  grown := Nat.le_trans follows.grown (length_tickets_le (List.prefix_append ..))
  stopped := follows.stopped
  kept := fun t member apart => by
    refine (follows.kept t member apart).imp_left fun waits => ?_
    exact List.perm_middle.mem_iff.mpr (List.mem_cons_of_mem _ (split ▸ waits))
  served := by
    obtain ⟨after, starts, order⟩ := follows.served
    have young : ¬ (ticket v'.events job).number < (tickets v.events).length := Nat.not_lt.mpr follows.grown
    refine ⟨after, starts, ?_⟩
    simpa [split, young] using order
  settles := follows.settles

/-- The first of those that wait is started. -/
theorem next (follows : Follows group v r v' r') {t : Ticket} {later : List Ticket} (split : r'.waiting = t :: later)
    (queue : Queue Job) :
    Follows group v r { v' with queue, events := v'.events ++ [.started t.job] }
      { r' with waiting := later, started := r'.started ++ [t] } where
  leads := follows.leads.trans ⟨List.prefix_append .., List.prefix_refl _, List.suffix_refl _⟩
  grown := Nat.le_trans follows.grown (length_tickets_le (List.prefix_append ..))
  stopped := follows.stopped
  kept := fun u member apart => by
    rcases follows.kept u member apart with waits | started
    · rcases List.mem_cons.mp (split ▸ waits) with rfl | waits
      · exact .inr (List.mem_append_right _ (List.mem_singleton_self _))
      · exact .inl waits
    · exact .inr (List.mem_append_left _ started)
  served := by
    obtain ⟨after, starts, order⟩ := follows.served
    refine ⟨after ++ [t], by rw [starts, List.append_assoc], ?_⟩
    rwa [List.append_assoc, List.singleton_append, ← split]
  settles := follows.settles

/-- A stop takes the jobs of its group from those that wait. -/
theorem fewer (follows : Follows group v r v' r') {g : Nat}
    (still : r''.waiting = r'.waiting.filter (!isOf group g ·) ∧ r''.started = r'.started)
    (settled : r''.cancelled = r'.cancelled ∧ r''.lost = r'.lost) (stopped : v''.stopped = g :: v'.stopped)
    (events : v''.events = v'.events)
    (settles : ∀ g ∈ v.stopped, Settles group g (tickets v.events).length r r'') : Follows group v r v'' r'' where
  leads := follows.leads.trans
    ⟨still.2 ▸ List.prefix_refl _, settled.1 ▸ List.prefix_refl _, settled.2 ▸ List.suffix_refl _⟩
  grown := events ▸ follows.grown
  stopped := fun e member => stopped ▸ List.mem_cons_of_mem _ (follows.stopped e member)
  kept := fun t member apart => by
    obtain ⟨other, going⟩ := List.ne_and_not_mem_of_not_mem_cons (stopped ▸ apart)
    rw [still.1, still.2]
    refine (follows.kept t member going).imp_left fun waits => List.mem_filter.mpr ⟨waits, ?_⟩
    simpa [isOf] using other
  served := by
    obtain ⟨after, starts, order⟩ := follows.served
    rw [still.1, still.2]
    exact ⟨after, starts, ((List.filter_sublist.append_left after).filter _).trans order⟩
  settles := settles

/-- What changes at a time keeps the promises of a register. -/
theorem step (follows : Follows group v r v' r') (base : v.Registers group r) (reg : v'.Registers group r')
    (h : v'.Step group v'') : ∃ r'', v''.Registers group r'' ∧ Follows group v r v'' r'' := by
  have old : ∀ t ∈ r.withdrawn, t.number < (tickets v.events).length := fun t member =>
    base.records.number_lt (by simp [Register.all, member])
  -- What a stop takes out of the queue is of no group that had been stopped before.
  have none {e : Nat} (member : e ∈ v.stopped) {t : Ticket} (waits : t ∈ r'.waiting) : isOf group e t = false :=
    beq_eq_false_iff_ne.mpr fun own => reg.going t waits (own ▸ follows.stopped e member)
  -- What was cancelled still is when more has happened.
  have still {events : List Event} (some : r'.lost ≠ []) :
      ∃ job, Event.cancelled job ∈ v'.events ++ events ∧ .fail ∈ job.onCancel :=
    (reg.lost some).imp fun job => .imp_left (List.mem_append_left _)
  cases h with
  | passed => exact ⟨r', reg, follows⟩
  | @waits job going =>
    obtain ⟨early, late, split, reg'⟩ := reg.waits going
    exact ⟨_, reg', follows.waits job split _⟩
  | refused job =>
    refine ⟨_, { reg with records := reg.records.refused job, lost := still },
      follows.beside ⟨rfl, rfl⟩ (List.prefix_append ..) (List.suffix_refl _) rfl (List.prefix_append ..) fun g member => ?_⟩
    refine (follows.settles g member).more rfl ?_ rfl rfl
    simpa [isOld, ticket] using fun _ => follows.grown
  | started next =>
    obtain ⟨t, later, split, rfl, line, first⟩ := reg.line.pop next
    have going : ∀ u ∈ later, group u.job ∉ v'.stopped := fun u member => reg.going u (split ▸ List.mem_cons_of_mem _ member)
    exact ⟨_, { reg with records := reg.records.started (.of_eq split) first, line, going, lost := still },
      follows.next split _⟩
  | ended job =>
    exact ⟨r', { reg with records := reg.records.ended job, lost := still },
      follows.beside ⟨rfl, rfl⟩ (List.prefix_refl _) (List.suffix_refl _) rfl (List.prefix_append ..) follows.settles⟩
  | withdrawn g split =>
    obtain ⟨before, after, same, -, reg'⟩ := reg.withdraw g split
    refine ⟨_, reg', follows.fewer ⟨rfl, rfl⟩ ⟨rfl, rfl⟩ rfl rfl fun e member => ?_⟩
    refine (follows.settles e member).more (List.append_nil _).symm (List.forall_mem_nil _) ?_ rfl
    have nothing : (r'.waiting.filter (isOf group g)).filter (isOf group e) = [] :=
      List.filter_eq_nil_iff.mpr fun t new => by simp [none member (List.mem_filter.mp new).1]
    simp [same, nothing]
  | settled split =>
    obtain ⟨before, t, later, same, rfl, first, reg'⟩ := reg.settle split
    exact ⟨_, reg', follows.beside ⟨rfl, rfl⟩ (List.prefix_append ..) (List.suffix_refl _) rfl (List.prefix_append ..)
      fun e member => (follows.settles e member).next old same first⟩
  | lost split fails =>
    obtain ⟨before, own, after, same, -, apart, reg'⟩ := reg.lose split fails
    exact ⟨_, reg', follows.beside ⟨rfl, rfl⟩ (List.prefix_refl _) (List.suffix_append ..) rfl (List.prefix_refl _)
      fun e member => (follows.settles e member).lose same apart⟩
  | entered =>
    refine ⟨r', { reg with withdrawn := by simp [reg.withdrawn], apart := ?_ },
      follows.beside ⟨rfl, rfl⟩ (List.prefix_refl _) (List.suffix_refl _) rfl (List.prefix_refl _) follows.settles⟩
    exact List.pairwise_append.mpr ⟨reg.apart, List.pairwise_singleton .., by simp⟩

end Follows

namespace Steps

theorem follows (h : Steps group v v') (reg : v.Registers group r) :
    ∃ r', v'.Registers group r' ∧ Follows group v r v' r' := by
  induction h with
  | refl => exact ⟨r, reg, .refl ..⟩
  | tail _ last ih =>
    obtain ⟨r', reg', follows⟩ := ih
    exact follows.step reg reg' last

theorem events (h : Steps group v v') : v.events <+: v'.events := by
  induction h with
  | refl => exact List.prefix_refl _
  | tail _ last ih =>
    cases last with
    | passed | withdrawn | lost | entered => exact ih
    | _ => exact ih.trans (List.prefix_append ..)

end Steps

/-! ### Turns -/

/-- At most one job is started at a time, the first of the queue. -/
theorem Step.turn (h : v.Step group v') {front : List Event} {job : Job}
    (early : front ++ [.started job] <+: v'.events) :
    front ++ [.started job] <+: v.events ∨ v.events = front ∧ ∃ queue, v.queue.pop? = some (job, queue) := by
  cases h with
  | passed | withdrawn | lost | entered => exact .inl early
  | @started next queue popped =>
    refine (early_last early).imp_right ?_
    rintro ⟨events, same⟩
    cases same
    exact ⟨events, queue, popped⟩
  | _ => exact .inl (early_silent (by simp) early)

/-- Each job that was started was the first of the queue at some moment. -/
theorem turn {σ : Type} {change : σ → σ → Prop} (view : σ → View) {first last : σ} (silent : (view first).events = [])
    (step : ∀ {u w}, ReflTransGen change first u → change u w → (view u).Step group (view w))
    (h : ReflTransGen change first last) {front : List Event} {job : Job}
    (early : front ++ [.started job] <+: (view last).events) :
    ∃ u, ReflTransGen change first u ∧ ReflTransGen change u last ∧ (view u).events = front ∧
      ∃ queue, (view u).queue.pop? = some (job, queue) := by
  induction h with
  | refl => simp [silent] at early
  | @tail u w path last ih =>
    rcases (step path last).turn early with earlier | ⟨events, popped⟩
    · obtain ⟨x, reached, onward, found⟩ := ih earlier
      exact ⟨x, reached, onward.tail last, found⟩
    · exact ⟨u, path, .single last, events, popped⟩

end View

end Multiplex
