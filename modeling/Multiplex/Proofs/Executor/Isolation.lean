import Multiplex.Proofs.Executor.Pool

/-! # Executors of one pool apart from each other

A pool on which an executor is stopped is compared with the same pool on which it is not (`Pool.Shadow`). As long as the
jobs of that executor touch no other one, when they run and when they are cancelled (`Job.Confined`), whatever happens to
the jobs of the others on the one pool happens to them on the other, in the same order. The threads of the two differ in
what concerns that executor alone (`Pool.hidden`): before a thread of the shadow does what the same thread of the other
pool does, it catches up with such things (`Pool.Shadow.catchUp`). -/

namespace Multiplex

open Job (Event Todo)
open Relation (ReflTransGen)

/-- A job that, if it belongs to an executor, adds only jobs of that executor, stops none, and does not fail when it is
    cancelled; and so all that it adds. -/
inductive Job.Confined (executor : Nat) : Job → Prop
  | plan {name : String} {priority owner : Nat} {acts onCancel : List Job.Act}
      (adds : ∀ next, .add next ∈ acts ++ onCancel → Confined executor next)
      (runs : owner = executor → ∀ act ∈ acts, act = .fail ∨ ∃ next, act = .add next ∧ next.owner = executor)
      (cancels : owner = executor → ∀ act ∈ onCancel, ∃ next, act = .add next ∧ next.owner = executor) :
      Confined executor (.plan name priority owner acts onCancel)

namespace Job.Confined
variable {executor : Nat} {job : Job}

theorem adds (h : job.Confined executor) {next : Job} (member : .add next ∈ job.acts ∨ .add next ∈ job.onCancel) :
    next.Confined executor := by
  cases h with
  | plan adds => exact adds next (List.mem_append.mpr member)

theorem runs (h : job.Confined executor) (own : job.owner = executor) {act : Act} (member : act ∈ job.acts) :
    act = .fail ∨ ∃ next, act = .add next ∧ next.owner = executor := by
  cases h with
  | plan _ runs => exact runs own act member

theorem cancels (h : job.Confined executor) (own : job.owner = executor) {act : Act} (member : act ∈ job.onCancel) :
    ∃ next, act = .add next ∧ next.owner = executor := by
  cases h with
  | plan _ _ cancels => exact cancels own act member

end Job.Confined

namespace Pool

variable {p p' q q' : Pool} {executor : Nat} {next : Todo Chore} {todo rest : List (Todo Chore)}

/-! ### What concerns one executor -/

/-- Whether something that is to be done concerns one executor alone. -/
def hidden (executor : Nat) : Todo Chore → Bool
  | .act (.add job) | .cancel job => job.of executor
  | .act (.stop x) | .chore (.await x) => x == executor
  | .act .fail | .finish _ => false

/-- What else is to be done. -/
def seen (executor : Nat) (todo : List (Todo Chore)) : List (Todo Chore) := todo.filter (!hidden executor ·)

@[simp] theorem seen_append (front back : List (Todo Chore)) :
    seen executor (front ++ back) = seen executor front ++ seen executor back := List.filter_append ..

theorem seen_cons_of_hidden (hid : hidden executor next = true) : seen executor (next :: rest) = seen executor rest :=
  List.filter_cons_of_neg (by simp [hid])

theorem seen_cons_of_visible (visible : hidden executor next = false) :
    seen executor (next :: rest) = next :: seen executor rest :=
  List.filter_cons_of_pos (by simp [visible])

theorem seen_ofCancel {job : Job} (confined : job.Confined executor) (own : job.owner = executor) :
    seen executor (Todo.ofCancel job) = [] := by
  refine List.filter_eq_nil_iff.mpr fun next member => ?_
  obtain ⟨act, inside, rfl⟩ := List.mem_map.mp member
  obtain ⟨job', rfl, own'⟩ := confined.cancels own inside
  simp [hidden, Job.of, own']

/-- What the job of one executor does when it runs. -/
def Keeps (executor : Nat) : Todo Chore → Prop
  | .act (.add job) | .finish job => job.owner = executor
  | .act .fail => True
  | _ => False

/-- Each job that a thread is to add or to cancel is confined. -/
def Tame (executor : Nat) (todo : List (Todo Chore)) : Prop :=
  ∀ job, .act (.add job) ∈ todo ∨ .cancel job ∈ todo → job.Confined executor

theorem Tame.tail (tame : Tame executor (next :: rest)) : Tame executor rest := fun job member =>
  tame job (member.imp (List.mem_cons_of_mem _) (List.mem_cons_of_mem _))

theorem Tame.append {front back : List (Todo Chore)} (first : Tame executor front) (second : Tame executor back) :
    Tame executor (front ++ back) := fun job member => by
  simp only [List.mem_append] at member
  rcases member with (early | late) | (early | late)
  · exact first job (.inl early)
  · exact second job (.inl late)
  · exact first job (.inr early)
  · exact second job (.inr late)

theorem tame_ofCancel {job : Job} (confined : job.Confined executor) : Tame executor (Todo.ofCancel job) := fun other member => by
  have brought : .add other ∈ job.onCancel := by simpa [Todo.ofCancel] using member
  exact confined.adds (.inr brought)

theorem tame_ofRun {job : Job} (confined : job.Confined executor) : Tame executor (Todo.ofRun job) := fun other member => by
  have brought : .add other ∈ job.acts := by simpa [Todo.ofRun] using member
  exact confined.adds (.inl brought)

/-- A pool on which all jobs are confined. -/
structure Confined (executor : Nat) (p : Pool) : Prop where
  waiting : ∀ job ∈ p.queue.toList, job.Confined executor
  worker : Tame executor p.worker
  callers : ∀ todo ∈ p.callers, Tame executor todo
  running : p.isRunning executor = true → ∀ next ∈ p.worker, Keeps executor next

namespace Confined

/-- What a thread does keeps all jobs confined. -/
theorem exec (waiting : ∀ job ∈ p.queue.toList, job.Confined executor) (tame : Tame executor todo) :
    (∀ job ∈ (p.exec todo).1.queue.toList, job.Confined executor) ∧ Tame executor (p.exec todo).2 := by
  unfold Pool.exec
  split
  · exact ⟨waiting, tame⟩
  · next job rest =>
    have confined := tame job (.inl (List.mem_cons_self ..))
    cases refuses : p.refuses job.owner with
    | true =>
      rw [submit_of_refuses refuses]
      exact ⟨waiting, (tame_ofCancel confined).append tame.tail⟩
    | false =>
      rw [submit_of_takes refuses]
      refine ⟨fun other waits => ?_, tame.tail⟩
      -- What waits then is the new job, or waited before.
      rcases List.mem_cons.mp ((Queue.toList_push_perm ..).mem_iff.mp waits) with rfl | old
      · exact confined
      · exact waiting other old
  · next x rest =>
    refine ⟨fun job waits => waiting job (List.mem_filter.mp (Queue.toList_filter .. ▸ waits)).1, .append (fun job member => ?_) tame.tail⟩
    have taken : job ∈ p.queue.toList ∧ job.of x = true := by simpa [withdraw] using member
    exact waiting job taken.1
  · exact ⟨waiting, by simp [Tame]⟩
  · exact ⟨waiting, tame.tail⟩
  · next job rest => exact ⟨waiting, (tame_ofCancel (tame job (.inr (List.mem_cons_self ..)))).append tame.tail⟩
  · dsimp only
    split
    · exact ⟨waiting, tame⟩
    · exact ⟨waiting, tame.tail⟩

/-- What a job of the executor does when it runs keeps to the executor. -/
theorem keeps (tame : Tame executor todo) (keeps : ∀ next ∈ todo, Keeps executor next) :
    ∀ next ∈ (p.exec todo).2, Keeps executor next := by
  unfold Pool.exec
  split
  · exact keeps
  · next job rest =>
    obtain ⟨own, others⟩ := List.forall_mem_cons.mp keeps
    refine List.forall_mem_append.mpr ⟨fun next member => ?_, others⟩
    unfold submit at member
    dsimp only at member
    split at member
    · obtain ⟨act, inside, rfl⟩ := List.mem_map.mp member
      obtain ⟨job', rfl, own'⟩ := (tame job (.inl (List.mem_cons_self ..))).cancels own inside
      exact own'
    · cases member
  · exact absurd (List.forall_mem_cons.mp keeps).1 id
  · nofun
  · exact (List.forall_mem_cons.mp keeps).2
  · exact absurd (List.forall_mem_cons.mp keeps).1 id
  · exact absurd (List.forall_mem_cons.mp keeps).1 id

theorem labour (h : p.Confined executor) (labour : Labour p p') : p'.Confined executor := by
  -- A caller keeps to what is confined; so does the worker, and the job it takes up is a confined one.
  cases labour with
  | @called front back todo split some free =>
    obtain ⟨running, worker, -⟩ := p.exec_rest todo
    obtain ⟨waiting, tame⟩ := exec h.waiting (h.callers todo (by simp [split]))
    refine ⟨waiting, worker ▸ h.worker, fun other member => ?_, ?_⟩
    · rcases List.mem_cons.mp (List.perm_middle.mem_iff.mp member) with rfl | old
      · exact tame
      · exact h.callers other (split ▸ List.perm_middle.mem_iff.mpr (List.mem_cons_of_mem _ old))
    · rw [isRunning, running, worker]
      exact h.running
  | worked busy free =>
    have work := work_cases busy
    generalize p.step = p' at work
    cases work with
    | @started job queue none idle next =>
      have taken := Queue.toList_of_pop? next
      have confined := h.waiting job (taken ▸ List.mem_cons_self ..)
      refine ⟨fun other waits => h.waiting other (taken ▸ List.mem_cons_of_mem _ waits), tame_ofRun confined, h.callers,
        fun own next member => ?_⟩
      have own : job.owner = executor := by simpa [isRunning, note, Job.of] using own
      rcases List.mem_append.mp member with acts | last
      · obtain ⟨act, inside, rfl⟩ := List.mem_map.mp acts
        rcases confined.runs own inside with rfl | ⟨job', rfl, own'⟩
        · exact trivial
        · exact own'
      · obtain rfl := List.mem_singleton.mp last
        exact own
    | released on done => exact ⟨h.waiting, h.worker, h.callers, fun own => by simp [isRunning] at own⟩
    | went some =>
      obtain ⟨running, -, callers, -⟩ := p.exec_rest p.worker
      obtain ⟨waiting, tame⟩ := exec h.waiting h.worker
      refine ⟨waiting, tame, fun other member => h.callers other (callers ▸ member), fun own => ?_⟩
      exact keeps h.worker (h.running (by rwa [isRunning, running] at own))

theorem labours (h : p.Confined executor) (labours : Labours p p') : p'.Confined executor := by
  induction labours with
  | refl => exact h
  | tail _ last ih => exact ih.labour last

end Confined

/-! ### Shadows -/

/-- A pool with the jobs of one executor left out, which is stopped on it. -/
structure Shadow (executor : Nat) (p q : Pool) : Prop where
  queue : q.queue.entries = (p.queue.filter (!·.of executor)).entries
  shuttingDown : q.shuttingDown = p.shuttingDown
  gone : executor ∈ q.stopped
  stopped : ∀ x, x ≠ executor → (x ∈ q.stopped ↔ x ∈ p.stopped)
  events : q.events.filter (!·.job.of executor) = p.events.filter (!·.job.of executor)

/-- Whether a thread does something of which a shadow shows nothing. -/
def mute (executor : Nat) : Todo Chore → Bool
  | .act (.add job) | .cancel job | .finish job => job.of executor
  | .act (.stop x) | .chore (.await x) => x == executor
  | .act .fail => true

theorem mute_of_hidden (hid : hidden executor next = true) : mute executor next = true := by
  unfold hidden at hid
  split at hid
  all_goals first | exact hid | cases hid

theorem mute_of_keeps (keeps : Keeps executor next) : mute executor next = true := by
  unfold Keeps at keeps
  split at keeps
  · exact beq_iff_eq.mpr keeps
  · exact beq_iff_eq.mpr keeps
  · rfl
  · exact keeps.elim

namespace Shadow

/-- What runs on the pools, and who uses them, is another matter. -/
theorem threads (h : Shadow executor p q) (running running' : Option Job) (worker worker' : List (Todo Chore))
    (callers callers' : List (List (Todo Chore))) :
    Shadow executor { p with running, worker, callers }
      { q with running := running', worker := worker', callers := callers' } :=
  ⟨h.queue, h.shuttingDown, h.gone, h.stopped, h.events⟩

/-- What waits on other executors. -/
theorem waiting (h : Shadow executor p q) {keep : Job → Bool} (others : ∀ job, keep job → job.of executor = false) :
    q.queue.toList.filter keep = p.queue.toList.filter keep := by
  rw [Queue.toList_eq, h.queue, ← Queue.toList_eq, Queue.toList_filter, List.filter_filter]
  refine List.filter_congr fun job _ => ?_
  cases kept : keep job with
  | false => rfl
  | true => simpa using others job kept

theorem refuses (h : Shadow executor p q) {x : Nat} (other : x ≠ executor) : q.refuses x = p.refuses x := by
  simp [Pool.refuses, h.shuttingDown, h.stopped x other]

theorem mute_left (h : Shadow executor p q) (mute : mute executor next = true) (rest : List (Todo Chore)) :
    Shadow executor (p.exec (next :: rest)).1 q := by
  cases next with
  | act does =>
    cases does with
    | add job =>
      have own : job.of executor = true := mute
      simp only [Pool.exec]
      cases refuses : p.refuses job.owner with
      | true =>
        rw [submit_of_refuses refuses]
        exact { h with events := by simp [h.events, own] }
      | false =>
        rw [submit_of_takes refuses]
        refine { h with queue := ?_, events := by simp [h.events, own] }
        -- The filter of the shadow does not see where the job was inserted.
        rw [h.queue, Queue.entries_filter, Queue.entries_filter, Queue.entries_push]
        exact (Queue.filter_insert_other (fun job : Job => !job.of executor) _ _ (by simp [own]) _).symm
    | stop x =>
      obtain rfl : x = executor := beq_iff_eq.mp mute
      refine { h with queue := ?_, stopped := fun y other => by simp [Pool.exec, withdraw, h.stopped y other, other] }
      simp [Pool.exec, withdraw, h.queue, List.filter_filter]
    | fail => exact h
  | finish job | cancel job =>
    have own : job.of executor = true := mute
    exact { h with events := by simp [Pool.exec, note, h.events, own] }
  | chore does => exact h

theorem mute_right (h : Shadow executor p q) (mute : mute executor next = true) (rest : List (Todo Chore)) :
    Shadow executor p (q.exec (next :: rest)).1 := by
  cases next with
  | act does =>
    cases does with
    | add job =>
      have own : job.of executor = true := mute
      have refuses : q.refuses job.owner = true := by
        rw [show job.owner = executor from beq_iff_eq.mp own]
        simp [Pool.refuses, h.gone]
      simp only [Pool.exec]
      rw [submit_of_refuses refuses]
      exact { h with events := by simp [h.events, own] }
    | stop x =>
      obtain rfl : x = executor := beq_iff_eq.mp mute
      refine { h with
        queue := ?_, gone := List.mem_cons_of_mem _ h.gone,
        stopped := fun y other => by simp [Pool.exec, withdraw, h.stopped y other, other] }
      simp [Pool.exec, withdraw, h.queue, List.filter_filter]
    | fail => exact h
  | finish job | cancel job =>
    have own : job.of executor = true := mute
    exact { h with events := by simp [Pool.exec, note, h.events, own] }
  | chore does => exact h

/-- What is not hidden is done on both pools. -/
theorem both (h : Shadow executor p q) (visible : hidden executor next = false) {rest rest' : List (Todo Chore)}
    (same : seen executor rest' = seen executor rest) (runs : ∀ x, x ≠ executor → q.isRunning x = p.isRunning x) :
    Shadow executor (p.exec (next :: rest)).1 (q.exec (next :: rest')).1 ∧
      seen executor (q.exec (next :: rest')).2 = seen executor (p.exec (next :: rest)).2 := by
  cases next with
  | act does =>
    cases does with
    | add job =>
      have other : job.of executor = false := visible
      -- Both pools answer alike to all executors but the one that was stopped.
      have alike := h.refuses (beq_eq_false_iff_ne.mp other)
      simp only [Pool.exec]
      cases refuses : p.refuses job.owner with
      | true =>
        rw [submit_of_refuses refuses, submit_of_refuses (alike.trans refuses)]
        exact ⟨{ h with events := by simp [h.events] }, by simp [same]⟩
      | false =>
        rw [submit_of_takes refuses, submit_of_takes (alike.trans refuses)]
        refine ⟨{ h with queue := ?_, events := by simp [h.events] }, same⟩
        rw [Queue.entries_push, h.queue, Queue.entries_filter, Queue.entries_filter, Queue.entries_push]
        exact (Queue.filter_insert (fun job : Job => !job.of executor) _ _ (by simp [other]) p.queue.sorted).symm
    | stop x =>
      have other : x ≠ executor := beq_eq_false_iff_ne.mp visible
      have own : q.queue.toList.filter (·.of x) = p.queue.toList.filter (·.of x) :=
        h.waiting fun job of => beq_eq_false_iff_ne.mpr fun own => other ((beq_iff_eq.mp of).symm.trans own)
      refine ⟨{ h with
        queue := ?_, gone := List.mem_cons_of_mem _ h.gone,
        stopped := fun y apart => by simp [Pool.exec, withdraw, h.stopped y apart] }, ?_⟩
      · simp only [Pool.exec, withdraw, Queue.entries_filter, h.queue, List.filter_filter, Bool.and_comm]
      · have waits : hidden executor (.chore (.await x)) = false := visible
        simp [Pool.exec, withdraw, own, same, seen_cons_of_visible waits]
    | fail => exact ⟨h, rfl⟩
  | finish job => exact ⟨{ h with events := by simp [Pool.exec, note, h.events] }, same⟩
  | cancel job => exact ⟨{ h with events := by simp [Pool.exec, note, h.events] }, by simp [Pool.exec, same]⟩
  | chore does =>
    cases does with
    | await x =>
      refine ⟨h, ?_⟩
      simp only [Pool.exec, runs x (beq_eq_false_iff_ne.mp visible)]
      split
      · rw [seen_cons_of_visible visible, seen_cons_of_visible visible, same]
      · exact same

end Shadow

/-- What a thread does that is hidden leaves what is seen of it as it is. -/
theorem seen_exec (hid : hidden executor next = true) (tame : Tame executor (next :: rest)) :
    seen executor (p.exec (next :: rest)).2 = seen executor rest := by
  cases next with
  | act does =>
    cases does with
    | add job =>
      have ofCancel := seen_ofCancel (tame job (.inl (List.mem_cons_self ..))) (beq_iff_eq.mp hid)
      simp only [Pool.exec]
      cases refuses : p.refuses job.owner with
      | true => rw [submit_of_refuses refuses, seen_append, ofCancel, List.nil_append]
      | false => rw [submit_of_takes refuses, List.nil_append]
    | stop x =>
      obtain rfl : x = executor := beq_iff_eq.mp hid
      -- What a stop takes out of the queue is of the executor, and so hidden.
      have own : seen x ((p.queue.toList.filter (·.of x)).map .cancel) = [] := by
        refine List.filter_eq_nil_iff.mpr fun next member => ?_
        obtain ⟨job, inside, rfl⟩ := List.mem_map.mp member
        simpa [hidden] using (List.mem_filter.mp inside).2
      have waits : hidden x (.chore (.await x)) = true := hid
      simp only [Pool.exec, withdraw]
      rw [List.cons_append, seen_cons_of_hidden waits, seen_append, own, List.nil_append]
    | fail => cases hid
  | finish job => cases hid
  | cancel job =>
    have ofCancel := seen_ofCancel (tame job (.inr (List.mem_cons_self ..))) (beq_iff_eq.mp hid)
    simp only [Pool.exec, seen_append, ofCancel, List.nil_append]
  | chore does =>
    cases does with
    | await x =>
      simp only [Pool.exec]
      split
      · exact seen_cons_of_hidden hid
      · rfl

/-! ### Catching up -/

/-- A thread goes on. -/
inductive Goes : Pool × List (Todo Chore) → Pool × List (Todo Chore) → Prop
  | next {p : Pool} {todo : List (Todo Chore)} (some : todo ≠ []) (free : p.waits todo = false) : Goes (p, todo) (p.exec todo)

/-- The worker goes on. -/
inductive Works : Pool → Pool → Prop
  | step {p : Pool} (busy : p.isIdle = false) (free : p.isStuck = false) : Works p p.step

theorem labours_of_works (h : ReflTransGen Works p p') : Labours p p' :=
  ReflTransGen.mono (fun _ _ step => by cases step with | step busy free => exact .worked busy free) _ _ h

theorem runAll_of_works (h : ReflTransGen Works p p') : p.runAll = p'.runAll := by
  induction h using ReflTransGen.head_induction_on with
  | refl => rfl
  | head first _ ih =>
    cases first with
    | step busy free => rw [runAll, busy, free, ← ih]; rfl

theorem Work.works (h : p.Work p') (free : p.isStuck = false) : Works p p' := by
  have step := Works.step h.busy free
  rwa [h.step_eq] at step

/-- A thread that goes on touches no other one. -/
theorem rest_of_goes {a b : Pool × List (Todo Chore)} (h : ReflTransGen Goes a b) :
    b.1.running = a.1.running ∧ b.1.worker = a.1.worker ∧ b.1.callers = a.1.callers := by
  induction h with
  | refl => exact ⟨rfl, rfl, rfl⟩
  | tail _ last ih =>
    cases last with
    | @next p todo =>
      obtain ⟨running, worker, callers, -⟩ := p.exec_rest todo
      exact ⟨running.trans ih.1, worker.trans ih.2.1, callers.trans ih.2.2⟩

theorem callers_of_works (h : ReflTransGen Works p p') : p'.callers = p.callers := by
  induction h with
  | refl => rfl
  | tail _ last ih =>
    cases last with
    | step busy => exact (work_cases busy).callers.trans ih

/-- The thread is the worker. -/
theorem works_of_goes {a b : Pool × List (Todo Chore)} (h : ReflTransGen Goes a b) :
    ReflTransGen Works { a.1 with worker := a.2 } { b.1 with worker := b.2 } := by
  refine h.lift (fun a : Pool × List (Todo Chore) => { a.1 with worker := a.2 }) fun a b step => ?_
  cases step with
  | @next p todo some free =>
    have went : Work { p with worker := todo } _ := .went some
    rw [p.exec_others todo p.callers todo] at went
    have same : { (p.exec todo).1 with worker := (p.exec todo).2 } =
        { (p.exec todo).1 with worker := (p.exec todo).2, callers := p.callers } := by
      rw [← (p.exec_rest todo).2.2.1]
    show Works _ { (p.exec todo).1 with worker := (p.exec todo).2 }
    exact same ▸ went.works free

/-- The thread is one of those that use the pool. -/
theorem labours_of_goes {a b : Pool × List (Todo Chore)} (h : ReflTransGen Goes a b) (front back : List (List (Todo Chore))) :
    Labours { a.1 with callers := front ++ a.2 :: back } { b.1 with callers := front ++ b.2 :: back } := by
  refine h.lift (fun a : Pool × List (Todo Chore) => { a.1 with callers := front ++ a.2 :: back }) fun a b step => ?_
  cases step with
  | @next p todo some free =>
    have called := Labour.called (p := { p with callers := front ++ todo :: back }) rfl some free
    rw [p.exec_others p.worker (front ++ todo :: back) todo] at called
    have same : { (p.exec todo).1 with callers := front ++ (p.exec todo).2 :: back } =
        { (p.exec todo).1 with worker := p.worker, callers := front ++ (p.exec todo).2 :: back } := by
      rw [← (p.exec_rest todo).2.1]
    show Labour _ { (p.exec todo).1 with callers := front ++ (p.exec todo).2 :: back }
    exact same ▸ called

/-- On the shadow, a thread does what is hidden until it comes to something that is seen. -/
theorem Shadow.catchUp {q : Pool} {todo : List (Todo Chore)} (h : Shadow executor p q) (free : q.isRunning executor = false)
    (waiting : ∀ job ∈ q.queue.toList, job.Confined executor) (tame : Tame executor todo) :
    ∃ q' todo', ReflTransGen Goes (q, todo) (q', todo') ∧ Shadow executor p q' ∧ (seen executor todo = [] → todo' = []) ∧
      ∀ next more, seen executor todo = next :: more → ∃ rest, todo' = next :: rest ∧ seen executor rest = more := by
  -- By recursion on the work that is left: each hidden step lowers it.
  match todo, tame with
  | [], _ => exact ⟨q, [], .refl, h, fun _ => rfl, nofun⟩
  | next :: rest, tame =>
    cases hid : hidden executor next with
    | false =>
      rw [seen_cons_of_visible hid]
      exact ⟨q, next :: rest, .refl, h, nofun, fun _ _ same => ⟨rest, by simp_all⟩⟩
    | true =>
      -- What is hidden waits for no job but those of the executor, and none is running.
      have ready : q.waits (next :: rest) = false := by
        unfold waits
        split
        · next x _ same =>
          obtain ⟨rfl, -⟩ := List.cons.inj same
          obtain rfl : x = executor := beq_iff_eq.mp hid
          exact free
        · rfl
      obtain ⟨waiting', tame'⟩ := Confined.exec waiting tame
      have free' : (q.exec (next :: rest)).1.isRunning executor = false := by
        rw [isRunning, (q.exec_rest (next :: rest)).1]
        exact free
      obtain ⟨q', todo', goes, shadow, none, some⟩ := (h.mute_right (mute_of_hidden hid) rest).catchUp free' waiting' tame'
      rw [seen_exec hid tame] at none some
      rw [seen_cons_of_hidden hid]
      exact ⟨q', todo', .head (.next (List.cons_ne_nil _ _) ready) goes, shadow, none, some⟩
termination_by q.queue.work + Todo.workAll todo
decreasing_by exact work_exec q (List.cons_ne_nil _ _) ready

/-- What one thread does, the same thread of the shadow does when it has caught up. -/
theorem Shadow.follow (h : Shadow executor p q) (free : q.isRunning executor = false)
    (runs : ∀ x, x ≠ executor → q.isRunning x = p.isRunning x) (waiting : ∀ job ∈ q.queue.toList, job.Confined executor)
    {todo' : List (Todo Chore)} (tame : Tame executor todo) (tame' : Tame executor todo')
    (same : seen executor todo' = seen executor todo) (some : todo ≠ []) (ready : p.waits todo = false) :
    ∃ q' later, ReflTransGen Goes (q, todo') (q', later) ∧ Shadow executor (p.exec todo).1 q' ∧
      seen executor later = seen executor (p.exec todo).2 := by
  obtain ⟨next, rest, rfl⟩ := List.exists_cons_of_ne_nil some
  cases hid : hidden executor next with
  -- The thread does what is hidden, so the shadow stands still.
  | true =>
    refine ⟨q, todo', .refl, h.mute_left (mute_of_hidden hid) rest, ?_⟩
    rw [seen_exec hid tame, same, seen_cons_of_hidden hid]
  | false =>
    -- The shadow comes to the same thing, and may do it, as the same jobs are running there.
    obtain ⟨q', later, goes, shadow, -, visible⟩ := h.catchUp free waiting tame'
    obtain ⟨rest', rfl, alike⟩ := visible next _ (same.trans (seen_cons_of_visible hid))
    have runs' (x : Nat) (other : x ≠ executor) : q'.isRunning x = p.isRunning x := by
      rw [← runs x other, isRunning, isRunning, (rest_of_goes goes).1]
    have ready' : q'.waits (next :: rest') = false := by
      cases next with
      | chore does =>
        cases does with
        | await x => exact (runs' x (beq_eq_false_iff_ne.mp hid)).trans ready
      | _ => rfl
    obtain ⟨both, last⟩ := shadow.both hid alike runs'
    exact ⟨_, _, goes.tail (.next (List.cons_ne_nil _ _) ready'), both, last⟩

/-- On the shadow, the worker brings a job of the executor to its end. -/
theorem Shadow.quench {q : Pool} (h : Shadow executor p q) (confined : q.Confined executor)
    (own : q.isRunning executor = true) : ∃ q', ReflTransGen Works q q' ∧ Shadow executor p q' ∧ q'.running = none := by
  -- What a job of the executor does keeps to it, so it waits for nothing and is hidden throughout.
  cases worker : q.worker with
  | nil =>
    cases on : q.running with
    | none => simp [isRunning, on] at own
    | some job =>
      have released : q.Work _ := .released on worker
      exact ⟨_, .single (released.works (by rw [isStuck, worker]; rfl)),
        h.threads p.running none p.worker q.worker p.callers q.callers, rfl⟩
  | cons next rest =>
    have keeps := confined.running own next (worker ▸ List.mem_cons_self ..)
    have went : q.Work _ := .went (by simp [worker])
    have free : q.isStuck = false := by
      rw [isStuck, worker]
      cases next with
      | chore => exact keeps.elim
      | _ => rfl
    have works := went.works free
    have shadow := h.mute_right (mute_of_keeps keeps) rest
    rw [← worker] at shadow
    have own' : (q.exec q.worker).1.isRunning executor = true := by
      rw [isRunning, (q.exec_rest q.worker).1]
      exact own
    obtain ⟨q', onward, shadow', none⟩ := (shadow.threads p.running _ p.worker (q.exec q.worker).2 p.callers _).quench
      (confined.labours (labours_of_works (.single works))) own'
    exact ⟨q', .head works onward, shadow', none⟩
termination_by q.work
decreasing_by exact went.step_eq ▸ work_step q went.busy free

/-! ### Side by side -/

/-- The workers of two pools are on the same job of another executor, or neither is on a job of another one. -/
inductive Level (executor : Nat) (p q : Pool) : Prop
  | same {job : Job} (on : p.running = some job) (on' : q.running = some job) (other : job.of executor = false)
      (alike : seen executor q.worker = seen executor p.worker)
  | own (left : ∀ job ∈ p.running, job.of executor = true) (right : ∀ job ∈ q.running, job.of executor = true)

theorem Level.runs (h : Level executor p q) {x : Nat} (other : x ≠ executor) : q.isRunning x = p.isRunning x := by
  have none {p : Pool} (own : ∀ job ∈ p.running, job.of executor = true) : p.isRunning x = false := by
    cases on : p.running with
    | none => simp [isRunning, on]
    | some job =>
      have of : job.owner = executor := by simpa [Job.of] using own job on
      simpa [isRunning, on, Job.of, of] using other.symm
  cases h with
  | same on on' => rw [isRunning, isRunning, on, on']
  | own left right => rw [none left, none right]

theorem Level.free (h : Level executor p q) (free : p.running = none) (quiet : q.isRunning executor = false) :
    q.running = none := by
  cases h with
  | same on => cases free.symm.trans on
  | own _ right =>
    cases on : q.running with
    | none => rfl
    | some job => simp [isRunning, on, right job on] at quiet

/-- A pool and its shadow at work. -/
structure Beside (executor : Nat) (p q : Pool) : Prop extends Shadow executor p q where
  level : Level executor p q
  sound : p.Sound ∧ q.Sound
  confined : p.Confined executor ∧ q.Confined executor

namespace Beside

theorem onward (h : Beside executor p q) (first : Labours p p') (second : Labours q q') (shadow : Shadow executor p' q')
    (level : Level executor p' q') : Beside executor p' q' :=
  ⟨shadow, level, ⟨first.reaches.sound h.sound.1, second.reaches.sound h.sound.2⟩,
    ⟨h.confined.1.labours first, h.confined.2.labours second⟩⟩

theorem quench (h : Beside executor p q) :
    ∃ q', ReflTransGen Works q q' ∧ Beside executor p q' ∧ q'.isRunning executor = false := by
  cases own : q.isRunning executor with
  | false => exact ⟨q, .refl, h, own⟩
  | true =>
    obtain ⟨q', works, shadow, none⟩ := h.toShadow.quench h.confined.2 own
    have left : ∀ job ∈ p.running, job.of executor = true := by
      cases h.level with
      | same on on' other => simp [isRunning, on', other] at own
      | own left => exact left
    refine ⟨q', works, h.onward .refl (labours_of_works works) shadow (.own left (by simp [none])), ?_⟩
    rw [isRunning, none]
    rfl

/-- What the worker starts for the executor its shadow does not see, and what it starts for others the shadow starts. -/
theorem start (h : Beside executor p q) (free : p.running = none) (idle : p.worker = []) {job : Job} {queue : Queue Job}
    (next : p.queue.pop? = some (job, queue)) :
    ∃ q', ReflTransGen Works q q' ∧
      Beside executor (({ p with queue, running := some job, worker := Todo.ofRun job } : Pool).note (.started job)) q' := by
  have started : p.Work _ := .started free idle next
  have labours := labours_of_works (.single (started.works (by rw [isStuck, idle]; rfl)))
  obtain ⟨rank, entries⟩ := Queue.entries_of_pop? next
  cases own : job.of executor with
  | true =>
    have same : q.queue.entries = (queue.filter (!·.of executor)).entries := by
      rw [h.queue, Queue.entries_filter, entries, List.filter_cons_of_neg (by simp [own]), Queue.entries_filter]
    have right : ∀ job ∈ q.running, job.of executor = true := by
      cases h.level with
      | same on => cases free.symm.trans on
      | own _ right => exact right
    refine ⟨q, .refl, h.onward labours .refl { h.toShadow with queue := same, events := ?_ } (.own ?_ right)⟩
    · simp [note, h.events, own]
    · rintro _ ⟨⟩
      exact own
  | false =>
    -- The job is not of the executor, so the other pool first works off what it has of that executor.
    obtain ⟨q₁, works, beside, quiet⟩ := h.quench
    have free' := beside.level.free free quiet
    have idle' := beside.sound.2.idle free'
    have first : q₁.queue.entries = (rank, job) :: (queue.filter (!·.of executor)).entries := by
      rw [beside.queue, Queue.entries_filter, entries, List.filter_cons_of_pos (by simp [own]), Queue.entries_filter]
    obtain ⟨queue', popped, same⟩ := Queue.pop?_of_entries first
    have started' : q₁.Work _ := .started free' idle' popped
    have works' := started'.works (by rw [isStuck, idle']; rfl)
    refine ⟨_, works.tail works', beside.onward labours (labours_of_works (.single works'))
      { beside.toShadow with queue := same, events := ?_ } (.same rfl rfl own rfl)⟩
    simp [note, beside.events]

/-- What the worker does, the worker of the shadow does when it has caught up. -/
theorem work (h : Beside executor p q) (step : Works p p') : ∃ q', ReflTransGen Works q q' ∧ Beside executor p' q' := by
  have labours := labours_of_works (.single step)
  obtain ⟨busy, free⟩ := step
  have work := work_cases busy
  generalize p.step = p' at work labours
  cases h.level with
  | own left right =>
    cases work with
    | started none idle next => exact h.start none idle next
    | released on done =>
      have shadow := h.threads none q.running p.worker q.worker p.callers q.callers
      exact ⟨q, .refl, h.onward labours .refl shadow (.own (by simp) right)⟩
    | went some =>
      obtain ⟨next, rest, worker⟩ := List.exists_cons_of_ne_nil some
      have own : p.isRunning executor = true := by
        cases on : p.running with
        | none => exact absurd (h.sound.1.idle on) some
        | some job => simp [isRunning, on, left job on]
      -- While a job of the executor runs, the other pool stands still.
      have keeps := h.confined.1.running own next (worker ▸ List.mem_cons_self ..)
      have shadow := h.mute_left (mute_of_keeps keeps) rest
      rw [← worker] at shadow
      have level : ∀ job ∈ (p.exec p.worker).1.running, job.of executor = true := (p.exec_rest p.worker).1 ▸ left
      exact ⟨q, .refl, h.onward labours .refl (shadow.threads _ q.running _ q.worker _ q.callers) (.own level right)⟩
  | same on on' other alike =>
    have quiet : q.isRunning executor = false := by rw [isRunning, on']; exact other
    cases work with
    | started none => cases none.symm.trans on
    | released _ done =>
      rw [done] at alike
      obtain ⟨q', todo', goes, shadow, nothing, -⟩ := h.catchUp quiet h.confined.2.waiting h.confined.2.worker
      obtain rfl := nothing alike
      have released : Work { q' with worker := [] } _ := .released ((rest_of_goes goes).1.trans on') rfl
      have works := (works_of_goes goes).tail (released.works rfl)
      have shadow' := shadow.threads none none p.worker [] p.callers q'.callers
      exact ⟨_, works, h.onward labours (labours_of_works works) shadow' (.own (by simp) (by simp))⟩
    | went some =>
      obtain ⟨q', later, goes, shadow, alike'⟩ := h.follow quiet (fun _ => h.level.runs) h.confined.2.waiting
        h.confined.1.worker h.confined.2.worker alike some free
      have works := works_of_goes goes
      have shadow' := shadow.threads (p.exec p.worker).1.running q'.running (p.exec p.worker).2 later
        (p.exec p.worker).1.callers q'.callers
      have running : (p.exec p.worker).1.running = _ := (p.exec_rest p.worker).1.trans on
      exact ⟨_, works, h.onward labours (labours_of_works works) shadow'
        (.same running ((rest_of_goes goes).1.trans on') other alike')⟩

/-- When the worker of the one pool has nothing more that it can do, nor has the other one when it has caught up. -/
theorem exhausted (h : Beside executor p q) (done : p.isIdle = true ∨ p.isStuck = true) :
    ∃ q', ReflTransGen Works q q' ∧ Beside executor p q' ∧ (q'.isIdle = true ∨ q'.isStuck = true) := by
  rcases done with idle | stuck
  -- Either nothing is left to be run, or the worker waits for its own job, which the shadow then waits for too.
  · obtain ⟨⟨free, -⟩, empty⟩ : (p.running = none ∧ p.worker = []) ∧ p.queue.isEmpty = true := by simpa [isIdle] using idle
    obtain ⟨q', works, beside, quiet⟩ := h.quench
    have free' := beside.level.free free quiet
    have entries : q'.queue.entries = [] := by
      rw [beside.queue, Queue.entries_filter, Queue.isEmpty_iff.mp empty, List.filter_nil]
    refine ⟨q', works, beside, .inl ?_⟩
    simp [isIdle, free', beside.sound.2.idle free', Queue.isEmpty_iff.mpr entries]
  · obtain ⟨job, rest, on, worker⟩ := exists_of_stuck stuck
    have other : job.of executor = false := by
      cases own : job.of executor with
      | false => rfl
      | true =>
        have runs : p.isRunning executor = true := by rw [isRunning, on]; exact own
        exact (h.confined.1.running runs (.chore (.await job.owner)) (worker ▸ List.mem_cons_self ..)).elim
    have visible : hidden executor (.chore (.await job.owner)) = false := other
    cases h.level with
    | own left => exact absurd (left job on) (by simp [other])
    | @same job' on' on'' apart alike =>
      obtain rfl : job = job' := Option.some.inj (on.symm.trans on')
      have quiet : q.isRunning executor = false := by rw [isRunning, on'']; exact apart
      obtain ⟨q', todo', goes, shadow, -, visibly⟩ := h.catchUp quiet h.confined.2.waiting h.confined.2.worker
      rw [worker, seen_cons_of_visible visible] at alike
      obtain ⟨rest', rfl, alike'⟩ := visibly _ _ alike
      have works := works_of_goes goes
      have running : q'.running = some job := (rest_of_goes goes).1.trans on''
      have seen : seen executor (.chore (.await job.owner) :: rest') = seen executor p.worker := by
        rw [worker, seen_cons_of_visible visible, seen_cons_of_visible visible, alike']
      refine ⟨_, works, h.onward .refl (labours_of_works works)
        (shadow.threads p.running q'.running p.worker _ p.callers q'.callers) (.same on running apart seen), .inr ?_⟩
      show q'.isRunning job.owner = true
      simp [isRunning, running, Job.of]

/-- Running all that waits. -/
theorem runAll (h : Beside executor p q) : Beside executor p.runAll q.runAll := by
  fun_induction Pool.runAll p generalizing q with
  | case1 p done =>
    obtain ⟨q', works, beside, still⟩ := h.exhausted (Bool.or_eq_true_iff.mp done)
    rw [runAll_of_works works, Pool.runAll, if_pos (Bool.or_eq_true_iff.mpr still)]
    exact beside
  | case2 p going ih =>
    obtain ⟨busy, free⟩ : p.isIdle = false ∧ p.isStuck = false := by simpa using going
    obtain ⟨q', works, beside⟩ := h.work (.step busy free)
    rw [runAll_of_works works]
    exact ih beside

/-- What goes on by itself goes on for the shadow as well. -/
theorem labour (h : Beside executor p q) (callers : q.callers.map (seen executor) = p.callers.map (seen executor))
    (labour : Labour p p') :
    ∃ q', Labours q q' ∧ Beside executor p' q' ∧ q'.callers.map (seen executor) = p'.callers.map (seen executor) := by
  cases labour with
  | worked busy free =>
    obtain ⟨q', works, beside⟩ := h.work (.step busy free)
    refine ⟨q', labours_of_works works, beside, ?_⟩
    rw [callers_of_works works, (work_cases busy).callers, callers]
  | @called front back todo split some free =>
    -- A job of the executor that runs on the shadow comes to its end first, since the thread may wait for it.
    obtain ⟨q₁, works, beside, quiet⟩ := h.quench
    rw [← callers_of_works works, split, List.map_append, List.map_cons] at callers
    obtain ⟨front', rest, split', first, others⟩ := List.map_eq_append_iff.mp callers
    obtain ⟨todo', back', rfl, same, last⟩ := List.map_eq_cons_iff.mp others
    obtain ⟨q', later, goes, shadow, alike⟩ := beside.follow quiet (fun _ => beside.level.runs) beside.confined.2.waiting
      (h.confined.1.callers todo (by simp [split])) (beside.confined.2.callers todo' (by simp [split'])) same some free
    have labours := labours_of_goes goes front' back'
    rw [← split'] at labours
    obtain ⟨running, worker, -⟩ := p.exec_rest todo
    obtain ⟨running', worker', -⟩ := rest_of_goes goes
    have shadow' := shadow.threads (p.exec todo).1.running q'.running (p.exec todo).1.worker q'.worker
      (front ++ (p.exec todo).2 :: back) (front' ++ later :: back')
    have level : Level executor { (p.exec todo).1 with callers := front ++ (p.exec todo).2 :: back }
        { q' with callers := front' ++ later :: back' } := by
      cases beside.level with
      | same on on' other alike =>
        exact .same (running.trans on) (running'.trans on') other
          (show seen executor q'.worker = seen executor (p.exec todo).1.worker by rw [worker, worker', alike])
      | own left right =>
        exact .own (show ∀ job ∈ (p.exec todo).1.running, _ from running ▸ left)
          (show ∀ job ∈ q'.running, _ from running' ▸ right)
    refine ⟨_, (labours_of_works works).trans labours, beside.onward (.single (.called split some free)) labours shadow' level, ?_⟩
    simp [first, last, alike]

/-- What happens on a pool may happen on its shadow. -/
theorem advance (h : Beside executor p q) (callers : q.callers.map (seen executor) = p.callers.map (seen executor))
    (advance : Advance p p') (confined : p'.Confined executor) :
    ∃ q', Reaches q q' ∧ Beside executor p' q' ∧ q'.callers.map (seen executor) = p'.callers.map (seen executor) := by
  cases advance with
  | laboured labour =>
    obtain ⟨q', labours, beside, callers'⟩ := h.labour callers labour
    exact ⟨q', labours.reaches, beside, callers'⟩
  -- What enters, or closes, does so on both sides.
  | entered acts =>
    have tame : Tame executor (acts.map .act) := confined.callers _ (List.mem_append_right _ (List.mem_singleton_self _))
    have right : Confined executor { q with callers := q.callers ++ [acts.map .act] } :=
      ⟨h.confined.2.waiting, h.confined.2.worker, fun todo member => (List.mem_append.mp member).elim (h.confined.2.callers todo)
        fun new => List.mem_singleton.mp new ▸ tame, h.confined.2.running⟩
    have level : Level executor { p with callers := p.callers ++ [acts.map .act] }
        { q with callers := q.callers ++ [acts.map .act] } := by
      cases h.level with
      | same on on' other alike => exact .same on on' other alike
      | own left right => exact .own left right
    exact ⟨_, .single (.entered q acts),
      ⟨h.threads p.running q.running p.worker q.worker _ _, level,
        ⟨((Advance.entered p acts).sound h.sound.1).1, ((Advance.entered q acts).sound h.sound.2).1⟩, ⟨confined, right⟩⟩,
      by simp [callers]⟩
  | closed =>
    have level : Level executor { p with shuttingDown := true } { q with shuttingDown := true } := by
      cases h.level with
      | same on on' other alike => exact .same on on' other alike
      | own left right => exact .own left right
    have right : Confined executor { q with shuttingDown := true } :=
      ⟨h.confined.2.waiting, h.confined.2.worker, h.confined.2.callers, h.confined.2.running⟩
    exact ⟨_, .single (.closed q),
      ⟨{ h.toShadow with shuttingDown := rfl }, level,
        ⟨((Advance.closed p).sound h.sound.1).1, ((Advance.closed q).sound h.sound.2).1⟩, ⟨confined, right⟩⟩, callers⟩

end Beside

/-- What happens on a pool on which all jobs are confined. -/
def Confines (executor : Nat) : Pool → Pool → Prop := ReflTransGen fun p p' => Advance p p' ∧ p'.Confined executor

/-- Whatever happens to a pool, much the same may happen to its shadow. -/
theorem Beside.confines (h : Beside executor p q)
    (callers : q.callers.map (seen executor) = p.callers.map (seen executor)) (path : Confines executor p p') :
    ∃ q', Reaches q q' ∧ Beside executor p' q' := by
  suffices ∃ q', Reaches q q' ∧ Beside executor p' q' ∧ q'.callers.map (seen executor) = p'.callers.map (seen executor) from
    this.imp fun _ found => ⟨found.1, found.2.1⟩
  induction path with
  | refl => exact ⟨q, .refl, h, callers⟩
  | tail _ last ih =>
    obtain ⟨q', reached, beside, callers'⟩ := ih
    obtain ⟨q'', onward, beside', callers''⟩ := beside.advance callers' last.1 last.2
    exact ⟨q'', reached.trans onward, beside', callers''⟩

/-! ### Stops -/

theorem seen_withdraw (executor : Nat) (p : Pool) : seen executor (p.withdraw executor).2 = [] := by
  refine List.filter_eq_nil_iff.mpr fun next member => ?_
  rcases List.mem_cons.mp member with rfl | own
  · simp [hidden]
  · obtain ⟨job, inside, rfl⟩ := List.mem_map.mp own
    simpa [hidden] using (List.mem_filter.mp inside).2

theorem Shadow.of_withdraw (executor : Nat) (p : Pool) : Shadow executor p (p.withdraw executor).1 where
  queue := rfl
  shuttingDown := rfl
  gone := List.mem_cons_self ..
  stopped := fun x other => by simp [withdraw, other]
  events := rfl

namespace Stops
variable {spared : Pool}

theorem confined (h : p.Stops executor p' spared) (confined : p.Confined executor) : spared.Confined executor := by
  cases h with
  | @worker rest top =>
    have tame : Tame executor (.act (.stop executor) :: rest) := top ▸ confined.worker
    refine ⟨confined.waiting, tame.tail, confined.callers, fun own => ?_⟩
    exact (confined.running own (.act (.stop executor)) (top ▸ List.mem_cons_self ..)).elim
  | @caller front back rest split =>
    refine ⟨confined.waiting, confined.worker, fun todo member => ?_, confined.running⟩
    rcases List.mem_cons.mp (List.perm_middle.mem_iff.mp member) with rfl | old
    · exact (confined.callers (.act (.stop executor) :: todo) (by simp [split])).tail
    · exact confined.callers todo (split ▸ List.perm_middle.mem_iff.mpr (List.mem_cons_of_mem _ old))

/-- The pool on which a thread stops the executor is a shadow of the one on which it does not. -/
theorem beside (h : p.Stops executor p' spared) (sound : p.Sound) (confined : p.Confined executor) :
    Beside executor spared p' ∧ p'.callers.map (seen executor) = spared.callers.map (seen executor) := by
  have sounds := And.intro (h.sound sound) (h.labour.sound sound).1
  have confines := And.intro (h.confined confined) (confined.labour h.labour)
  have withdrawn := Shadow.of_withdraw executor p
  cases h with
  | @worker rest top =>
    have shadow := withdrawn.threads p.running p.running rest ((p.withdraw executor).2 ++ rest) p.callers p.callers
    refine ⟨⟨shadow, ?_, sounds, confines⟩, rfl⟩
    cases on : p.running with
    | none => exact absurd (sound.idle on) (by simp [top])
    | some job =>
      -- A job of the executor does not stop it: that would not be confined.
      have other : job.of executor = false := by
        cases own : job.of executor with
        | false => rfl
        | true =>
          have runs : p.isRunning executor = true := by rw [isRunning, on]; exact own
          exact (confined.running runs (.act (.stop executor)) (top ▸ List.mem_cons_self ..)).elim
      exact .same rfl on other (by simp [seen_withdraw])
  | @caller front back rest split =>
    have shadow := withdrawn.threads p.running p.running p.worker p.worker (front ++ rest :: back)
      (front ++ ((p.withdraw executor).2 ++ rest) :: back)
    refine ⟨⟨shadow, ?_, sounds, confines⟩, by simp [seen_withdraw]⟩
    cases on : p.running with
    | none => exact .own (by simp) (by simp [withdraw, on])
    | some job =>
      cases own : job.of executor with
      | false => exact .same rfl on own rfl
      | true => exact .own (by simp [own]) (by simp [withdraw, on, own])

end Stops

/-- A thread that does what is hidden. -/
theorem Shadow.drive (h : Shadow executor p q) (waiting : ∀ job ∈ q.queue.toList, job.Confined executor)
    (tame : Tame executor todo) (alone : seen executor todo = []) :
    Shadow executor p (q.drive todo) ∧ (q.drive todo).running = q.running ∧ (q.drive todo).worker = q.worker := by
  fun_induction Pool.drive q todo with
  | case1 q todo => exact ⟨h.threads p.running q.running p.worker q.worker p.callers _, rfl, rfl⟩
  | case2 q todo going ih =>
    obtain ⟨some, -⟩ : todo ≠ [] ∧ q.waits todo = false := by simpa using going
    obtain ⟨next, rest, rfl⟩ := List.exists_cons_of_ne_nil some
    have hid : hidden executor next = true := by
      have visible := List.filter_eq_nil_iff.mp alone next (List.mem_cons_self ..)
      simpa using visible
    obtain ⟨waiting', tame'⟩ := Confined.exec waiting tame
    obtain ⟨running, worker, -⟩ := q.exec_rest (next :: rest)
    rw [seen_cons_of_hidden hid] at alone
    obtain ⟨shadow, running', worker'⟩ :=
      ih (h.mute_right (mute_of_hidden hid) rest) waiting' tame' ((seen_exec hid tame).trans alone)
    exact ⟨shadow, running'.trans running, worker'.trans worker⟩

/-- Somebody comes in and stops the executor. -/
theorem Beside.of_stop (sound : p.Sound) (confined : p.Confined executor) : Beside executor p (p.stop executor) := by
  have labours := labours_drive p [.act (.stop executor)]
  have stops : Tame executor [.act (.stop executor)] := by simp [Tame]
  have entered : Confined executor { p with callers := p.callers ++ [[.act (.stop executor)]] } :=
    ⟨confined.waiting, confined.worker, fun todo member => (List.mem_append.mp member).elim (confined.callers todo)
      fun new => List.mem_singleton.mp new ▸ stops, confined.running⟩
  obtain ⟨waiting, tame⟩ := Confined.exec confined.waiting stops
  have alone : seen executor (p.exec [.act (.stop executor)]).2 = [] := by
    simp [Pool.exec, seen_withdraw]
  obtain ⟨shadow, running, worker⟩ := (Shadow.of_withdraw executor p).drive waiting tame alone
  have drives : p.stop executor = (p.withdraw executor).1.drive (p.exec [.act (.stop executor)]).2 := drive_next rfl
  rw [← drives] at shadow running worker
  refine ⟨shadow, ?_, ⟨sound, labours.reaches.sound ((Advance.entered p [.stop executor]).sound sound).1⟩,
    ⟨confined, entered.labours labours⟩⟩
  cases on : p.running with
  | none => exact .own (by simp [on]) (by simp [running, withdraw, on])
  | some job =>
    cases own : job.of executor with
    | false => exact .same on (running.trans on) own (congrArg (seen executor) worker)
    | true => exact .own (by simp [on, own]) (by simp [running, withdraw, on, own])

end Pool

end Multiplex
