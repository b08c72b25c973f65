import Mathlib.Tactic.ByContra
import Multiplex.Proofs.Queue
import Multiplex.Proofs.Stream.OnWire

/-! # The order of service of an outbox

However frames are put into an outbox and taken out of it, a pop gives the oldest of the frames of the lowest rank that
wait, as it was put in, and no frame is given twice (`Serves`). Equal frames may wait side by side, so a frame is named
by the moment at which it was put in: a queue of frames with their moments runs beside the outbox (`stock`) and tells
which of them a pop gives (`serves_source`). -/

namespace Multiplex

/-! ### Ranks -/

namespace Outgoing

/-- The kinds of the frames that go out before all frames of streams. -/
def connectionKinds : List Frame.Kind := [.ping, .settings, .goAway, .windowUpdate, .pushPromise]

theorem isConnectionLevel_iff_kind {f : Outgoing} : f.isConnectionLevel ↔ f.kind ∈ connectionKinds := by
  cases f with
  | frame frame => cases frame <;> simp [isConnectionLevel, kind, connectionKinds]
  | headers | pushPromise => simp [isConnectionLevel, kind, connectionKinds]

theorem rank_of_connection {f : Outgoing} (level : f.kind ∈ connectionKinds) (priority : Nat) : f.rank priority = 0 :=
  if_pos (isConnectionLevel_iff_kind.mpr level)

theorem rank_of_stream {f : Outgoing} (level : f.kind ∉ connectionKinds) (priority : Nat) :
    f.rank priority = 1 + priority :=
  if_neg (mt isConnectionLevel_iff_kind.mp level)

end Outgoing

namespace Outbox

/-! ### Uses -/

/-- What is done with an outbox. -/
inductive Use where
  | push (f : Outgoing) (priority : Nat)
  | pop
  | close
  deriving DecidableEq

/-- What comes of it: whether the outbox took the frame in, or the frame that it gave. -/
inductive Answer where
  | pushed (taken : Bool)
  | popped (f : Option Outgoing)
  | closed
  deriving DecidableEq

def use (o : Outbox) : Use → Outbox × Answer
  | .push f priority => (o.push f priority, .pushed !o.closed)
  | .pop =>
    match o.pop? with
    | some (f, rest) => (rest, .popped (some f))
    | none => (o, .popped none)
  | .close => (o.close, .closed)

variable (uses : List Use)

/-- A new outbox after the first `n` uses. -/
def after (n : Nat) : Outbox := (uses.take n).foldl (fun o u => (o.use u).1) {}

/-- What comes of the use at `n`. -/
def answer? (n : Nat) : Option Answer := uses[n]?.map fun u => ((after uses n).use u).2

/-- The frame that is put in at `k`, with its rank. -/
def offered? (k : Nat) : Option (Nat × Outgoing) :=
  match uses[k]? with
  | some (.push f priority) => some (f.rank priority, f)
  | _ => none

/-- The frame that was put in at `k` waits at `n`, if each pop gave the frame that `source` says. -/
structure Waits (source : Nat → Option Nat) (n k : Nat) : Prop where
  earlier : k < n
  offered : (offered? uses k).isSome
  unclosed : .close ∉ uses.take n
  kept : ∀ m < n, source m ≠ some k

/-- Of the frames that were put in at `k` and at `l`, the first has the lower rank, or it has the same and is older. -/
def Sooner (k l : Nat) : Prop :=
  ∀ e ∈ offered? uses k, ∀ e' ∈ offered? uses l, e.1 < e'.1 ∨ e.1 = e'.1 ∧ k < l

/-- The outbox answers each use as it should, and each pop gives the frame that `source` says: one that waits, and the
    first of those. -/
structure Serves (source : Nat → Option Nat) : Prop where
  told : ∀ n f priority, uses[n]? = some (.push f priority) → answer? uses n = some (.pushed (.close ∉ uses.take n))
  given : ∀ n k, source n = some k →
    uses[n]? = some .pop ∧ Waits uses source n k ∧ answer? uses n = some (.popped ((offered? uses k).map (·.2))) ∧
      ∀ l, Waits uses source n l → l = k ∨ Sooner uses k l
  nothing : ∀ n, uses[n]? = some .pop → source n = none →
    answer? uses n = some (.popped none) ∧ ∀ k, ¬ Waits uses source n k

section Serves
variable {uses} {source : Nat → Option Nat} (serves : Serves uses source) {m n j k : Nat}
include serves

/-- No frame is given twice. -/
theorem Serves.once (first : source m = some k) (second : source n = some k) : m = n := by
  rcases Nat.lt_trichotomy m n with lt | same | gt
  · exact absurd first ((serves.given n k second).2.1.kept m lt)
  · exact same
  · exact absurd second ((serves.given m k first).2.1.kept n gt)

/-- Once a pop gives nothing, all frames that were taken in have been given, unless the outbox was closed. -/
theorem Serves.drained (empty : answer? uses n = some (.popped none)) (unclosed : .close ∉ uses.take n)
    (earlier : k < n) (offered : (offered? uses k).isSome) : ∃ m < n, source m = some k := by
  have popped : uses[n]? = some .pop := by
    unfold answer? at empty
    cases found : uses[n]? with
    | none => simp [found] at empty
    | some u =>
      cases u with
      | pop => rfl
      | push | close => simp [found, use] at empty
  cases given : source n with
  | none =>
    by_contra waits
    refine (serves.nothing n popped given).2 k ⟨earlier, offered, unclosed, fun m before same => ?_⟩
    exact waits ⟨m, before, same⟩
  | some k' =>
    obtain ⟨-, waits, answer, -⟩ := serves.given n k' given
    obtain ⟨e, put⟩ := Option.isSome_iff_exists.mp waits.offered
    rw [answer, put] at empty
    cases empty

/-- Of two frames of one rank the older is given first. -/
theorem Serves.inTurn (older : j < k) {rank : Nat} {f g : Outgoing} (first : offered? uses j = some (rank, f))
    (second : offered? uses k = some (rank, g)) (given : source n = some k) : ∃ m < n, source m = some j := by
  obtain ⟨-, waits, -, least⟩ := serves.given n k given
  by_contra still
  have waits' : Waits uses source n j :=
    ⟨Nat.lt_trans older waits.earlier, by simp [first], waits.unclosed, fun m before same => still ⟨m, before, same⟩⟩
  rcases least j waits' with same | sooner
  · omega
  · have := sooner _ second _ first
    omega

/-- A closed outbox gives nothing. -/
theorem Serves.shut (popped : uses[n]? = some .pop) (closed : .close ∈ uses.take n) :
    answer? uses n = some (.popped none) := by
  cases given : source n with
  | none => exact (serves.nothing n popped given).1
  | some k => exact absurd closed (serves.given n k given).2.1.unclosed

end Serves

/-! ### A queue beside the outbox -/

/-- The frames that wait at `n`, each with the moment at which it was put in. -/
def stock : Nat → Queue (Nat × Outgoing)
  | 0 => .empty
  | n + 1 =>
    match uses[n]? with
    | some (.push f priority) =>
      if .close ∈ uses.take n then stock n else (stock n).push (f.rank priority) (n, f)
    | some .pop => ((stock n).pop?.map (·.2)).getD (stock n)
    | some .close => .empty
    | none => stock n

/-- The moment at which the frame was put in that the use at `n` gives. -/
def source (n : Nat) : Option Nat := if uses[n]? = some .pop then (stock uses n).pop?.map (·.1.1) else none

theorem after_succ (n : Nat) :
    after uses (n + 1) = uses[n]?.elim (after uses n) fun u => ((after uses n).use u).1 := by
  rw [after, List.take_add_one, List.foldl_append]
  cases uses[n]? <;> rfl

theorem mem_take_succ {u : Use} (n : Nat) : u ∈ uses.take (n + 1) ↔ u ∈ uses.take n ∨ uses[n]? = some u := by
  rw [List.take_add_one, List.mem_append, Option.mem_toList]

theorem closed_after (n : Nat) : (after uses n).closed = true ↔ .close ∈ uses.take n := by
  induction n with
  | zero => simp [after]
  | succ n ih =>
    rw [after_succ, mem_take_succ, ← ih]
    cases uses[n]? with
    | none => simp
    | some u =>
      cases u with
      | push f priority =>
        simp only [Option.elim_some, use, push]
        split <;> simp
      | pop =>
        simp only [Option.elim_some, use, pop?]
        cases (after uses n).queue.pop? <;> simp
      | close => simp [use, close]

/-- A queue that holds the same frames gives the same frame. -/
theorem pop?_after {q : Queue Outgoing} {beside rest : Queue (Nat × Outgoing)} {k : Nat} {f : Outgoing}
    (same : q.entries = beside.entries.map (Prod.map id (·.2))) (taken : beside.pop? = some ((k, f), rest)) :
    ∃ rest', q.pop? = some (f, rest') ∧ rest'.entries = rest.entries.map (Prod.map id (·.2)) := by
  obtain ⟨rank, entries⟩ := Queue.entries_of_pop? taken
  rw [entries] at same
  exact Queue.pop?_of_entries same

/-- The queue beside the outbox holds the same frames. -/
theorem entries_after (n : Nat) :
    (after uses n).queue.entries = (stock uses n).entries.map (Prod.map id (·.2)) := by
  induction n with
  | zero => rfl
  | succ n ih =>
    rw [after_succ, stock]
    cases uses[n]? with
    | none => exact ih
    | some u =>
      cases u with
      | push f priority =>
        simp only [Option.elim_some, use, push, closed_after]
        split
        · exact ih
        · rw [Queue.entries_push, Queue.entries_push, ih, ← Queue.insert_map]
      | pop =>
        cases taken : (stock uses n).pop? with
        | none =>
          have none : (after uses n).queue.pop? = none := by
            rw [Queue.pop?_eq_none_iff, Queue.toList_eq] at taken ⊢
            simpa [ih] using taken
          simpa [use, pop?, none] using ih
        | some taken' =>
          obtain ⟨rest, popped, same⟩ := pop?_after ih taken
          simpa [use, pop?, popped] using same
      | close => rfl

/-- Of two entries of the queue beside the outbox, put in at different moments, the first has the lower rank, or it has
    the same and is older. -/
def Before (e e' : Nat × Nat × Outgoing) : Prop := e.2.1 ≠ e'.2.1 ∧ (e.1 < e'.1 ∨ e.1 = e'.1 ∧ e.2.1 < e'.2.1)

/-- A frame that is put in now goes behind those of its rank, which are older. -/
theorem order_push {q : Queue (Nat × Outgoing)} {n : Nat} (order : q.entries.Pairwise Before)
    (early : ∀ e ∈ q.entries, e.2.1 < n) (rank : Nat) (f : Outgoing) :
    (q.push rank (n, f)).entries.Pairwise Before := by
  obtain ⟨front, back, split, inserted, less, greater⟩ := Queue.insert_ranked rank (n, f) q.sorted
  have entries : (q.push rank (n, f)).entries = front ++ (rank, (n, f)) :: back := by
    rw [Queue.entries_push, inserted]
  rw [split] at order early
  obtain ⟨frontOrder, backOrder, across⟩ := List.pairwise_append.mp order
  obtain ⟨frontEarly, backEarly⟩ := List.forall_mem_append.mp early
  rw [entries]
  refine List.pairwise_append.mpr ⟨frontOrder, .cons (fun e member => ?_) backOrder, fun e member => ?_⟩
  · exact ⟨(Nat.ne_of_lt (backEarly e member)).symm, .inl (greater e member)⟩
  · refine List.forall_mem_cons.mpr ⟨⟨Nat.ne_of_lt (frontEarly e member), ?_⟩, across e member⟩
    rcases Nat.lt_or_eq_of_le (less e member) with lower | same
    · exact .inl lower
    · exact .inr ⟨same, frontEarly e member⟩

/-- The frames that wait are in the order of their ranks and, within one rank, of the moments at which they were put
    in. -/
theorem stock_order (n : Nat) :
    (stock uses n).entries.Pairwise Before ∧ ∀ e ∈ (stock uses n).entries, e.2.1 < n := by
  induction n with
  | zero => exact ⟨.nil, nofun⟩
  | succ n ih =>
    obtain ⟨order, early⟩ := ih
    have older : ∀ e ∈ (stock uses n).entries, e.2.1 < n + 1 := fun e member => Nat.lt_succ_of_lt (early e member)
    rw [stock]
    split
    · split
      · exact ⟨order, older⟩
      refine ⟨order_push order early _ _, fun e member => ?_⟩
      rcases Queue.mem_insert.mp (Queue.entries_push .. ▸ member) with rfl | old
      · exact Nat.lt_succ_self n
      · exact older e old
    · cases taken : (stock uses n).pop? with
      | none => exact ⟨order, older⟩
      | some taken' =>
        obtain ⟨rank, entries⟩ := Queue.entries_of_pop? taken
        rw [entries] at order older
        exact ⟨(List.pairwise_cons.mp order).2, (List.forall_mem_cons.mp older).2⟩
    · exact ⟨.nil, nofun⟩
    · exact ⟨order, older⟩

/-- What a use adds to the frames that wait, and what it takes away. -/
theorem mem_stock_succ (n : Nat) (e : Nat × Nat × Outgoing) :
    e ∈ (stock uses (n + 1)).entries ↔
      (e ∈ (stock uses n).entries ∨ e.2.1 = n ∧ offered? uses n = some (e.1, e.2.2) ∧ .close ∉ uses.take n) ∧
        uses[n]? ≠ some .close ∧ source uses n ≠ some e.2.1 := by
  rw [stock]
  cases used : uses[n]? with
  | none => simp [offered?, source, used]
  | some u =>
    cases u with
    | push f priority =>
      by_cases closed : .close ∈ uses.take n
      · simp [source, used, closed]
      · have new : e = (f.rank priority, n, f) ↔ e.2.1 = n ∧ f.rank priority = e.1 ∧ f = e.2.2 := by grind
        simp [offered?, source, used, closed, Queue.mem_insert, new, or_comm]
    | pop =>
      cases taken : (stock uses n).pop? with
      | none => simp [offered?, source, used, taken]
      | some taken' =>
        obtain ⟨rank, entries⟩ := Queue.entries_of_pop? taken
        -- The taken frame differs from all that stay, as no two have the same moment.
        have others := (List.pairwise_cons.mp (entries ▸ (stock_order uses n).1)).1
        simp only [offered?, source, used, taken, entries, List.mem_cons, Option.map_some, Option.getD_some, ite_true,
          reduceCtorEq, false_and, and_false, or_false, ne_eq, Option.some.injEq, not_false_eq_true, true_and]
        constructor
        · exact fun member => ⟨.inr member, (others e member).1⟩
        · rintro ⟨rfl | member, other⟩
          · exact absurd rfl other
          · exact member
    | close => simp

theorem waits_succ {source : Nat → Option Nat} (early : ∀ m k, source m = some k → k < m) (n k : Nat) :
    Waits uses source (n + 1) k ↔
      (Waits uses source n k ∨ k = n ∧ (offered? uses n).isSome ∧ .close ∉ uses.take n) ∧
        uses[n]? ≠ some .close ∧ source n ≠ some k := by
  constructor
  · rintro ⟨earlier, offered, unclosed, kept⟩
    rw [mem_take_succ, not_or] at unclosed
    refine ⟨?_, unclosed.2, kept n (Nat.lt_succ_self n)⟩
    rcases Nat.lt_succ_iff_lt_or_eq.mp earlier with before | rfl
    · exact .inl ⟨before, offered, unclosed.1, fun m lt => kept m (Nat.lt_succ_of_lt lt)⟩
    · exact .inr ⟨rfl, offered, unclosed.1⟩
  · rintro ⟨waits | ⟨rfl, offered, unclosed⟩, notClose, notGiven⟩
    · refine ⟨Nat.lt_succ_of_lt waits.earlier, waits.offered, ?_, fun m lt => ?_⟩
      · rw [mem_take_succ, not_or]
        exact ⟨waits.unclosed, notClose⟩
      · rcases Nat.lt_succ_iff_lt_or_eq.mp lt with before | rfl
        · exact waits.kept m before
        · exact notGiven
    · refine ⟨Nat.lt_succ_self k, offered, ?_, fun m lt same => ?_⟩
      · rw [mem_take_succ, not_or]
        exact ⟨unclosed, notClose⟩
      · have := early m k same
        omega

theorem source_early (m k : Nat) (given : source uses m = some k) : k < m := by
  unfold source at given
  split at given
  · obtain ⟨⟨item, rest⟩, taken, rfl⟩ := Option.map_eq_some_iff.mp given
    obtain ⟨rank, entries⟩ := Queue.entries_of_pop? taken
    exact (stock_order uses m).2 (rank, item) (entries ▸ List.mem_cons_self)
  · cases given

/-- The queue beside the outbox holds the frames that wait, each with its own rank. -/
theorem mem_stock (n : Nat) (e : Nat × Nat × Outgoing) :
    e ∈ (stock uses n).entries ↔ Waits uses (source uses) n e.2.1 ∧ offered? uses e.2.1 = some (e.1, e.2.2) := by
  -- By induction on the uses: both sides lose what is given and what a closing drops, and get what is put in.
  induction n with
  | zero => exact ⟨nofun, fun waits => absurd waits.1.earlier (Nat.not_lt_zero _)⟩
  | succ n ih =>
    rw [mem_stock_succ, waits_succ uses (source_early uses), ih]
    constructor
    · rintro ⟨⟨waits, offered⟩ | ⟨now, offered, unclosed⟩, remains⟩
      · exact ⟨⟨.inl waits, remains⟩, offered⟩
      · exact ⟨⟨.inr ⟨now, by simp [offered], unclosed⟩, remains⟩, now ▸ offered⟩
    · rintro ⟨⟨waits | ⟨now, -, unclosed⟩, remains⟩, offered⟩
      · exact ⟨.inl ⟨waits, offered⟩, remains⟩
      · exact ⟨.inr ⟨now, now ▸ offered, unclosed⟩, remains⟩

theorem serves_source : Serves uses (source uses) where
  told n f priority put := by
    have closed := closed_after uses n
    rw [answer?, put]
    by_cases shut : .close ∈ uses.take n
    · simp [use, closed.mpr shut, shut]
    · simp [use, mt closed.mp shut, shut]
  given n k given := by
    unfold source at given
    split at given
    · next popped =>
      obtain ⟨⟨item, rest⟩, taken, rfl⟩ := Option.map_eq_some_iff.mp given
      obtain ⟨rank, entries⟩ := Queue.entries_of_pop? taken
      obtain ⟨waits, offered⟩ := (mem_stock uses n (rank, item)).mp (entries ▸ List.mem_cons_self)
      refine ⟨popped, waits, ?_, fun l waits' => ?_⟩
      · rw [answer?, popped, offered]
        obtain ⟨rest', popped, -⟩ := pop?_after (entries_after uses n) taken
        simp [use, pop?, popped]
      · obtain ⟨⟨rank', f'⟩, offered'⟩ := Option.isSome_iff_exists.mp waits'.offered
        -- The other frame stands behind the one that was given, and the queue is in order.
        have member := (mem_stock uses n (rank', l, f')).mpr ⟨waits', offered'⟩
        rw [entries] at member
        rcases List.mem_cons.mp member with same | later
        · cases same
          exact .inl rfl
        · refine .inr fun e same e' same' => ?_
          rw [offered] at same
          rw [offered'] at same'
          cases same
          cases same'
          exact ((List.pairwise_cons.mp (entries ▸ (stock_order uses n).1)).1 _ later).2
    · cases given
  nothing n popped nothing := by
    rw [source, if_pos popped] at nothing
    have empty : (stock uses n).entries = [] := by
      simpa [Queue.toList_eq] using Queue.pop?_eq_none_iff.mp (Option.map_eq_none_iff.mp nothing)
    have none : (after uses n).queue.pop? = none := by
      rw [Queue.pop?_eq_none_iff, Queue.toList_eq, entries_after, empty]
      rfl
    refine ⟨by simp [answer?, popped, use, pop?, none], fun k waits => ?_⟩
    obtain ⟨⟨rank, f⟩, offered⟩ := Option.isSome_iff_exists.mp waits.offered
    have member := (mem_stock uses n (rank, k, f)).mpr ⟨waits, offered⟩
    exact List.not_mem_nil (empty ▸ member)

/-- An outbox gives each frame that it takes in at most once and as it was put in, and just once if it is emptied before
    it is closed. It serves the frames of the connection first and those of streams by priority, and the frames of one
    rank leave in the order in which they were put in. Once closed, it gives nothing and takes nothing. -/
theorem served_in_order :
    ∃ source, Serves uses source ∧
      (∀ m n k, source m = some k → source n = some k → m = n) ∧
      (∀ n, answer? uses n = some (.popped none) → .close ∉ uses.take n →
        ∀ k < n, (offered? uses k).isSome → ∃ m < n, source m = some k) ∧
      (∀ j k rank f g, j < k → offered? uses j = some (rank, f) → offered? uses k = some (rank, g) →
        ∀ n, source n = some k → ∃ m < n, source m = some j) ∧
      (∀ n, .close ∈ uses.take n →
        (uses[n]? = some .pop → answer? uses n = some (.popped none)) ∧
        ∀ f priority, uses[n]? = some (.push f priority) → answer? uses n = some (.pushed false)) ∧
      ∀ (f : Outgoing) (priority : Nat),
        f.rank priority = if f.kind ∈ Outgoing.connectionKinds then 0 else 1 + priority := by
  have serves := serves_source uses
  refine ⟨source uses, serves, fun m n k => serves.once, fun n empty unclosed k => serves.drained empty unclosed,
    fun j k rank f g older first second n => serves.inTurn older first second, fun n closed => ⟨?_, ?_⟩, ?_⟩
  · exact fun popped => serves.shut popped closed
  · intro f priority put
    simpa [closed] using serves.told n f priority put
  · intro f priority
    split
    · next level => exact Outgoing.rank_of_connection level priority
    · next level => exact Outgoing.rank_of_stream level priority

example (bytes : Bytes) (payload : Vector UInt8 8) :
    answer? [.push (.frame (.data 1 bytes false)) 0, .push (.frame (.ping true payload)) 7, .pop] 2 =
      some (.popped (some (.frame (.ping true payload)))) :=
  rfl

end Outbox

end Multiplex
