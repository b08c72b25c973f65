/-! # Ranked queues

A ranked queue serves the least rank first, and among items of one rank the oldest first. It is a heap of
entries, each with the rank of its item and the number of its push. The heap gives its greatest entry first,
and the greatest entry is the one of the least rank and, among these, of the least number.

What waits, in the order in which it will be served, is `Queue.entries`. A new item goes behind all items of
its rank or a lesser one (`entries_push`), taking an item takes the first (`entries_of_pop?`), and keeping only
some of the items reorders none (`entries_filter`). -/

namespace Multiplex

/-! ### Entries -/

/-- An item that waits. -/
structure Entry (α : Type) where
  rank : Nat
  /-- How many items had been put in before. -/
  seq : Nat
  item : α

namespace Entry

variable {α : Type} {e f g : Entry α}

def key (e : Entry α) : Nat × Nat := (e.rank, e.seq)

/-- Entries compare by their keys the other way round. -/
instance : Ord (Entry α) where
  compare e f := lexOrd.compare f.key e.key

/-- Whether an entry is served before another. -/
def Before (e f : Entry α) : Prop := e.rank < f.rank ∨ e.rank = f.rank ∧ e.seq < f.seq

theorem compare_eq_lt : compare e f = .lt ↔ f.Before e := by
  show (compare f.rank e.rank).then (compare f.seq e.seq) = .lt ↔ f.Before e
  rw [Ordering.then_eq_lt, Nat.compare_eq_lt, Nat.compare_eq_lt, Nat.compare_eq_eq, Before]

theorem Before.trans (first : e.Before f) (second : f.Before g) : e.Before g := by
  unfold Before at *
  omega

theorem Before.asymm (first : e.Before f) : ¬ f.Before e := by
  unfold Before at *
  omega

theorem before_or (other : e.seq ≠ f.seq) : e.Before f ∨ f.Before e := by
  unfold Before
  omega

end Entry

/-! ### Heaps -/

/-- A heap of items, of which the greatest is taken first. -/
structure Heap (α : Type) where
  items : List α := []

namespace Heap

variable {α : Type}

section Greatest
variable [Ord α]

/-- The greatest of some items, and the others. -/
def greatest (a : α) : List α → α × List α
  | [] => (a, [])
  | b :: rest =>
    let (top, others) := greatest b rest
    if compare a top = .lt then (top, a :: others) else (a, b :: rest)

theorem greatest_perm (a : α) (rest : List α) :
    ((greatest a rest).1 :: (greatest a rest).2).Perm (a :: rest) := by
  induction rest generalizing a with
  | nil => exact .refl _
  | cons b rest ih =>
    unfold greatest
    dsimp only
    split
    · exact (List.Perm.swap ..).trans ((ih b).cons a)
    · exact .refl _

/-- Takes the greatest item. -/
def pop? (h : Heap α) : Option (α × Heap α) :=
  match h.items with
  | [] => none
  | a :: rest => some ((greatest a rest).1, { items := (greatest a rest).2 })

theorem perm_of_pop? {h rest : Heap α} {a : α} (taken : h.pop? = some (a, rest)) :
    h.items.Perm (a :: rest.items) := by
  unfold pop? at taken
  split at taken
  · cases taken
  · next b others split =>
    cases taken
    exact split ▸ (greatest_perm b others).symm

end Greatest

/-- The greatest entry is the one that is served first. -/
theorem greatest_before (e : Entry α) {rest : List (Entry α)} (distinct : ((e :: rest).map (·.seq)).Nodup) :
    ∀ f ∈ (greatest e rest).2, (greatest e rest).1.Before f := by
  induction rest generalizing e with
  | nil => nofun
  | cons f rest ih =>
    rw [List.map_cons, List.nodup_cons] at distinct
    have first := ih f distinct.2
    have perm := greatest_perm f rest
    unfold greatest
    dsimp only
    split
    · next less => exact List.forall_mem_cons.mpr ⟨Entry.compare_eq_lt.mp less, first⟩
    · next least =>
      -- The greatest of the others comes behind the first entry, and so do they.
      have inside : (greatest f rest).1 ∈ f :: rest := perm.mem_iff.mp List.mem_cons_self
      have apart : e.seq ≠ (greatest f rest).1.seq := fun same =>
        distinct.1 (same ▸ List.mem_map_of_mem inside)
      have next : e.Before (greatest f rest).1 :=
        (Entry.before_or apart).resolve_right (mt Entry.compare_eq_lt.mpr least)
      intro g member
      rcases List.mem_cons.mp (perm.mem_iff.mpr member) with rfl | later
      · exact next
      · exact next.trans (first g later)

end Heap

/-! ### Queues -/

/-- A queue of items, each put in with a rank. -/
structure Queue (α : Type) where
  heap : Heap (Entry α) := {}
  /-- The number of the next push. -/
  nextSeq : Nat := 0
  /-- No two entries have the same number. -/
  distinct : (heap.items.map (·.seq)).Nodup := by exact .nil
  early : ∀ e ∈ heap.items, e.seq < nextSeq := by exact nofun

namespace Queue

variable {α : Type}

/-- A queue in which nothing waits. -/
def empty : Queue α := {}

/-- Puts an item in. -/
def push (q : Queue α) (rank : Nat) (item : α) : Queue α where
  heap := { items := { rank, seq := q.nextSeq, item } :: q.heap.items }
  nextSeq := q.nextSeq + 1
  distinct := by
    refine List.nodup_cons.mpr ⟨fun member => ?_, q.distinct⟩
    obtain ⟨e, inside, same⟩ := List.mem_map.mp member
    exact absurd same (Nat.ne_of_lt (q.early e inside))
  early := List.forall_mem_cons.mpr
    ⟨Nat.lt_succ_self _, fun e inside => Nat.lt_succ_of_lt (q.early e inside)⟩

/-- Takes the item that is served next. -/
def pop? (q : Queue α) : Option (α × Queue α) :=
  match taken : q.heap.pop? with
  | none => none
  | some (e, heap) =>
    have perm := Heap.perm_of_pop? taken
    some (e.item,
      { heap
        nextSeq := q.nextSeq
        distinct := (List.nodup_cons.mp ((perm.map _).nodup_iff.mp q.distinct)).2
        early := fun f inside => q.early f (perm.mem_iff.mpr (List.mem_cons_of_mem _ inside)) })

/-- Keeps some of the items. -/
def filter (keep : α → Bool) (q : Queue α) : Queue α where
  heap := { items := q.heap.items.filter (keep ·.item) }
  nextSeq := q.nextSeq
  distinct := (List.filter_sublist.map _).nodup q.distinct
  early := fun e inside => q.early e (List.mem_filter.mp inside).1

/-- Drops all items. The numbers go on. -/
def clear (q : Queue α) : Queue α := { nextSeq := q.nextSeq }

/-- The number of items. -/
def size (q : Queue α) : Nat := q.heap.items.length

/-- Whether nothing waits. -/
def isEmpty (q : Queue α) : Bool := q.heap.items.isEmpty

/-- Takes up to `count` entries from a heap. -/
def served : (count : Nat) → Heap (Entry α) → List (Entry α)
  | 0, _ => []
  | count + 1, heap =>
    match heap.pop? with
    | none => []
    | some (e, rest) => e :: served count rest

/-- The items in the order in which they will be served, each with its rank. -/
def entries (q : Queue α) : List (Nat × α) := (served q.size q.heap).map fun e => (e.rank, e.item)

/-- The items in the order in which they will be served. -/
def toList (q : Queue α) : List α := (served q.size q.heap).map (·.item)

/-! ### The order of service -/

theorem length_of_pop? {h rest : Heap (Entry α)} {e : Entry α} (taken : h.pop? = some (e, rest)) :
    h.items.length = rest.items.length + 1 := by
  simpa using (Heap.perm_of_pop? taken).length_eq

theorem items_of_pop?_none {h : Heap (Entry α)} (none : h.pop? = none) : h.items = [] := by
  unfold Heap.pop? at none
  split at none
  · next empty => exact empty
  · cases none

theorem served_perm {count : Nat} {h : Heap (Entry α)} (whole : h.items.length = count) :
    (served count h).Perm h.items := by
  induction count generalizing h with
  | zero => rw [List.length_eq_zero_iff.mp whole, served]
  | succ count ih =>
    unfold served
    split
    · next none => simp [items_of_pop?_none none] at whole
    · next e rest taken =>
      have fewer := length_of_pop? taken
      exact ((ih (by omega)).cons e).trans (Heap.perm_of_pop? taken).symm

theorem served_ordered {count : Nat} {h : Heap (Entry α)} (whole : h.items.length = count)
    (distinct : (h.items.map (·.seq)).Nodup) : (served count h).Pairwise Entry.Before := by
  induction count generalizing h with
  | zero => exact .nil
  | succ count ih =>
    unfold served
    split
    · exact .nil
    · next e rest taken =>
      have perm := Heap.perm_of_pop? taken
      have fewer := length_of_pop? taken
      have whole' : rest.items.length = count := by omega
      refine .cons (fun f later => ?_) (ih whole' (List.nodup_cons.mp ((perm.map _).nodup_iff.mp distinct)).2)
      have inside := (served_perm whole').mem_iff.mp later
      unfold Heap.pop? at taken
      split at taken
      · cases taken
      · next first others items =>
        cases taken
        exact Heap.greatest_before first (items ▸ distinct) f inside

/-- There is one order of service. -/
theorem served_unique {h : Heap (Entry α)} (distinct : (h.items.map (·.seq)).Nodup) {order : List (Entry α)}
    (same : order.Perm h.items) (ordered : order.Pairwise Entry.Before) : served h.items.length h = order :=
  ((served_perm rfl).trans same.symm).eq_of_pairwise (fun _ _ _ _ first second => absurd second first.asymm)
    (served_ordered rfl distinct) ordered

theorem served_cons {h rest : Heap (Entry α)} {e : Entry α} (taken : h.pop? = some (e, rest)) :
    served h.items.length h = e :: served rest.items.length rest := by
  simp [length_of_pop? taken, served, taken]

theorem toList_eq (q : Queue α) : q.toList = q.entries.map (·.2) := by
  simp [toList, entries]

@[simp] theorem entries_empty : (empty : Queue α).entries = [] := rfl

@[simp] theorem toList_empty : (empty : Queue α).toList = [] := rfl

@[simp] theorem entries_clear (q : Queue α) : q.clear.entries = [] := rfl

@[simp] theorem toList_clear (q : Queue α) : q.clear.toList = [] := rfl

@[simp] theorem length_entries (q : Queue α) : q.entries.length = q.size := by
  rw [entries, List.length_map, size, (served_perm rfl).length_eq]

theorem isEmpty_iff {q : Queue α} : q.isEmpty ↔ q.entries = [] := by
  rw [isEmpty, List.isEmpty_iff, ← List.length_eq_zero_iff, ← List.length_eq_zero_iff, length_entries]
  rfl

/-- Dropping all items of an empty queue changes nothing. -/
theorem clear_of_toList {q : Queue α} (none : q.toList = []) : q.clear = q := by
  obtain ⟨⟨items⟩, nextSeq, distinct, early⟩ := q
  obtain rfl : items = [] := by
    rw [toList_eq, List.map_eq_nil_iff, ← List.length_eq_zero_iff, length_entries] at none
    exact List.length_eq_zero_iff.mp none
  rfl

/-- The ranks never go down. -/
theorem sorted (q : Queue α) : q.entries.Pairwise (·.1 ≤ ·.1) := by
  refine List.pairwise_map.mpr ((served_ordered rfl q.distinct).imp fun first => ?_)
  unfold Entry.Before at first
  dsimp only
  omega

/-- Puts an entry behind all entries of its rank or a lesser one. -/
def insert (rank : Nat) (item : α) : List (Nat × α) → List (Nat × α)
  | [] => [(rank, item)]
  | e :: rest => if e.1 ≤ rank then e :: insert rank item rest else (rank, item) :: e :: rest

/-- Putting an item in adds just that item. -/
theorem insert_perm (rank : Nat) (item : α) (entries : List (Nat × α)) :
    (insert rank item entries).Perm ((rank, item) :: entries) := by
  fun_induction insert rank item entries with
  | case1 => exact .refl _
  | case2 e rest _ ih => exact (ih.cons e).trans (.swap _ _ _)
  | case3 => exact .refl _

/-- A new item goes behind all items of its rank or a lesser one, and before all others. -/
theorem insert_ranked (rank : Nat) (item : α) {entries : List (Nat × α)} (sorted : entries.Pairwise (·.1 ≤ ·.1)) :
    ∃ front back, entries = front ++ back ∧ insert rank item entries = front ++ (rank, item) :: back ∧
      (∀ e ∈ front, e.1 ≤ rank) ∧ ∀ e ∈ back, rank < e.1 := by
  induction entries with
  | nil => exact ⟨[], [], rfl, rfl, nofun, nofun⟩
  | cons e rest ih =>
    obtain ⟨least, others⟩ := List.pairwise_cons.mp sorted
    unfold insert
    split
    · next le =>
      obtain ⟨front, back, rfl, inserted, less, greater⟩ := ih others
      exact ⟨e :: front, back, rfl, by rw [inserted]; rfl, List.forall_mem_cons.mpr ⟨le, less⟩, greater⟩
    · next lt =>
      have first := Nat.lt_of_not_le lt
      refine ⟨[], e :: rest, rfl, rfl, nofun, List.forall_mem_cons.mpr ⟨first, fun later member => ?_⟩⟩
      exact Nat.lt_of_lt_of_le first (least later member)

/-- A new item goes behind all items of its rank or a lesser one. -/
@[simp] theorem entries_push (q : Queue α) (rank : Nat) (item : α) :
    (q.push rank item).entries = insert rank item q.entries := by
  obtain ⟨front, back, split, inserted, less, greater⟩ := insert_ranked rank item q.sorted
  obtain ⟨early, late, whole, rfl, rfl⟩ := List.map_eq_append_iff.mp split
  have perm := served_perm (h := q.heap) rfl
  have ordered := served_ordered rfl q.distinct
  rw [size] at whole
  rw [whole] at perm ordered
  let new : Entry α := { rank, seq := q.nextSeq, item }
  have order : (early ++ new :: late).Pairwise Entry.Before := by
    obtain ⟨before, after, across⟩ := List.pairwise_append.mp ordered
    refine List.pairwise_append.mpr ⟨before, .cons (fun e member => ?_) after, fun e member => ?_⟩
    · exact .inl (greater _ (List.mem_map_of_mem member))
    · refine List.forall_mem_cons.mpr ⟨?_, across e member⟩
      have older : e.seq < q.nextSeq := q.early e (perm.mem_iff.mp (List.mem_append_left _ member))
      exact (Nat.lt_or_eq_of_le (less _ (List.mem_map_of_mem member))).imp_right fun same => ⟨same, older⟩
  have served := served_unique (q.push rank item).distinct (List.perm_middle.trans (perm.cons new)) order
  rw [entries, size, served, inserted]
  simp [new]

theorem pop?_eq_none_iff {q : Queue α} : q.pop? = none ↔ q.toList = [] := by
  rw [toList, List.map_eq_nil_iff, size, pop?]
  split
  · next none => simp [items_of_pop?_none none, served]
  · next e rest taken => simp [served_cons taken]

/-- The item that is taken is the first. -/
theorem entries_of_pop? {q rest : Queue α} {item : α} (taken : q.pop? = some (item, rest)) :
    ∃ rank, q.entries = (rank, item) :: rest.entries := by
  unfold pop? at taken
  split at taken
  · cases taken
  · next e heap popped =>
    cases taken
    exact ⟨e.rank, by rw [entries, size, served_cons popped, List.map_cons]; rfl⟩

/-- Taking items gives them in order. -/
theorem toList_of_pop? {q rest : Queue α} {item : α} (taken : q.pop? = some (item, rest)) :
    q.toList = item :: rest.toList := by
  obtain ⟨rank, entries⟩ := entries_of_pop? taken
  rw [toList_eq, toList_eq, entries]
  rfl

/-- The first item is the one that is taken. -/
theorem pop?_of_entries {q : Queue α} {rank : Nat} {item : α} {later : List (Nat × α)}
    (first : q.entries = (rank, item) :: later) : ∃ rest, q.pop? = some (item, rest) ∧ rest.entries = later := by
  cases taken : q.pop? with
  | none =>
    rw [pop?_eq_none_iff, toList_eq, first] at taken
    cases taken
  | some next =>
    obtain ⟨item', rest⟩ := next
    obtain ⟨rank', entries⟩ := entries_of_pop? taken
    rw [first] at entries
    cases entries
    exact ⟨rest, rfl, rfl⟩

/-- Keeping some of the items does not reorder them. -/
@[simp] theorem entries_filter (keep : α → Bool) (q : Queue α) :
    (q.filter keep).entries = q.entries.filter (keep ·.2) := by
  have served := served_unique (q.filter keep).distinct ((served_perm rfl).filter (keep ·.item))
    ((served_ordered rfl q.distinct).filter _)
  rw [entries, size, served, entries, List.filter_map]
  rfl

@[simp] theorem toList_filter (keep : α → Bool) (q : Queue α) :
    (q.filter keep).toList = q.toList.filter keep := by
  rw [toList_eq, toList_eq, entries_filter, List.filter_map]
  rfl

/-- A new item comes beside those that were there. -/
theorem toList_push_perm (q : Queue α) (rank : Nat) (item : α) :
    (q.push rank item).toList.Perm (item :: q.toList) := by
  rw [toList_eq, toList_eq, entries_push]
  exact (insert_perm rank item q.entries).map _

end Queue

end Multiplex
