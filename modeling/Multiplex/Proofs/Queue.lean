import Multiplex.Queue

/-! # The order of ranked queues

A new item goes in between the entries of its rank or a lesser one and those of a greater rank. Keeping only
some of the items, before or after, makes no difference to where it goes (`Queue.filter_insert`), and neither
does changing the items (`Queue.insert_map`). -/

namespace Multiplex.Queue

variable {α : Type} {rank : Nat} {item : α} {entries : List (Nat × α)}

theorem insert_split (rank : Nat) (item : α) (entries : List (Nat × α)) :
    ∃ front back, entries = front ++ back ∧ insert rank item entries = front ++ (rank, item) :: back := by
  induction entries with
  | nil => exact ⟨[], [], rfl, rfl⟩
  | cons e rest ih =>
    unfold insert
    split
    · obtain ⟨front, back, rfl, inserted⟩ := ih
      exact ⟨e :: front, back, rfl, by rw [inserted]; rfl⟩
    · exact ⟨[], e :: rest, rfl, rfl⟩

theorem insert_last (behind : ∀ e ∈ entries, e.1 ≤ rank) : insert rank item entries = entries ++ [(rank, item)] := by
  induction entries with
  | nil => rfl
  | cons e rest ih =>
    obtain ⟨first, others⟩ := List.forall_mem_cons.mp behind
    rw [insert, if_pos first, ih others]
    rfl

/-- In a queue in order, putting an item in and keeping only some of the items is the same as keeping some
    and putting it in. -/
theorem filter_insert (keep : α → Bool) (rank : Nat) (item : α) (kept : keep item)
    (sorted : entries.Pairwise (·.1 ≤ ·.1)) :
    (insert rank item entries).filter (keep ·.2) = insert rank item (entries.filter (keep ·.2)) := by
  induction entries with
  | nil => simp [insert, kept]
  | cons e rest ih =>
    obtain ⟨least, rest_sorted⟩ := List.pairwise_cons.mp sorted
    by_cases le : e.1 ≤ rank
    · by_cases stays : keep e.2
      · simp [insert, le, stays, ih rest_sorted]
      · simp [insert, le, stays, ih rest_sorted]
    · have greater : ∀ other ∈ (e :: rest).filter (keep ·.2), rank < other.1 := by
        intro other member
        rcases List.mem_cons.mp (List.mem_filter.mp member).1 with same | later
        · exact same ▸ Nat.lt_of_not_le le
        · exact Nat.lt_of_lt_of_le (Nat.lt_of_not_le le) (least other later)
      rw [insert, if_neg le, List.filter_cons_of_pos (by exact kept)]
      cases found : (e :: rest).filter (keep ·.2) with
      | nil => rfl
      | cons first others =>
        have later := greater first (by simp [found])
        rw [insert, if_neg (by omega)]

theorem filter_insert_other (keep : α → Bool) (rank : Nat) (item : α) (dropped : keep item = false)
    (entries : List (Nat × α)) :
    (insert rank item entries).filter (keep ·.2) = entries.filter (keep ·.2) := by
  induction entries with
  | nil => simp [insert, dropped]
  | cons e rest ih =>
    unfold insert
    split
    · rw [List.filter_cons, List.filter_cons, ih]
    · rw [List.filter_cons_of_neg (by simp [dropped])]

theorem mem_insert {e : Nat × α} : e ∈ insert rank item entries ↔ e = (rank, item) ∨ e ∈ entries :=
  (insert_perm rank item entries).mem_iff.trans List.mem_cons

/-! ### Other items -/

theorem insert_map {β : Type} (change : α → β) (rank : Nat) (item : α) (entries : List (Nat × α)) :
    insert rank (change item) (entries.map (Prod.map id change)) =
      (insert rank item entries).map (Prod.map id change) := by
  induction entries with
  | nil => rfl
  | cons e rest ih =>
    simp only [List.map_cons, insert, ih, Prod.map_fst, id_eq]
    split <;> rfl

end Multiplex.Queue
