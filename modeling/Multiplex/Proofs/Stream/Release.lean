import Multiplex.Window.Send

/-! # What a window lets go

A send window neither loses nor reorders bytes, lets go of as many as its credit covers, and holds back
nothing that costs nothing. It may cut a chunk, but keeps the end of the message at the end. -/

namespace Multiplex

/-! ### Ends of messages -/

/-- Of the parts of a message at most the last one is final, and it is if the message is `ended`. -/
def Ends (ended : Bool) : List Bool → Prop
  | [] => ended = false
  | final :: rest => if final then ended = true ∧ rest = [] else Ends ended rest

namespace Ends
variable {ended : Bool} {front back : List Bool}

theorem append (first : Ends false front) (second : Ends ended back) : Ends ended (front ++ back) := by
  induction front with
  | nil => exact second
  | cons final rest ih =>
    cases final with
    | false => exact ih first
    | true => simp [Ends] at first

/-- The front of a message that does not end there leaves the end to the rest. -/
theorem split (h : Ends ended (front ++ back)) :
    Ends (front.any id) front ∧ Ends (ended && !front.any id) back ∧
      (front.any id → ended ∧ back = []) := by
  induction front with
  | nil => exact ⟨rfl, by simpa using h, nofun⟩
  | cons final rest ih =>
    cases final with
    | false =>
      obtain ⟨first, second, whole⟩ := ih h
      exact ⟨by simpa [Ends] using first, by simpa using second, by simpa using whole⟩
    | true =>
      obtain ⟨done, nothing⟩ : ended = true ∧ rest ++ back = [] := h
      obtain ⟨rfl, rfl⟩ := List.append_eq_nil_iff.mp nothing
      simp [Ends, done]

theorem any (h : Ends ended front) : front.any id = ended := by
  induction front with
  | nil => exact Eq.symm h
  | cons final rest ih =>
    cases final with
    | false => exact (by simpa using ih h)
    | true => exact (by simpa using h.1.symm)

theorem dropLast (h : Ends ended front) : ∀ final ∈ front.dropLast, final = false := by
  induction front with
  | nil => nofun
  | cons final rest ih =>
    cases final with
    | false =>
      cases rest with
      | nil => nofun
      | cons second others =>
        rw [List.dropLast_cons_cons]
        exact List.forall_mem_cons.mpr ⟨rfl, ih h⟩
    | true =>
      obtain ⟨-, rfl⟩ : ended = true ∧ rest = [] := h
      nofun

/-- A message that has ended ends with its last part. -/
theorem last (h : Ends true front) : ∃ early, front = early ++ [true] ∧ ∀ final ∈ early, final = false := by
  induction front with
  | nil => cases h
  | cons final rest ih =>
    cases final with
    | false =>
      obtain ⟨early, rfl, unended⟩ := ih h
      exact ⟨false :: early, rfl, List.forall_mem_cons.mpr ⟨rfl, unended⟩⟩
    | true =>
      obtain ⟨-, rfl⟩ : true = true ∧ rest = [] := h
      exact ⟨[], rfl, nofun⟩

end Ends

/-! ### Chunks -/

/-- The bytes of chunks, joined. -/
def Chunk.join (chunks : List Chunk) : Bytes := chunks.flatMap (·.bytes)

@[simp] theorem Chunk.join_nil : join [] = [] := rfl

@[simp] theorem Chunk.join_cons (c : Chunk) (rest : List Chunk) : join (c :: rest) = c.bytes ++ join rest := rfl

@[simp] theorem Chunk.join_append (front back : List Chunk) : join (front ++ back) = join front ++ join back :=
  List.flatMap_append

namespace SendWindow

theorem enabled_release (w : SendWindow) (chunks : List Chunk) :
    (w.release chunks).window.enabled = w.enabled := by
  fun_induction release w chunks with
  | case1 => rfl
  | case2 w c rest off r ih => exact ih
  | case3 w c rest on fits r ih => exact ih
  | case4 => rfl
  | case5 => rfl

/-- The bytes that go out and those that go on waiting are those that waited. -/
theorem join_release (w : SendWindow) (chunks : List Chunk) :
    Chunk.join (w.release chunks).released ++ Chunk.join (w.release chunks).waiting = Chunk.join chunks := by
  fun_induction release w chunks with
  | case1 => rfl
  | case2 w c rest off r ih => simp [r, ih]
  | case3 w c rest on fits r ih => simp [r, ih]
  | case4 => rfl
  | case5 => simp [← List.append_assoc]

/-- What goes out is paid for. -/
theorem credit_release (w : SendWindow) (chunks : List Chunk) (on : w.enabled) :
    (w.release chunks).window.credit + (Chunk.join (w.release chunks).released).length = w.credit := by
  fun_induction release w chunks with
  | case1 => rfl
  | case2 w c rest off => simp [off] at on
  | case3 w c rest _ fits r ih =>
    have paid := ih on
    simp only [r, Chunk.join_cons, List.length_append] at paid ⊢
    omega
  | case4 => rfl
  | case5 w c rest _ exceeds _ =>
    simp only [Chunk.join_cons, Chunk.join_nil, List.append_nil, List.length_take]
    omega

theorem credit_release_le (w : SendWindow) (chunks : List Chunk) : (w.release chunks).window.credit ≤ w.credit := by
  fun_induction release w chunks with
  | case1 => exact Nat.le_refl _
  | case2 _ _ _ _ _ ih => exact ih
  | case3 _ _ _ _ _ _ ih => exact Nat.le_trans ih (Nat.sub_le ..)
  | case4 => exact Nat.le_refl _
  | case5 => exact Nat.zero_le _

/-- Only what costs something waits, and only while there is no credit. -/
theorem waiting_release (w : SendWindow) (chunks : List Chunk) {c : Chunk} {rest : List Chunk}
    (waits : (w.release chunks).waiting = c :: rest) :
    w.enabled ∧ (w.release chunks).window.credit = 0 ∧ c.bytes ≠ [] := by
  fun_induction release w chunks with
  | case1 => cases waits
  | case2 w d others off r ih => exact ih waits
  | case3 w d others _ fits r ih => exact ih waits
  | case4 w d others on exceeds spent =>
    cases waits
    refine ⟨by simpa using on, spent, ?_⟩
    rintro none
    simp [none] at exceeds
  | case5 w d others on exceeds _ =>
    cases waits
    refine ⟨by simpa using on, rfl, ?_⟩
    rintro none
    have := List.drop_eq_nil_iff.mp none
    omega

@[simp] theorem release_nil (w : SendWindow) :
    w.release [] = { window := w, released := [], waiting := [] } := rfl

/-- Cutting a chunk leaves the end of the message at its end. -/
theorem ends_release (w : SendWindow) (chunks : List Chunk) {ended : Bool}
    (whole : Ends ended (chunks.map (·.final))) :
    Ends ended (((w.release chunks).released ++ (w.release chunks).waiting).map (·.final)) := by
  have cons {c : Chunk} {rest : List Chunk} {r : Release} (last : rest = [] → r.released ++ r.waiting = [])
      (ih : Ends ended (rest.map (·.final)) → Ends ended ((r.released ++ r.waiting).map (·.final)))
      (whole : Ends ended ((c :: rest).map (·.final))) :
      Ends ended ((c :: r.released ++ r.waiting).map (·.final)) := by
    cases final : c.final with
    | false => simpa [Ends, final] using ih (by simpa [Ends, final] using whole)
    | true =>
      obtain ⟨done, nothing⟩ : ended = true ∧ rest = [] := by simpa [Ends, final] using whole
      simp [Ends, final, done, last nothing]
  fun_induction release w chunks with
  | case1 => exact whole
  | case2 w c rest off r ih =>
    refine cons ?_ ih whole
    rintro rfl
    rfl
  | case3 w c rest on fits r ih =>
    refine cons ?_ ih whole
    rintro rfl
    rfl
  | case4 => exact whole
  | case5 => simpa [Ends] using whole

end SendWindow

end Multiplex
