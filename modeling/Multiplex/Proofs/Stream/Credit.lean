import Multiplex.Proofs.Stream.Release

/-! # Histories of a send window

Chunks are pushed, credit is granted, and now and then the window lets go of what its credit covers. However these
steps are mixed, what went out and what waits is what was pushed, cut but not otherwise changed (`Cuts`), and every
byte that went out was paid for once. What is left is therefore a function of what was pushed and of all credit
(`SendWindow.remainder`), and the way in which credit came in leaves no trace. -/

namespace Multiplex

/-! ### Cutting chunks -/

/-- A chunk cut into parts: no part is empty, and the end of a message goes with the last part. A chunk without
    bytes stays whole. -/
structure Chunk.CutInto (c : Chunk) (parts : List Chunk) : Prop where
  join : Chunk.join parts = c.bytes
  ends : Ends c.final (parts.map (·.final))
  filled : c.bytes ≠ [] → ∀ part ∈ parts, part.bytes ≠ []
  whole : c.bytes = [] → parts = [c]

/-- Chunks in order, each of them cut into parts. -/
inductive Cuts : List Chunk → List Chunk → Prop
  | nil : Cuts [] []
  | cons {c : Chunk} {parts chunks others : List Chunk} (first : c.CutInto parts) (rest : Cuts chunks others) :
      Cuts (c :: chunks) (parts ++ others)

theorem Chunk.CutInto.refl (c : Chunk) : c.CutInto [c] where
  join := List.append_nil _
  ends := by cases final : c.final <;> simp [Ends, final]
  filled := fun some => List.forall_mem_singleton.mpr some
  whole := fun _ => rfl

/-- The two sides of a cut within a chunk. -/
theorem Chunk.CutInto.of_lt {c : Chunk} {count : Nat} (some : 0 < count) (within : count < c.bytes.length) :
    c.CutInto [{ bytes := c.bytes.take count, final := false }, { c with bytes := c.bytes.drop count }] where
  join := by simp
  ends := by cases final : c.final <;> simp [Ends]
  filled _ part member := by
    rw [← List.length_pos_iff]
    obtain rfl | rfl : part = _ ∨ part = _ := by simpa using member
    · exact Nat.lt_of_lt_of_eq some (by simp; omega)
    · simpa using Nat.sub_pos_of_lt within
  whole none := by simp [none] at within

namespace Cuts
variable {chunks more parts others finer : List Chunk}

/-- A chunk may stay whole. -/
theorem keep (c : Chunk) (rest : Cuts chunks parts) : Cuts (c :: chunks) (c :: parts) := .cons (.refl c) rest

/-- A chunk may be cut in two. -/
theorem cut {c : Chunk} {count : Nat} (some : 0 < count) (within : count < c.bytes.length) (rest : Cuts chunks parts) :
    Cuts (c :: chunks)
      ({ bytes := c.bytes.take count, final := false } :: { c with bytes := c.bytes.drop count } :: parts) :=
  .cons (.of_lt some within) rest

theorem refl (chunks : List Chunk) : Cuts chunks chunks := by
  induction chunks with
  | nil => exact .nil
  | cons c rest ih => exact .keep c ih

theorem append (front : Cuts chunks parts) (back : Cuts more others) : Cuts (chunks ++ more) (parts ++ others) := by
  induction front with
  | nil => exact back
  | cons first _ ih =>
    rw [List.append_assoc]
    exact .cons first ih

/-- A cut of two stretches of chunks is a cut of the one and a cut of the other. -/
theorem split (cuts : Cuts (chunks ++ more) parts) :
    ∃ front back, parts = front ++ back ∧ Cuts chunks front ∧ Cuts more back := by
  induction chunks generalizing parts with
  | nil => exact ⟨[], parts, rfl, .nil, cuts⟩
  | cons c rest ih =>
    obtain _ | ⟨first, cuts⟩ := cuts
    obtain ⟨front, back, rfl, left, right⟩ := ih cuts
    exact ⟨_, back, (List.append_assoc ..).symm, .cons first left, right⟩

theorem join (cuts : Cuts chunks parts) : Chunk.join parts = Chunk.join chunks := by
  induction cuts with
  | nil => rfl
  | cons first _ ih => rw [Chunk.join_append, Chunk.join_cons, first.join, ih]

theorem ends (cuts : Cuts chunks parts) {ended : Bool} (whole : Ends ended (chunks.map (·.final))) :
    Ends ended (parts.map (·.final)) := by
  induction cuts with
  | nil => exact whole
  | @cons c parts chunks others first rest ih =>
    rw [List.map_append]
    cases final : c.final with
    | false => exact .append (final ▸ first.ends) (ih (by simpa [Ends, final] using whole))
    | true =>
      obtain ⟨rfl, nothing⟩ : ended = true ∧ chunks = [] := by simpa [Ends, final] using whole
      subst nothing
      cases rest
      simpa [final] using first.ends

theorem filled (cuts : Cuts chunks parts) (some : ∀ c ∈ chunks, c.bytes ≠ []) :
    ∀ part ∈ parts, part.bytes ≠ [] := by
  induction cuts with
  | nil => exact some
  | cons first _ ih =>
    obtain ⟨head, tail⟩ := List.forall_mem_cons.mp some
    exact List.forall_mem_append.mpr ⟨first.filled head, ih tail⟩

end Cuts

/-- Parts may be cut again. -/
theorem Chunk.CutInto.trans {c : Chunk} {parts finer : List Chunk} (coarse : c.CutInto parts)
    (fine : Cuts parts finer) : c.CutInto finer where
  join := fine.join.trans coarse.join
  ends := fine.ends coarse.ends
  filled some := fine.filled (coarse.filled some)
  whole none := by
    obtain rfl := coarse.whole none
    obtain _ | ⟨first, rest⟩ := fine
    cases rest
    rw [List.append_nil]
    exact first.whole none

theorem Cuts.trans {chunks parts finer : List Chunk} (coarse : Cuts chunks parts) (fine : Cuts parts finer) :
    Cuts chunks finer := by
  induction coarse generalizing finer with
  | nil => exact fine
  | cons first _ ih =>
    obtain ⟨front, back, rfl, left, right⟩ := fine.split
    exact .cons (first.trans left) (ih right)

namespace SendWindow

/-- A window lets go of chunks in order, and cuts at most the last one. -/
theorem cuts_release (w : SendWindow) (chunks : List Chunk) :
    Cuts chunks ((w.release chunks).released ++ (w.release chunks).waiting) := by
  fun_induction release w chunks with
  | case1 => exact .nil
  | case2 w c rest off r ih => exact .keep c ih
  | case3 w c rest on fits r ih => exact .keep c ih
  | case4 w c rest => exact .refl (c :: rest)
  | case5 w c rest on exceeds some =>
    exact .cut (Nat.pos_of_ne_zero some) (Nat.lt_of_not_le exceeds) (.refl rest)

/-- Without flow control nothing waits, and nothing is paid. -/
theorem release_of_disabled {w : SendWindow} (off : w.enabled = false) (chunks : List Chunk) :
    w.release chunks = { window := w, released := chunks, waiting := [] } := by
  induction chunks with
  | nil => rfl
  | cons c rest ih => rw [release, if_pos off, ih]

/-! ### What is left -/

/-- What is left of chunks when so many bytes have gone out: chunks that cost nothing more go with what is before
    them. -/
def remainder (count : Nat) : List Chunk → List Chunk
  | [] => []
  | c :: rest =>
    if c.bytes.length ≤ count then remainder (count - c.bytes.length) rest
    else { c with bytes := c.bytes.drop count } :: rest

@[simp] theorem remainder_nil (count : Nat) : remainder count [] = [] := rfl

theorem remainder_cons_of_le {c : Chunk} {count : Nat} (covered : c.bytes.length ≤ count) (rest : List Chunk) :
    remainder count (c :: rest) = remainder (count - c.bytes.length) rest := if_pos covered

theorem remainder_cons_of_lt {c : Chunk} {count : Nat} (exceeds : count < c.bytes.length) (rest : List Chunk) :
    remainder count (c :: rest) = { c with bytes := c.bytes.drop count } :: rest :=
  if_neg (Nat.not_le_of_lt exceeds)

/-- Nothing is left once everything is covered. -/
theorem remainder_of_le {count : Nat} {chunks : List Chunk} (covered : (Chunk.join chunks).length ≤ count) :
    remainder count chunks = [] := by
  induction chunks generalizing count with
  | nil => rfl
  | cons c rest ih =>
    rw [Chunk.join_cons, List.length_append] at covered
    rw [remainder_cons_of_le (by omega)]
    exact ih (by omega)

/-- What comes later is touched only when all that came before has gone out. -/
theorem remainder_append (count : Nat) (chunks more : List Chunk) :
    remainder count (chunks ++ more) =
      if (Chunk.join chunks).length ≤ count then remainder (count - (Chunk.join chunks).length) more
      else remainder count chunks ++ more := by
  induction chunks generalizing count with
  | nil => simp
  | cons c rest ih =>
    rw [List.cons_append, Chunk.join_cons, List.length_append]
    by_cases covered : c.bytes.length ≤ count
    · rw [remainder_cons_of_le covered, remainder_cons_of_le covered, ih]
      simp only [Nat.le_sub_iff_add_le' covered, Nat.sub_sub]
    · have exceeds := Nat.lt_of_not_le covered
      rw [remainder_cons_of_lt exceeds, remainder_cons_of_lt exceeds, if_neg (by omega), List.cons_append]

/-- To let go of some bytes now and some later is to let go of all of them. -/
theorem remainder_release (w : SendWindow) (chunks : List Chunk) (count : Nat) :
    remainder count (w.release chunks).waiting =
      remainder ((Chunk.join (w.release chunks).released).length + count) chunks := by
  have step (c : Chunk) (rest : List Chunk) (length : Nat) :
      remainder (c.bytes.length + length + count) (c :: rest) = remainder (length + count) rest := by
    rw [remainder_cons_of_le (by omega), Nat.add_assoc, Nat.add_sub_cancel_left]
  -- The cases are those of the release: the last one cuts a chunk, and the cut counts on both sides.
  fun_induction release w chunks with
  | case1 => simp
  | case2 w c rest off r ih => simpa [r, step] using ih
  | case3 w c rest on fits r ih => simpa [r, step] using ih
  | case4 => simp
  | case5 w c rest on exceeds some =>
    have out : (Chunk.join [{ bytes := c.bytes.take w.credit, final := false }]).length = w.credit := by
      simp only [Chunk.join_cons, Chunk.join_nil, List.append_nil, List.length_take]
      omega
    simp only [out, remainder, List.length_drop, List.drop_drop]
    by_cases covered : c.bytes.length - w.credit ≤ count
    · rw [if_pos covered, if_pos (by omega), Nat.sub_sub_right, Nat.add_comm]
      omega
    · rw [if_neg covered, if_neg (by omega), Nat.add_comm]

/-- What waits behind a window without credit is what waited. -/
theorem remainder_zero_release (w : SendWindow) (chunks : List Chunk) :
    remainder 0 (w.release chunks).waiting = (w.release chunks).waiting := by
  cases waits : (w.release chunks).waiting with
  | nil => rfl
  | cons c rest =>
    obtain ⟨-, -, some⟩ := waiting_release w chunks waits
    rw [remainder_cons_of_lt (List.length_pos_iff.mpr some)]
    rfl

/-! ### Histories -/

/-- What is done with a send window and the chunks that wait behind it. -/
inductive Step where
  | push (c : Chunk)
  | take
  | replenish (increment : Nat)

/-- A send window, what waits behind it, and all that has gone in and out. -/
structure Account where
  window : SendWindow
  waiting : List Chunk
  pushed : List Chunk
  released : List Chunk
  /-- The credit that was granted and not refused. -/
  accepted : Nat
  deriving DecidableEq

namespace Account

def start (initial : Nat) (enabled : Bool) : Account :=
  { window := .start initial enabled, waiting := [], pushed := [], released := [], accepted := 0 }

def push (s : Account) (c : Chunk) : Account := { s with waiting := s.waiting ++ [c], pushed := s.pushed ++ [c] }

def take (s : Account) : Account :=
  let r := s.window.release s.waiting
  { s with window := r.window, waiting := r.waiting, released := s.released ++ r.released }

def replenish (s : Account) (increment : Nat) : Account :=
  match s.window.grant increment with
  | .ok window => { s with window, accepted := s.accepted + increment }
  | .error _ => s

def step (s : Account) : Step → Account
  | .push c => s.push c
  | .take => s.take
  | .replenish increment => s.replenish increment

def run (s : Account) (steps : List Step) : Account := steps.foldl step s

/-- All credit that there was since the start. -/
def total (initial : Nat) (s : Account) : Nat := min initial maxWindow + s.accepted

@[simp] theorem take_pushed (s : Account) : s.take.pushed = s.pushed := rfl

@[simp] theorem take_total (s : Account) (initial : Nat) : s.take.total initial = s.total initial := rfl

theorem replenish_of_le {s : Account} {increment : Nat} (fits : s.window.credit + increment ≤ maxWindow) :
    s.replenish increment =
      { s with window := { s.window with credit := s.window.credit + increment },
               accepted := s.accepted + increment } := by
  rw [replenish, grant, if_pos fits]

theorem replenish_of_refused {s : Account} {increment : Nat} (exceeds : ¬ s.window.credit + increment ≤ maxWindow) :
    s.replenish increment = s := by
  rw [replenish, grant, if_neg exceeds]

/-- The accounts of a window: nothing is lost, every byte that went out was paid for once, and what more credit
    would leave over of what waits is what all of the credit leaves over of all chunks. -/
structure Balanced (initial : Nat) (enabled : Bool) (s : Account) : Prop where
  enabled_eq : s.window.enabled = enabled
  credit_le : s.window.credit ≤ maxWindow
  cuts : Cuts s.pushed (s.released ++ s.waiting)
  paid : enabled = true → s.total initial = s.window.credit + (Chunk.join s.released).length
  unpaid : enabled = false → s.total initial = s.window.credit
  left : ∀ count, remainder count s.waiting = remainder ((Chunk.join s.released).length + count) s.pushed

namespace Balanced
variable {initial : Nat} {enabled : Bool} {s t : Account}

theorem start (initial : Nat) (enabled : Bool) : (Account.start initial enabled).Balanced initial enabled where
  enabled_eq := rfl
  credit_le := Nat.min_le_right ..
  cuts := .nil
  paid _ := rfl
  unpaid _ := rfl
  left _ := rfl

theorem join (balanced : s.Balanced initial enabled) :
    Chunk.join s.released ++ Chunk.join s.waiting = Chunk.join s.pushed := by
  rw [← Chunk.join_append, balanced.cuts.join]

theorem length (balanced : s.Balanced initial enabled) :
    (Chunk.join s.released).length + (Chunk.join s.waiting).length = (Chunk.join s.pushed).length := by
  rw [← List.length_append, balanced.join]

theorem push (balanced : s.Balanced initial enabled) (c : Chunk) : (s.push c).Balanced initial enabled where
  enabled_eq := balanced.enabled_eq
  credit_le := balanced.credit_le
  cuts := by
    rw [Account.push, ← List.append_assoc]
    exact balanced.cuts.append (.refl [c])
  paid := balanced.paid
  unpaid := balanced.unpaid
  left count := by
    simp only [Account.push, remainder_append, balanced.left, ← balanced.length, Nat.add_le_add_iff_left,
      Nat.add_sub_add_left]

theorem take (balanced : s.Balanced initial enabled) : s.take.Balanced initial enabled where
  enabled_eq := (enabled_release ..).trans balanced.enabled_eq
  credit_le := Nat.le_trans (credit_release_le ..) balanced.credit_le
  cuts := by
    rw [Account.take, List.append_assoc]
    exact balanced.cuts.trans (.append (.refl _) (cuts_release ..))
  paid on := by
    have before := balanced.paid on
    have spent := credit_release s.window s.waiting (balanced.enabled_eq.trans on)
    simp only [Account.take, total, Chunk.join_append, List.length_append] at before ⊢
    omega
  unpaid off := by
    rw [Account.take, release_of_disabled (balanced.enabled_eq.trans off)]
    exact balanced.unpaid off
  left count := by
    simp only [Account.take, remainder_release, Chunk.join_append, List.length_append, balanced.left, Nat.add_assoc]

theorem replenish (balanced : s.Balanced initial enabled) (increment : Nat) :
    (s.replenish increment).Balanced initial enabled := by
  by_cases fits : s.window.credit + increment ≤ maxWindow
  · rw [replenish_of_le fits]
    refine ⟨balanced.enabled_eq, fits, balanced.cuts, fun on => ?_, fun off => ?_, balanced.left⟩
    · have before := balanced.paid on
      simp only [total] at before ⊢
      omega
    · have before := balanced.unpaid off
      simp only [total] at before ⊢
      omega
  · rw [replenish_of_refused fits]
    exact balanced

theorem step (balanced : s.Balanced initial enabled) : (step : Step) → (s.step step).Balanced initial enabled
  | .push c => balanced.push c
  | .take => balanced.take
  | .replenish increment => balanced.replenish increment

theorem run (balanced : s.Balanced initial enabled) (steps : List Step) :
    (s.run steps).Balanced initial enabled := by
  induction steps generalizing s with
  | nil => exact balanced
  | cons step rest ih => exact ih (balanced.step step)

/-- Once the window has let go of what it can, all of the credit has gone to the front of what was pushed. -/
theorem waiting_take (balanced : s.Balanced initial true) :
    s.take.waiting = remainder (s.total initial) s.pushed := by
  have after := balanced.take
  have paid := after.paid rfl
  rw [take_total] at paid
  -- Something waits only when the credit is spent, so the credit reaches just up to it.
  cases waits : s.take.waiting with
  | nil =>
    have all : (Chunk.join s.take.released).length = (Chunk.join s.pushed).length := by simpa [waits] using after.length
    exact (remainder_of_le (by omega)).symm
  | cons c rest =>
    obtain ⟨-, spent, -⟩ : _ ∧ s.take.window.credit = 0 ∧ _ := waiting_release _ _ waits
    have same : remainder 0 s.take.waiting = s.take.waiting := remainder_zero_release ..
    rw [← waits, ← same, after.left 0, paid, spent, Nat.add_zero, Nat.zero_add, take_pushed]

theorem waiting_take_of_disabled (balanced : s.Balanced initial false) : s.take.waiting = [] := by
  rw [Account.take, release_of_disabled balanced.enabled_eq]

/-- After a take, what went out, what waits and what credit there is follow from what was pushed and from all credit
    that there was. -/
theorem take_unique (first : s.Balanced initial enabled) (second : t.Balanced initial enabled)
    (pushed : t.pushed = s.pushed) (total : t.total initial = s.total initial) :
    Chunk.join t.take.released = Chunk.join s.take.released ∧ t.take.waiting = s.take.waiting ∧
      t.take.window = s.take.window := by
  -- What waits comes first: it follows from the credit alone, and what went out is then the rest.
  have waiting : t.take.waiting = s.take.waiting := by
    cases enabled with
    | true => rw [second.waiting_take, first.waiting_take, total, pushed]
    | false => rw [second.waiting_take_of_disabled, first.waiting_take_of_disabled]
  have released : Chunk.join t.take.released = Chunk.join s.take.released := by
    rw [← List.append_left_inj (Chunk.join s.take.waiting), first.take.join, ← waiting, second.take.join]
    exact congrArg Chunk.join pushed
  have credit : t.take.window.credit = s.take.window.credit := by
    cases enabled with
    | true =>
      have paid := first.take.paid rfl
      have others := second.take.paid rfl
      rw [released, take_total, total, ← take_total, paid] at others
      omega
    | false => rw [← first.take.unpaid rfl, ← second.take.unpaid rfl, take_total, take_total, total]
  refine ⟨released, waiting, ?_⟩
  rw [SendWindow.mk.injEq]
  exact ⟨credit, second.take.enabled_eq.trans first.take.enabled_eq.symm⟩

end Balanced

/-- Whatever is done with a send window, what has gone out and what waits is what was pushed, in order: each chunk
    in parts that are not empty unless it is, with the end of a message on its last part. With flow control, the
    credit at the start and all that was accepted since is what the window has and what has gone out, the window is
    never larger than a window may be, and after a take something waits only if it costs something and the window
    has no credit. A grant that is refused changes nothing. What a take leaves does not depend on how the credit
    came in. -/
theorem account_balanced (initial : Nat) (enabled : Bool) (steps : List Step) :
    let s := (start initial enabled).run steps
    Chunk.join s.released ++ Chunk.join s.waiting = Chunk.join s.pushed ∧
      Cuts s.pushed (s.released ++ s.waiting) ∧
      (enabled = true →
        min initial maxWindow + s.accepted = s.window.credit + (Chunk.join s.released).length ∧
          s.window.credit ≤ maxWindow ∧
          ∀ c rest, s.take.waiting = c :: rest → c.bytes ≠ [] ∧ s.take.window.credit = 0) ∧
      (∀ increment error, s.window.grant increment = .error error →
        maxWindow < s.window.credit + increment ∧ s.replenish increment = s) ∧
      ∀ others, let t := (start initial enabled).run others
        t.pushed = s.pushed → t.accepted = s.accepted →
          Chunk.join t.take.released = Chunk.join s.take.released ∧ t.take.waiting = s.take.waiting ∧
            t.take.window = s.take.window := by
  intro s
  have balanced : s.Balanced initial enabled := (Balanced.start initial enabled).run steps
  refine ⟨balanced.join, balanced.cuts, fun on => ⟨balanced.paid on, balanced.credit_le, ?_⟩, ?_, ?_⟩
  · intro c rest waits
    obtain ⟨-, spent, some⟩ := waiting_release _ _ waits
    exact ⟨some, spent⟩
  · intro increment error refused
    have exceeds : ¬ s.window.credit + increment ≤ maxWindow := by
      intro fits
      rw [grant, if_pos fits] at refused
      cases refused
    exact ⟨Nat.lt_of_not_le exceeds, replenish_of_refused exceeds⟩
  · intro others t pushed accepted
    -- Equal credit in total and equal chunks leave the release no choice.
    have total : t.total initial = s.total initial := congrArg (min initial maxWindow + ·) accepted
    exact balanced.take_unique ((Balanced.start initial enabled).run others) pushed total

/-- Credit for five bytes comes in three parts, which cuts a chunk twice, or in two, which does not cut it. The
    empty chunk that ends the message waits for the one before it, and costs nothing. -/
theorem account_balanced_split :
    let message : List Step :=
      [.push { bytes := [1, 2, 3, 4, 5], final := false }, .push { bytes := [], final := true }]
    let s := (start 2 true).run (message ++ [.take, .replenish 1, .take, .replenish 2])
    let t := (start 2 true).run (.replenish 3 :: message)
    s.take.released.map (·.bytes) = [[1, 2], [3], [4, 5], []] ∧
      t.take.released.map (·.bytes) = [[1, 2, 3, 4, 5], []] ∧
      Chunk.join t.take.released = Chunk.join s.take.released ∧ t.take.window = s.take.window ∧
      2 + s.accepted = s.window.credit + (Chunk.join s.released).length ∧ s.replenish maxWindow = s := by
  intro message s t
  obtain ⟨-, -, paid, refused, confluent⟩ :=
    account_balanced 2 true (message ++ [.take, .replenish 1, .take, .replenish 2])
  obtain ⟨released, -, window⟩ := confluent (.replenish 3 :: message) (by decide +kernel) (by decide +kernel)
  obtain ⟨-, same⟩ := refused maxWindow (.windowOverflow s.window.credit maxWindow) (if_neg (by decide +kernel))
  exact ⟨by decide +kernel, by decide +kernel, released, window, (paid rfl).1, same⟩

end Account

end SendWindow

end Multiplex
