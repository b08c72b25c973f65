import Multiplex.Proofs.Frame.BlockLimit

/-! # What a decoder retains

Each byte that a decoder is fed goes into the preface, into one wire frame that is read, or into the buffer, once and in
order (`Decoder.Accounts`). What waits in the buffer is less than a header and the longest payload that is read, so that
no peer can make a decoder grow, whatever it sends and whenever the limit is changed (`retained_bounded`). -/

namespace Multiplex

/-- A buffer without a header at its front is shorter than one. -/
theorem WireHeader.length_of_parse?_none {buffer : Bytes} (none : parse? buffer = none) : buffer.length < size := by
  match buffer, none with
  | [], _ | [_], _ | [_, _], _ | [_, _, _], _ | [_, _, _, _], _ | [_, _, _, _, _], _ | [_, _, _, _, _, _], _
  | [_, _, _, _, _, _, _], _ | [_, _, _, _, _, _, _, _], _ => simp [size]

namespace Frame

/-! ### Wire frames of the input -/

/-- `wire` is one wire frame: a header, and as much payload as it tells of. -/
structure Framed (wire : Bytes) (h : WireHeader) (payload : Bytes) : Prop where
  header : WireHeader.parse? wire = some h
  whole : wire.length = h.total
  behind : wire.drop WireHeader.size = payload

/-- The wire frames `wires` are read in order, the first of them while `pending` is open: they give `frames` and leave
    `left` open. -/
inductive Parses : Option OpenBlock → List Bytes → List Frame → Option OpenBlock → Prop
  | nil (pending : Option OpenBlock) : Parses pending [] [] pending
  | cons {pending next left : Option OpenBlock} {wire payload : Bytes} {h : WireHeader} {frame : Option Frame}
      {wires : List Bytes} {frames : List Frame} (framed : Framed wire h payload)
      (went : read pending h payload = .ok (next, frame)) (rest : Parses next wires frames left) :
      Parses pending (wire :: wires) (frame.toList ++ frames) left

/-- Why `rest` cannot be read while `pending` is open: the wire frame at its front is too long, even if it has not
    arrived in full, or it may not come there. -/
inductive Stops (limit : Nat) (pending : Option OpenBlock) : Bytes → DecodeError → Prop
  | oversized {rest : Bytes} {h : WireHeader} (header : WireHeader.parse? rest = some h) (large : limit < h.length) :
      Stops limit pending rest (.frameTooLarge h.length limit)
  | refused {wire payload : Bytes} {h : WireHeader} {failure : DecodeError} (framed : Framed wire h payload)
      (refused : read pending h payload = .error failure) (more : Bytes) : Stops limit pending (wire ++ more) failure

theorem Parses.append {first second third : Option OpenBlock} {wires others : List Bytes} {frames more : List Frame}
    (front : Parses first wires frames second) (back : Parses second others more third) :
    Parses first (wires ++ others) (frames ++ more) third := by
  induction front with
  | nil => exact back
  | cons framed went _ ih =>
    rw [List.append_assoc]
    exact .cons framed went (ih back)

/-- A header that is there in full is found, and what comes behind it does not matter. -/
theorem parse?_take {buffer : Bytes} {h : WireHeader} (found : WireHeader.parse? buffer = some h) {count : Nat}
    (enough : WireHeader.size ≤ count) : WireHeader.parse? (buffer.take count) = some h := by
  have size := WireHeader.size_le_of_parse? found
  cases parsed : WireHeader.parse? (buffer.take count) with
  | none =>
    have short := WireHeader.length_of_parse?_none parsed
    rw [List.length_take] at short
    omega
  | some h' =>
    have whole := parse?_append parsed (buffer.drop count)
    rw [List.take_append_drop, found] at whole
    exact whole.symm

/-- A buffer that is cut is a wire frame and the rest behind it. -/
theorem framed_of_cut {limit : Nat} {buffer payload rest : Bytes} {h : WireHeader}
    (found : cut limit buffer = .whole h payload rest) : ∃ wire, buffer = wire ++ rest ∧ Framed wire h payload := by
  unfold cut at found
  split at found
  · cases found
  next parsed =>
  split at found
  · cases found
  dsimp only at found
  split at found <;> cases found
  next arrived =>
  have size := WireHeader.size_le_of_parse? parsed
  refine ⟨buffer.take h.total, ?_, parse?_take parsed (Nat.le_add_right ..), ?_, ?_⟩
  · rw [List.drop_drop, ← WireHeader.total, List.take_append_drop]
  · rw [List.length_take, List.length_drop] at arrived
    rw [List.length_take, WireHeader.total]
    omega
  · rw [List.drop_take, WireHeader.total, Nat.add_sub_cancel_left]

theorem stops_of_oversized {limit length : Nat} {buffer : Bytes} (found : cut limit buffer = .oversized length)
    (pending : Option OpenBlock) : Stops limit pending buffer (.frameTooLarge length limit) := by
  unfold cut at found
  split at found
  · cases found
  next parsed =>
  split at found
  · next large =>
    cases found
    exact .oversized parsed large
  · dsimp only at found
    split at found <;> cases found

/-- What waits for the rest of a wire frame is shorter than the longest wire frame. -/
theorem length_of_cut_short {limit : Nat} {buffer : Bytes} (short : cut limit buffer = .short) :
    buffer.length < WireHeader.size + limit := by
  unfold cut at short
  split at short
  · next none =>
    have := WireHeader.length_of_parse?_none none
    omega
  split at short
  · cases short
  dsimp only at short
  split at short
  · next missing =>
    rw [List.length_take, List.length_drop] at missing
    omega
  · cases short

/-! ### Scans -/

/-- What becomes of `rest`, which comes behind the wire frames that were read, and of the block `left` that they leave
    open: both are kept, or the reading has ended there, and nothing is. -/
inductive Leaves (limit : Nat) (left : Option OpenBlock) (rest : Bytes) :
    Option OpenBlock → Bytes → Option DecodeError → Prop
  | waits (short : rest.length < WireHeader.size + limit) : Leaves limit left rest left rest none
  | ended {failure : DecodeError} (stops : Stops limit left rest failure) : Leaves limit left rest none [] (some failure)

section Leaves
variable {limit : Nat} {left pending : Option OpenBlock} {rest buffer : Bytes} {failure : Option DecodeError}

theorem Leaves.short (leaves : Leaves limit left rest pending buffer failure) :
    buffer.length < WireHeader.size + limit := by
  cases leaves with
  | waits short => exact short
  | ended => exact Nat.lt_of_lt_of_le (show 0 < WireHeader.size by decide) (Nat.le_add_right ..)

theorem Leaves.kept (leaves : Leaves limit left rest pending buffer failure) (going : failure = none) :
    left = pending ∧ rest = buffer := by
  cases leaves with
  | waits => exact ⟨rfl, rfl⟩
  | ended => cases going

theorem Leaves.nothing (leaves : Leaves limit left rest pending buffer failure) (failed : failure ≠ none) :
    pending = none ∧ buffer = [] := by
  cases leaves with
  | waits => exact absurd rfl failed
  | ended => exact ⟨rfl, rfl⟩

theorem Leaves.stops {e : DecodeError} (leaves : Leaves limit left rest pending buffer failure)
    (failed : failure = some e) : Stops limit left rest e := by
  cases leaves with
  | waits => cases failed
  | ended stops => exact Option.some.inj failed ▸ stops

end Leaves

/-- A scan reads the wire frames at the front of a buffer, up to where it has to wait or to end. -/
theorem parses_scan (limit : Nat) (pending : Option OpenBlock) (buffer : Bytes) (done : List Frame) :
    ∃ wires rest frames left, buffer = wires.flatten ++ rest ∧ Parses pending wires frames left ∧
      (scan limit pending buffer done).frames = done.reverse ++ frames ∧
      Leaves limit left rest (scan limit pending buffer done).pending (scan limit pending buffer done).buffer
        (scan limit pending buffer done).failure := by
  -- The scan waits, meets a frame that is too large or refused, or reads one and goes on.
  fun_induction scan limit pending buffer done with
  | case1 pending buffer done found =>
    exact ⟨[], buffer, [], pending, rfl, .nil pending, (List.append_nil _).symm, .waits (length_of_cut_short found)⟩
  | case2 pending buffer done length found =>
    exact ⟨[], buffer, [], pending, rfl, .nil pending, (List.append_nil _).symm, .ended (stops_of_oversized found pending)⟩
  | case3 pending buffer done h payload rest found failure refused =>
    obtain ⟨wire, rfl, framed⟩ := framed_of_cut found
    exact ⟨[], wire ++ rest, [], pending, rfl, .nil pending, (List.append_nil _).symm, .ended (.refused framed refused rest)⟩
  | case4 pending buffer done h payload rest found next frame went ih =>
    obtain ⟨wire, rfl, framed⟩ := framed_of_cut found
    obtain ⟨wires, left, frames, last, rfl, parses, given, leaves⟩ := ih
    refine ⟨wire :: wires, left, frame.toList ++ frames, last, ?_, .cons framed went parses, ?_, leaves⟩
    · rw [List.flatten_cons, List.append_assoc]
    · rw [given, List.reverse_append, List.append_assoc]
      cases frame <;> rfl

/-! ### The opening -/

/-- What was taken off the front of the input. -/
def Opening.taken : Opening → Bytes
  | .preface => Frame.preface
  | .undecided | .frames => []

theorem taken_skipPreface (buffer : Bytes) : (skipPreface buffer).1.taken ++ (skipPreface buffer).2 = buffer := by
  unfold skipPreface
  split
  · next opened => exact List.prefix_iff_eq_append.mp (List.isPrefixOf_iff_prefix.mp opened)
  · split <;> rfl

/-- Input that may still become the preface is shorter than that. -/
theorem length_of_undecided {buffer : Bytes} (undecided : (skipPreface buffer).1 = .undecided) :
    buffer.length < preface.length := by
  unfold skipPreface at undecided
  split at undecided
  · cases undecided
  next other =>
  split at undecided
  · next early =>
    obtain ⟨more, same⟩ := List.isPrefixOf_iff_prefix.mp early
    rw [← same, List.length_append]
    refine Nat.lt_add_of_pos_right (List.length_pos_iff.mpr fun nothing => other ?_)
    have whole : preface = buffer := by rw [← same, nothing, List.append_nil]
    exact List.isPrefixOf_iff_prefix.mpr (whole ▸ List.prefix_refl preface)
  · cases undecided

namespace Decoder

variable {d : Decoder}

section Accounts
variable {limit : Nat} {input : Bytes} {frames : List Frame}

/-- Each byte of `input` went into the preface, into one of the wire frames that gave `frames`, or into what the decoder
    keeps, or it came where the reading ended. -/
def Accounts (limit : Nat) (input : Bytes) (frames : List Frame) (d : Decoder) : Prop :=
  ∃ wires rest left, input = d.opening.taken ++ wires.flatten ++ rest ∧ Parses none wires frames left ∧
    (d.opening = .undecided → wires = []) ∧ Leaves limit left rest d.pending d.buffer d.failure

/-- The preface may come before all wire frames, and nowhere else. -/
theorem taken_opened {wires : List Bytes} (early : d.opening = .undecided → wires = []) (buffer : Bytes) :
    d.opening.taken ++ wires.flatten ++ buffer = (d.opened buffer).1.taken ++ wires.flatten ++ (d.opened buffer).2 := by
  by_cases first : d.opening = .undecided
  · rw [early first, first, opened, if_pos first]
    simpa [Opening.taken] using (taken_skipPreface buffer).symm
  · rw [opened, if_neg first]

theorem Accounts.feed (accounts : d.Accounts limit input frames) (going : d.failure = none)
    (least : leastLimit ≤ d.limit) (bytes : Bytes) :
    (d.feed bytes).1.Accounts d.limit (input ++ bytes) (frames ++ (d.feed bytes).2) := by
  obtain ⟨wires, rest, left, rfl, parses, early, leaves⟩ := accounts
  obtain ⟨rfl, rfl⟩ := leaves.kept going
  -- As long as the opening is undecided nothing has been read, and all of the input is kept.
  by_cases undecided : (d.opened (d.buffer ++ bytes)).1 = .undecided
  · obtain ⟨first, -⟩ := opened_undecided undecided
    rw [opened, if_pos first] at undecided
    have short := length_of_undecided undecided
    have size : preface.length = 24 := by decide +kernel
    rw [feed_of_undecided going (by rwa [opened, if_pos first]), List.append_nil]
    refine ⟨wires, d.buffer ++ bytes, d.pending, List.append_assoc .., parses, early, ?_⟩
    dsimp only
    rw [going]
    refine .waits ?_
    unfold leastLimit at least
    omega
  · obtain ⟨others, rest, more, left, whole, later, given, leaves⟩ :=
      parses_scan d.limit d.pending (d.opened (d.buffer ++ bytes)).2 []
    rw [feed_of_decided going undecided]
    refine ⟨wires ++ others, rest, left, ?_, ?_, fun same => absurd same undecided, leaves⟩
    · rw [List.append_assoc, taken_opened early, whole, List.flatten_append]
      simp only [List.append_assoc]
    · dsimp only
      rw [given]
      exact parses.append later

theorem accounts_start (limit : Nat) : (start limit).Accounts leastLimit [] [] :=
  ⟨[], [], none, rfl, .nil none, fun _ => rfl, .waits (by decide)⟩

/-- A limit counts for the input that comes after it. -/
theorem Accounts.setLimit (accounts : d.Accounts limit input frames) (next : Nat) :
    (d.setLimit next).Accounts limit input frames := accounts

theorem Accounts.short (accounts : d.Accounts limit input frames) : d.buffer.length < WireHeader.size + limit := by
  obtain ⟨wires, rest, left, -, -, -, leaves⟩ := accounts
  exact leaves.short

/-- A decoder that has failed keeps nothing. -/
theorem Accounts.nothing (accounts : d.Accounts limit input frames) (failed : d.failure ≠ none) :
    d.pending = none ∧ d.buffer = [] := by
  obtain ⟨wires, rest, left, -, -, -, leaves⟩ := accounts
  exact leaves.nothing failed

/-- As long as a decoder has not failed, what it has not read is what it keeps. -/
theorem Accounts.kept (accounts : d.Accounts limit input frames) (going : d.failure = none) :
    ∃ wires, input = d.opening.taken ++ wires.flatten ++ d.buffer ∧ Parses none wires frames d.pending := by
  obtain ⟨wires, rest, left, whole, parses, -, leaves⟩ := accounts
  obtain ⟨rfl, rfl⟩ := leaves.kept going
  exact ⟨wires, whole, parses⟩

/-- A decoder that has failed has read all wire frames up to the one that it could not read. -/
theorem Accounts.stops (accounts : d.Accounts limit input frames) {failure : DecodeError}
    (failed : d.failure = some failure) :
    ∃ wires rest left, input = d.opening.taken ++ wires.flatten ++ rest ∧ Parses none wires frames left ∧
      Stops limit left rest failure := by
  obtain ⟨wires, rest, left, whole, parses, -, leaves⟩ := accounts
  exact ⟨wires, rest, left, whole, parses, leaves.stops failed⟩

end Accounts

/-! ### Calls -/

/-- A call on a decoder. -/
inductive Call where
  | feed (bytes : Bytes)
  | setLimit (limit : Nat)

/-- The input that calls bring. -/
def Call.input (calls : List Call) : Bytes :=
  calls.flatMap fun
    | .feed bytes => bytes
    | .setLimit _ => []

def call (d : Decoder) : Call → Decoder × List Frame
  | .feed bytes => d.feed bytes
  | .setLimit limit => (d.setLimit limit, [])

/-- Takes calls in order. -/
def run (d : Decoder) : List Call → Decoder × List Frame
  | [] => (d, [])
  | c :: rest =>
    let (d, front) := d.call c
    let (d, back) := d.run rest
    (d, front ++ back)

theorem run_cons (d : Decoder) (c : Call) (rest : List Call) :
    d.run (c :: rest) = (((d.call c).1.run rest).1, (d.call c).2 ++ ((d.call c).1.run rest).2) := rfl

theorem Used.run (used : d.Used) (calls : List Call) : (d.run calls).1.Used := by
  induction calls generalizing d with
  | nil => exact used
  | cons c rest ih =>
    cases c with
    | feed bytes => exact ih (used.feed bytes)
    | setLimit limit => exact ih (used.setLimit limit)

theorem Used.least (used : d.Used) : leastLimit ≤ d.limit := by
  induction used with
  | start | setLimit =>
    refine Nat.le_min.mpr ⟨Nat.le_max_right .., ?_⟩
    decide
  | feed _ bytes ih => rwa [limit_feed]

/-- Nothing makes a decoder that has failed read again. -/
theorem run_of_failed (failed : d.failure ≠ none) (calls : List Call) :
    ∃ limit, d.run calls = ({ d with limit }, []) := by
  induction calls generalizing d with
  | nil => exact ⟨d.limit, rfl⟩
  | cons c rest ih =>
    rw [run_cons]
    cases c with
    | feed bytes =>
      obtain ⟨limit, same⟩ := ih failed
      rw [call, feed_of_failed (Option.isSome_iff_ne_none.mpr failed)]
      exact ⟨limit, by rw [same, List.nil_append]⟩
    | setLimit limit =>
      obtain ⟨last, same⟩ := ih (d := d.setLimit limit) failed
      exact ⟨last, by rw [call, same, List.nil_append]; rfl⟩

/-- As long as a decoder has not failed it accounts for all its input, and from then on it keeps nothing. -/
theorem Accounts.run {limit : Nat} {input : Bytes} {frames : List Frame} (accounts : d.Accounts limit input frames)
    (legal : limit ≤ greatestLimit) (used : d.Used) (calls : List Call) :
    ((d.run calls).1.failure = none →
        ∃ limit ≤ greatestLimit,
          (d.run calls).1.Accounts limit (input ++ Call.input calls) (frames ++ (d.run calls).2)) ∧
      ((d.run calls).1.failure ≠ none → (d.run calls).1.pending = none ∧ (d.run calls).1.buffer = []) := by
  induction calls generalizing d limit input frames with
  | nil =>
    refine ⟨fun _ => ⟨limit, legal, ?_⟩, accounts.nothing⟩
    rwa [Call.input, List.flatMap_nil, List.append_nil, Decoder.run, List.append_nil]
  | cons c rest ih =>
    -- A decoder that has failed stays so through the rest of the calls.
    by_cases going : d.failure = none
    · have later : Call.input (c :: rest) = Call.input [c] ++ Call.input rest := by simp [Call.input]
      have next : (d.call c).1.Used ∧
          ∃ limit ≤ greatestLimit,
            (d.call c).1.Accounts limit (input ++ Call.input [c]) (frames ++ (d.call c).2) := by
        cases c with
        | feed bytes =>
          refine ⟨used.feed bytes, d.limit, used.limit_le, ?_⟩
          simpa [Call.input, call] using accounts.feed going used.least bytes
        | setLimit last =>
          refine ⟨used.setLimit last, limit, legal, ?_⟩
          simpa [Call.input, call] using accounts.setLimit last
      obtain ⟨used, limit, legal, accounts⟩ := next
      rw [run_cons, later, ← List.append_assoc, ← List.append_assoc]
      exact ih accounts legal used
    · obtain ⟨last, same⟩ := run_of_failed going (c :: rest)
      rw [same]
      exact ⟨fun still => absurd still going, fun _ => accounts.nothing going⟩

end Decoder

/-- A decoder may be fed any bytes in any pieces, and its limit may be changed at any time. After each piece it keeps
    less than a header and the longest payload that it reads then, at no time more than with the greatest limit, and it
    holds no more open than the limit on blocks. As long as it has not failed, its input is the preface, if that came,
    the wire frames that it has read, and what it keeps. The piece on which it fails brings it to a wire frame that
    cannot be read, right behind those that gave all its frames. From then on it keeps nothing, gives nothing, and
    stays as it is, whatever it is fed. -/
theorem retained_bounded (limit : Nat) (calls : List Decoder.Call) :
    let d := ((Decoder.start limit).run calls).1
    let frames := ((Decoder.start limit).run calls).2
    (∀ b ∈ d.pending, b.block.length ≤ OpenBlock.limit) ∧
      (∀ bytes, (d.feed bytes).1.buffer.length < WireHeader.size + (d.feed bytes).1.limit) ∧
      d.buffer.length < WireHeader.size + Decoder.greatestLimit ∧
      (d.failure = none →
        (∃ wires, Decoder.Call.input calls = d.opening.taken ++ wires.flatten ++ d.buffer ∧
          Parses none wires frames d.pending) ∧
        ∀ bytes failure, (d.feed bytes).1.failure = some failure →
          ∃ wires rest left,
            Decoder.Call.input calls ++ bytes = (d.feed bytes).1.opening.taken ++ wires.flatten ++ rest ∧
              Parses none wires (frames ++ (d.feed bytes).2) left ∧ Stops d.limit left rest failure) ∧
      (d.failure ≠ none →
        d.buffer = [] ∧ d.pending = none ∧ ∀ more, ∃ limit, d.run more = ({ d with limit }, [])) := by
  intro d frames
  have used : d.Used := (Decoder.Used.start limit).run calls
  obtain ⟨accounts, nothing⟩ := (Decoder.accounts_start limit).run (by decide) (.start limit) calls
  have some (limit : Nat) : 0 < WireHeader.size + limit := Nat.lt_of_lt_of_le (by decide) (Nat.le_add_right ..)
  refine ⟨used.pending_le, fun bytes => ?piece, ?always, fun going => ?going, fun failed => ?failed⟩
  -- A decoder that has failed keeps nothing, so each bound is one for a decoder that goes on.
  case piece =>
    rw [Decoder.limit_feed]
    by_cases going : d.failure = none
    · obtain ⟨last, -, accounts⟩ := accounts going
      exact (accounts.feed going used.least bytes).short
    · rw [Decoder.feed_of_failed (Option.isSome_iff_ne_none.mpr going), (nothing going).2]
      exact some _
  case always =>
    by_cases going : d.failure = none
    · obtain ⟨last, legal, accounts⟩ := accounts going
      exact Nat.lt_of_lt_of_le accounts.short (Nat.add_le_add_left legal _)
    · rw [(nothing going).2]
      exact some _
  case going =>
    obtain ⟨last, -, accounts⟩ := accounts going
    exact ⟨accounts.kept going, fun bytes failure failed => (accounts.feed going used.least bytes).stops failed⟩
  case failed =>
    obtain ⟨closed, empty⟩ := nothing failed
    exact ⟨empty, closed, Decoder.run_of_failed failed⟩

/-- The preface and a PING have come, and the header of a frame of 20000 bytes. Then the limit is lowered, and the next
    piece, even without any bytes, brings the decoder to an end at that header. -/
theorem retained_bounded_lowered :
    let ping := Frame.ping false (Vector.replicate 8 7)
    let header := WireHeader.bytes { length := 20000, kind := 0, flags := 0, stream := 1 }
    let calls : List Decoder.Call := [.setLimit 20000, .feed (preface ++ ping.encode 0 ++ header), .setLimit 0]
    let d := ((Decoder.start 0).run calls).1
    let e := ((Decoder.start 0).run (calls ++ [.feed []])).1
    d.failure = none ∧ d.buffer = header ∧ d.limit = 16384 ∧
      (∃ wires, Decoder.Call.input calls = preface ++ wires.flatten ++ header ∧ Parses none wires [ping] none) ∧
      (∃ wires rest left, Decoder.Call.input calls = preface ++ wires.flatten ++ rest ∧
        Parses none wires [ping] left ∧ Stops 16384 left rest (.frameTooLarge 20000 16384)) ∧
      e.failure = some (.frameTooLarge 20000 16384) ∧ e.buffer = [] ∧
      ∀ more, ∃ limit, e.run more = ({ e with limit }, []) := by
  intro ping header calls d e
  obtain ⟨-, -, -, going, -⟩ := retained_bounded 0 calls
  obtain ⟨-, -, -, -, failed⟩ := retained_bounded 0 (calls ++ [.feed []])
  have still : d.failure = none := by decide +kernel
  have waits : d.buffer = header := by decide +kernel
  have closed : d.pending = none := by decide +kernel
  have opened : d.opening = .preface := by decide +kernel
  have limit : d.limit = 16384 := by decide +kernel
  have frames : ((Decoder.start 0).run calls).2 = [ping] := by decide +kernel
  have opened' : (d.feed []).1.opening = .preface := by decide +kernel
  have more : (d.feed []).2 = [] := by decide +kernel
  have stopped : (d.feed []).1.failure = some (.frameTooLarge 20000 16384) := by decide +kernel
  have ended : e.failure = some (.frameTooLarge 20000 16384) := by decide +kernel
  obtain ⟨kept, stops⟩ := going still
  have stops := stops [] (.frameTooLarge 20000 16384) stopped
  obtain ⟨empty, -, stays⟩ := failed (Option.ne_none_iff_exists'.mpr ⟨_, ended⟩)
  rw [frames, waits, closed, opened] at kept
  rw [frames, more, opened', limit, List.append_nil, List.append_nil] at stops
  exact ⟨still, waits, limit, kept, stops, ended, empty, stays⟩

end Frame

end Multiplex
