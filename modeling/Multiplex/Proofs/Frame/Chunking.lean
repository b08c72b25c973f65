import Multiplex.Frame.Reader

/-! # Input in pieces

A decoder that gets its input in pieces ends in the same state, and gives the same frames, as one that
gets all of it at once: wherever the input is cut, what the decoder keeps between two pieces is what it
needs to go on. The buffer is the only place where a cut shows, so everything follows from what a longer
buffer does to cutting off a wire frame (`cut_append`), to a scan (`scan_append`), and to looking for the
preface (`skipPreface_append`). -/

namespace Multiplex.Frame

/-! ### Longer buffers -/

theorem parse?_append {buffer : Bytes} {h : WireHeader} (found : WireHeader.parse? buffer = some h)
    (more : Bytes) : WireHeader.parse? (buffer ++ more) = some h := by
  unfold WireHeader.parse? at found
  split at found
  · rw [← found]
    rfl
  · cases found

/-- More input changes nothing at the front of a buffer that was long enough. -/
theorem cut_append (limit : Nat) (buffer more : Bytes) :
    match cut limit buffer with
    | .short => True
    | .oversized length => cut limit (buffer ++ more) = .oversized length
    | .whole h payload rest => cut limit (buffer ++ more) = .whole h payload (rest ++ more) := by
  unfold cut
  cases parsed : WireHeader.parse? buffer with
  | none => trivial
  | some h =>
    rw [parse?_append parsed more]
    have enough := WireHeader.size_le_of_parse? parsed
    by_cases large : limit < h.length
    · simp only [if_pos large]
    · simp only [if_neg large]
      by_cases missing : ((buffer.drop WireHeader.size).take h.length).length < h.length
      · simp only [if_pos missing]
      · simp only [if_neg missing]
        have arrived : h.length ≤ (buffer.drop WireHeader.size).length := by
          simp only [List.length_take] at missing
          omega
        have payload : ((buffer ++ more).drop WireHeader.size).take h.length =
            (buffer.drop WireHeader.size).take h.length := by
          rw [List.drop_append_of_le_length enough, List.take_append_of_le_length arrived]
        have rest : ((buffer ++ more).drop WireHeader.size).drop h.length =
            (buffer.drop WireHeader.size).drop h.length ++ more := by
          rw [List.drop_append_of_le_length enough, List.drop_append_of_le_length arrived]
        rw [payload, rest, if_neg missing]

theorem cut_append_oversized {limit length : Nat} {buffer : Bytes}
    (found : cut limit buffer = .oversized length) (more : Bytes) :
    cut limit (buffer ++ more) = .oversized length := by
  simpa only [found] using cut_append limit buffer more

theorem cut_append_whole {limit : Nat} {buffer payload rest : Bytes} {h : WireHeader}
    (found : cut limit buffer = .whole h payload rest) (more : Bytes) :
    cut limit (buffer ++ more) = .whole h payload (rest ++ more) := by
  simpa only [found] using cut_append limit buffer more

/-! ### Scans -/

section Scans
variable {limit : Nat} {pending : Option OpenBlock} {buffer : Bytes} {done : List Frame}

theorem scan_of_short (found : cut limit buffer = .short) :
    scan limit pending buffer done = { pending, buffer, failure := none, frames := done.reverse } := by
  rw [scan]
  split
  · rfl
  · next same => simp [found] at same
  · next same => simp [found] at same

theorem scan_of_oversized {length : Nat} (found : cut limit buffer = .oversized length) :
    scan limit pending buffer done =
      { pending := none, buffer := [], failure := some (.frameTooLarge length limit),
        frames := done.reverse } := by
  rw [scan]
  split
  · next same => simp [found] at same
  · next same =>
    rw [found] at same
    cases same
    rfl
  · next same => simp [found] at same

theorem scan_of_whole {h : WireHeader} {payload rest : Bytes}
    (found : cut limit buffer = .whole h payload rest) :
    scan limit pending buffer done =
      match read pending h payload with
      | .error failure =>
        { pending := none, buffer := [], failure := some failure, frames := done.reverse }
      | .ok (pending, frame) => scan limit pending rest (frame.toList ++ done) := by
  rw [scan]
  split
  · next same => simp [found] at same
  · next same => simp [found] at same
  · next same =>
    rw [found] at same
    cases same
    rfl

theorem scan_of_error {h : WireHeader} {payload rest : Bytes} {failure : DecodeError}
    (found : cut limit buffer = .whole h payload rest) (failed : read pending h payload = .error failure) :
    scan limit pending buffer done =
      { pending := none, buffer := [], failure := some failure, frames := done.reverse } := by
  rw [scan_of_whole found, failed]

theorem scan_of_ok {h : WireHeader} {payload rest : Bytes} {pending' : Option OpenBlock}
    {frame : Option Frame} (found : cut limit buffer = .whole h payload rest)
    (went : read pending h payload = .ok (pending', frame)) :
    scan limit pending buffer done = scan limit pending' rest (frame.toList ++ done) := by
  rw [scan_of_whole found, went]

end Scans

/-- Goes on with more input, unless the scan failed. -/
def Scan.extend (r : Scan) (limit : Nat) (more : Bytes) : Scan :=
  if r.failure.isSome then r else scan limit r.pending (r.buffer ++ more) r.frames.reverse

/-- A scan of a longer buffer goes on where the scan of its front stopped. -/
theorem scan_append (limit : Nat) (pending : Option OpenBlock) (buffer more : Bytes)
    (done : List Frame) :
    scan limit pending (buffer ++ more) done = (scan limit pending buffer done).extend limit more := by
  fun_induction scan limit pending buffer done with
  | case1 => simp [Scan.extend]
  | case2 _ _ _ _ found =>
    rw [scan_of_oversized (cut_append_oversized found more)]
    rfl
  | case3 _ _ _ _ _ _ found _ failed =>
    rw [scan_of_error (cut_append_whole found more) failed]
    rfl
  | case4 _ _ _ _ _ _ found _ _ went ih => rw [scan_of_ok (cut_append_whole found more) went, ih]

/-- The frames that were read before a scan stand before those that it reads, and change nothing else. -/
theorem scan_earlier (limit : Nat) (pending : Option OpenBlock) (buffer : Bytes)
    (done earlier : List Frame) :
    scan limit pending buffer (done ++ earlier) =
      { scan limit pending buffer done with
        frames := earlier.reverse ++ (scan limit pending buffer done).frames } := by
  fun_induction scan limit pending buffer done with
  | case1 _ _ _ found => simp [scan_of_short found]
  | case2 _ _ _ _ found => simp [scan_of_oversized found]
  | case3 _ _ _ _ _ _ found _ failed => simp [scan_of_error found failed]
  | case4 _ _ _ _ _ _ found _ _ went ih => rw [scan_of_ok found went, ← List.append_assoc, ih]

/-! ### The preface -/

/-- What has been decided about the opening of the input does not change with more input. -/
theorem skipPreface_append (buffer more : Bytes) (decided : (skipPreface buffer).1 ≠ .undecided) :
    skipPreface (buffer ++ more) = ((skipPreface buffer).1, (skipPreface buffer).2 ++ more) := by
  unfold skipPreface at decided ⊢
  by_cases opened : preface <+: buffer
  · obtain ⟨rest, rfl⟩ := opened
    simp [List.append_assoc]
  · by_cases short : buffer <+: preface
    · simp [List.isPrefixOf_iff_prefix, opened, short] at decided
    -- Input that has left the preface cannot come back to it.
    · have never : ¬ preface <+: buffer ++ more := fun front => by
        rcases List.prefix_or_prefix_of_prefix front (List.prefix_append buffer more) with first | first
        · exact opened first
        · exact short first
      have longer : ¬ buffer ++ more <+: preface := fun front =>
        short ((List.prefix_append buffer more).trans front)
      simp [List.isPrefixOf_iff_prefix, opened, short, never, longer]

theorem skipPreface_undecided {buffer : Bytes} (undecided : (skipPreface buffer).1 = .undecided) :
    (skipPreface buffer).2 = buffer := by
  unfold skipPreface at undecided ⊢
  split at undecided
  · cases undecided
  · split
    · next opened => simp_all
    · split <;> rfl

namespace Decoder

/-! ### Decoders -/

/-- How the input opens, and what of it is read as wire frames. -/
def opened (d : Decoder) (input : Bytes) : Opening × Bytes :=
  if d.opening = .undecided then skipPreface input else (d.opening, input)

theorem opened_append (d : Decoder) (input more : Bytes) (decided : (d.opened input).1 ≠ .undecided) :
    d.opened (input ++ more) = ((d.opened input).1, (d.opened input).2 ++ more) := by
  unfold opened at decided ⊢
  split at decided
  · next first => simpa only [if_pos first] using skipPreface_append input more decided
  · next later => simp only [if_neg later]

theorem opened_undecided {d : Decoder} {input : Bytes} (undecided : (d.opened input).1 = .undecided) :
    d.opening = .undecided ∧ (d.opened input).2 = input := by
  unfold opened at undecided ⊢
  split at undecided
  · next first => exact ⟨first, by simpa only [if_pos first] using skipPreface_undecided undecided⟩
  · next later => exact absurd undecided later

theorem feed_of_failed {d : Decoder} (failed : d.failure.isSome) (bytes : Bytes) :
    d.feed bytes = (d, []) := by
  simp [feed, failed]

theorem feed_of_undecided {d : Decoder} {bytes : Bytes} (going : d.failure = none)
    (undecided : (d.opened (d.buffer ++ bytes)).1 = .undecided) :
    d.feed bytes = ({ d with buffer := d.buffer ++ bytes }, []) := by
  obtain ⟨first, kept⟩ := opened_undecided undecided
  unfold opened at undecided kept
  rw [if_pos first] at undecided kept
  simp [feed, going, first, undecided, kept]

theorem feed_of_decided {d : Decoder} {bytes : Bytes} (going : d.failure = none)
    (decided : (d.opened (d.buffer ++ bytes)).1 ≠ .undecided) :
    d.feed bytes =
      let input := d.opened (d.buffer ++ bytes)
      let scan := scan d.limit d.pending input.2 []
      ({ d with opening := input.1, buffer := scan.buffer, pending := scan.pending,
                failure := scan.failure }, scan.frames) := by
  unfold opened at decided ⊢
  simp only [feed, going]
  exact if_neg decided

@[simp] theorem limit_feed (d : Decoder) (bytes : Bytes) : (d.feed bytes).1.limit = d.limit := by
  by_cases going : d.failure = none
  · by_cases undecided : (d.opened (d.buffer ++ bytes)).1 = .undecided
    · rw [feed_of_undecided going undecided]
    · rw [feed_of_decided going undecided]
  · rw [feed_of_failed (Option.isSome_iff_ne_none.mpr going)]

theorem feed_buffered (d : Decoder) (front back : Bytes) (going : d.failure = none) :
    ({ d with buffer := d.buffer ++ front } : Decoder).feed back = d.feed (front ++ back) := by
  simp [feed, going, List.append_assoc]

/-- Two pieces do what they do when they arrive as one. -/
theorem feed_append (d : Decoder) (front back : Bytes) :
    d.feed (front ++ back) =
      (((d.feed front).1.feed back).1, (d.feed front).2 ++ ((d.feed front).1.feed back).2) := by
  by_cases going : d.failure = none
  · by_cases undecided : (d.opened (d.buffer ++ front)).1 = .undecided
    · -- The first piece only fills the buffer.
      rw [feed_of_undecided going undecided, feed_buffered d front back going, List.nil_append]
    · have whole := opened_append d (d.buffer ++ front) back undecided
      rw [List.append_assoc] at whole
      have decided : (d.opened (d.buffer ++ (front ++ back))).1 ≠ .undecided := by
        rw [whole]
        exact undecided
      rw [feed_of_decided going undecided, feed_of_decided going decided, whole]
      generalize d.opened (d.buffer ++ front) = input at undecided
      simp only [scan_append]
      generalize scan d.limit d.pending input.2 [] = first
      by_cases failed : first.failure.isSome
      · rw [feed_of_failed (by exact failed), Scan.extend, if_pos failed, List.append_nil]
      · have went : first.failure = none := Option.not_isSome_iff_eq_none.mp failed
        rw [feed_of_decided (by exact went) (by simp [opened, undecided])]
        have later := scan_earlier d.limit first.pending (first.buffer ++ back) [] first.frames.reverse
        simp only [List.nil_append, List.reverse_reverse] at later
        simp [opened, undecided, Scan.extend, went, later]
  · have failed := Option.isSome_iff_ne_none.mpr going
    simp [feed_of_failed failed]

/-- Reads pieces of input in order. -/
def feedAll (d : Decoder) : List Bytes → Decoder × List Frame
  | [] => (d, [])
  | piece :: rest =>
    let (d, front) := d.feed piece
    let (d, back) := d.feedAll rest
    (d, front ++ back)

theorem feedAll_cons (d : Decoder) (piece : Bytes) (rest : List Bytes) :
    d.feedAll (piece :: rest) =
      (((d.feed piece).1.feedAll rest).1, (d.feed piece).2 ++ ((d.feed piece).1.feedAll rest).2) := rfl

theorem feedAll_cons_flatten (d : Decoder) (piece : Bytes) (rest : List Bytes) :
    d.feedAll (piece :: rest) = d.feed (piece ++ rest.flatten) := by
  -- Two pieces at a time become one, from the front, so the decoder and the piece vary.
  induction rest generalizing d piece with
  | nil => simp [feedAll]
  | cons next rest ih => rw [feedAll_cons, ih, List.flatten_cons, feed_append d piece]

theorem feed_start_nil (limit : Nat) : (start limit).feed [] = (start limit, []) := by
  have undecided : (skipPreface []).1 = .undecided := by decide +kernel
  exact feed_of_undecided (d := start limit) rfl undecided

theorem feedAll_start (limit : Nat) (pieces : List Bytes) :
    (start limit).feedAll pieces = (start limit).feed pieces.flatten := by
  cases pieces with
  | nil => rw [feedAll, List.flatten_nil, feed_start_nil]
  | cons piece rest => rw [feedAll_cons_flatten, List.flatten_cons]

end Decoder

namespace Reader

theorem foldl_feed (r : Reader) (pieces : List Bytes) :
    pieces.foldl feed r =
      { decoder := (r.decoder.feedAll pieces).1, ready := r.ready ++ (r.decoder.feedAll pieces).2 } := by
  induction pieces generalizing r with
  | nil => simp [Decoder.feedAll]
  | cons piece rest ih => simp [ih, feed, Decoder.feedAll, List.append_assoc]

end Reader

/-- However the input of a new decoder is cut into pieces, in the end the decoder stands as if all of it
    had arrived at once, with the same error, opening and buffer, and it has given the same frames; so has
    a reader. Once a piece has failed, no later one changes anything or gives a frame. -/
theorem chunking_invariant (limit : Nat) (pieces : List Bytes) :
    (Decoder.start limit).feedAll pieces = (Decoder.start limit).feed pieces.flatten ∧
      pieces.foldl Reader.feed { decoder := .start limit } =
        Reader.feed { decoder := .start limit } pieces.flatten ∧
      ∀ front back failure, pieces = front ++ back →
        ((Decoder.start limit).feedAll front).1.failure = some failure →
          ∀ piece ∈ back, ((Decoder.start limit).feedAll front).1.feed piece =
            (((Decoder.start limit).feedAll front).1, []) := by
  refine ⟨Decoder.feedAll_start limit pieces, ?_, fun front back failure _ failed piece _ => ?_⟩
  · rw [Reader.foldl_feed, Decoder.feedAll_start]
    rfl
  · exact Decoder.feed_of_failed (Option.isSome_iff_exists.mpr ⟨failure, failed⟩) piece

/-- A PING, cut in its payload, is followed by a frame that is too large, and that by a further PING. -/
theorem chunking_invariant_ping :
    let ping := (Frame.ping false (Vector.replicate 8 7)).encode 0
    let front := [ping.take 12, ping.drop 12 ++ List.replicate 9 0xff]
    let d := (Decoder.start 0).feedAll front
    d.1.failure = some (.frameTooLarge 0xffffff 16384) ∧ d.2.length = 1 ∧ d.1.feed ping = (d.1, []) := by
  intro ping front d
  have failed : d.1.failure = some (.frameTooLarge 0xffffff 16384) := by decide +kernel
  refine ⟨failed, by decide +kernel, ?_⟩
  exact (chunking_invariant 0 (front ++ [ping])).2.2 front [ping] _ rfl failed ping (List.mem_singleton_self _)

end Multiplex.Frame
