import Multiplex.Proofs.Frame.Reencoding

/-! # The limit on header blocks

A header block that is put together from fragments is held against the limit with each fragment, so that one which
exceeds it is refused however it is cut (`Spread.Proper.refuses_scan`). A block that is whole in one wire frame is held
against the frame limit only. That limit may be set above the other one, and then whether a large block is read depends
on how it is put on the wire (`header_block_cap`). -/

namespace Multiplex.Frame

/-! ### What leaves a decoder -/

theorem length_le_of_cut {limit : Nat} {buffer payload rest : Bytes} {h : WireHeader}
    (found : cut limit buffer = .whole h payload rest) : payload.length ≤ limit := by
  unfold cut at found
  split at found
  · cases found
  · split at found
    · cases found
    · dsimp only at found
      split at found <;> cases found
      exact Nat.le_trans (List.length_take_le ..) (Nat.le_of_not_lt ‹_›)

theorem length_le_of_unpad {kind : Kind} {flags : UInt8} {payload body : Bytes}
    (unpadded : unpad kind flags payload = .ok body) : body.length ≤ payload.length := by
  rw [length_unpad unpadded]
  exact Nat.le_add_right ..

theorem length_of_splitDependency {flags : UInt8} {payload block : Bytes} {priority : Option Dependency}
    (parts : splitDependency flags payload = .ok (priority, block)) : block.length ≤ payload.length := by
  unfold splitDependency at parts
  split at parts
  · split at parts <;> cases parts
    simp only [List.length_cons]
    omega
  · cases parts
    exact Nat.le_refl _

/-- A wire frame leaves open only a block within the limit on blocks, and completes only frames with a block within
    `bound`. -/
structure ReadsWithin (bound : Nat) (result : Option OpenBlock × Option Frame) : Prop where
  pending : ∀ b ∈ result.1, b.block.length ≤ OpenBlock.limit
  frame : ∀ f ∈ result.2, f.block.length ≤ bound

section Reading
variable {bound : Nat} {result : Option OpenBlock × Option Frame}

theorem readsWithin_block {b : OpenBlock} (small : b.block.length ≤ bound) :
    ReadsWithin bound (none, some b.frame) := by
  refine ⟨nofun, fun f same => ?_⟩
  cases same
  rwa [block_frame]

theorem readsWithin_nothing : ReadsWithin bound (none, none) := ⟨nofun, nofun⟩

theorem readsWithin_plain {f : Frame} (plain : f.block = []) : ReadsWithin bound (none, some f) :=
  ⟨nofun, fun g same => by cases same; simp [plain]⟩

theorem readsWithin_openBlock {b : OpenBlock} {endHeaders : Bool} (small : b.block.length ≤ bound)
    (went : openBlock b endHeaders = .ok result) : ReadsWithin bound result := by
  unfold openBlock at went
  split at went
  · cases went
    exact readsWithin_block small
  · split at went <;> cases went
    exact ⟨fun c same => by cases same; assumption, nofun⟩

theorem readsWithin_continueBlock {b : OpenBlock} {h : WireHeader} {payload : Bytes} (large : OpenBlock.limit ≤ bound)
    (went : continueBlock b h payload = .ok result) : ReadsWithin bound result := by
  unfold continueBlock at went
  dsimp only at went
  split at went
  · cases went
  · split at went
    · next fits =>
      split at went <;> cases went
      · exact readsWithin_block (b := { b with block := b.block ++ payload }) (Nat.le_trans fits large)
      · exact ⟨fun c same => by cases same; exact fits, nofun⟩
    · cases went

theorem readsWithin_readKind {kind : Kind} {h : WireHeader} {payload : Bytes} (small : payload.length ≤ bound)
    (went : readKind kind h payload = .ok result) : ReadsWithin bound result := by
  cases kind with
  | data =>
    obtain ⟨body, -, same⟩ := bind_ok went
    cases same
    exact readsWithin_plain rfl
  | headers =>
    obtain ⟨body, unpadded, rest⟩ := bind_ok went
    obtain ⟨⟨priority, block⟩, parts, opened⟩ := bind_ok rest
    -- Neither padding nor a dependency adds to the block.
    have short : block.length ≤ payload.length :=
      Nat.le_trans (length_of_splitDependency parts) (length_le_of_unpad unpadded)
    exact readsWithin_openBlock (Nat.le_trans short small) opened
  | pushPromise =>
    obtain ⟨body, unpadded, rest⟩ := bind_ok went
    have shorter := length_le_of_unpad unpadded
    split at rest
    · next block =>
      have short : block.length ≤ bound := by
        simp only [List.length_cons] at shorter
        omega
      exact readsWithin_openBlock short rest
    · cases rest
  | continuation => cases went
  | reset =>
    obtain ⟨-, -, same⟩ := bind_ok went
    cases same
    exact readsWithin_plain rfl
  | settings =>
    simp only [readKind] at went
    split at went <;> cases went
    exact readsWithin_plain rfl
  | goAway =>
    simp only [readKind] at went
    split at went <;> cases went
    exact readsWithin_plain rfl
  | windowUpdate =>
    obtain ⟨-, -, same⟩ := bind_ok went
    cases same
    exact readsWithin_plain rfl
  | ping =>
    obtain ⟨-, -, same⟩ := bind_ok went
    cases same
    exact readsWithin_plain rfl
  | priority =>
    cases went
    exact readsWithin_nothing

end Reading

theorem preserves_within (limit : Nat) :
    Preserves limit (·.block.length ≤ OpenBlock.limit) (·.block.length ≤ max OpenBlock.limit limit) := by
  intro pending h buffer payload rest result found waiting went
  have within : ReadsWithin (max OpenBlock.limit limit) result := by
    unfold read at went
    split at went
    · exact readsWithin_continueBlock (Nat.le_max_left ..) went
    · cases went
    · exact readsWithin_readKind (Nat.le_trans (length_le_of_cut found) (Nat.le_max_right ..)) went
    · cases went
      exact readsWithin_nothing
  exact ⟨within.pending, within.frame⟩

/-- What a decoder holds open is within the limit. -/
theorem Decoder.Used.pending_le {d : Decoder} (used : d.Used) : ∀ b ∈ d.pending, b.block.length ≤ OpenBlock.limit := by
  induction used with
  | start => exact nofun
  | setLimit _ _ ih => exact ih
  | feed _ bytes ih => exact (feed_all (preserves_within _) bytes ih).1

theorem Decoder.Used.limit_le {d : Decoder} (used : d.Used) : d.limit ≤ greatestLimit := by
  induction used with
  | start | setLimit => exact Nat.min_le_right ..
  | feed _ bytes ih => rwa [Decoder.limit_feed]

/-! ### Blocks that are too large -/

/-- The fragment with which an open block exceeds the limit ends the reading. -/
theorem read_excess (b : OpenBlock) (flags : UInt8) (length : Nat) {fragment : Bytes}
    (large : OpenBlock.limit < (b.block ++ fragment).length) :
    read (some b) { length, kind := Kind.continuation.code, flags, stream := b.stream } fragment =
      .error (.blockTooLarge (b.block ++ fragment).length OpenBlock.limit) := by
  simp only [read, Kind.ofCode?_code, continueBlock, ne_eq, not_true_eq_false, if_false,
    if_neg (Nat.not_le.mpr large)]

/-- A header block of `size` bytes is refused: when it exceeds the limit, the reading ends. -/
def Scan.Refuses (r : Scan) (size : Nat) (done : List Frame) : Prop :=
  ∃ n, OpenBlock.limit < n ∧ n ≤ size ∧
    r = { pending := none, buffer := [], failure := some (.blockTooLarge n OpenBlock.limit), frames := done.reverse }

/-- An open block that exceeds the limit with its fragments is refused. -/
theorem refuses_scan_fragmentFrames {limit : Nat} (small : limit < 2 ^ 24) {b : OpenBlock} (narrow : b.stream < 2 ^ 31)
    {fragments : List Fragment} (allowed : ∀ f ∈ fragments, f.bytes.length ≤ limit)
    (opened : b.block.length ≤ OpenBlock.limit)
    (large : OpenBlock.limit < (b.block ++ Fragment.join fragments).length) (rest : Bytes) (done : List Frame) :
    (scan limit (some b) ((fragmentFrames b.stream true fragments).flatten ++ rest) done).Refuses
      (b.block ++ Fragment.join fragments).length done := by
  induction fragments generalizing b with
  | nil =>
    rw [Fragment.join, List.flatMap_nil, List.append_nil] at large
    exact absurd opened (Nat.not_le.mpr large)
  | cons f later ih =>
    obtain ⟨first, others⟩ := List.forall_mem_cons.mp allowed
    have joined : Fragment.join (f :: later) = f.bytes ++ Fragment.join later := rfl
    rw [joined, ← List.append_assoc] at large ⊢
    rw [fragmentFrames, List.flatten_cons, List.append_assoc]
    let flags := blockFlags f.flags (true && later.isEmpty)
    have cut : cut limit (wireFrame .continuation flags b.stream f.bytes ++
        ((fragmentFrames b.stream true later).flatten ++ rest)) = _ := cut_of_le small first narrow _
    -- The block is refused at the fragment that takes it past the cap; up to there it is read as usual.
    by_cases fits : (b.block ++ f.bytes).length ≤ OpenBlock.limit
    · have more : later ≠ [] := by
        rintro rfl
        rw [Fragment.join, List.flatMap_nil, List.append_nil] at large
        omega
      have open' : Flag.isSet Flag.endHeaders flags = false := by
        rw [isSet_endHeaders_blockFlags, List.isEmpty_eq_false_iff.mpr more, Bool.true_and]
      have read := read_continuation b flags f.bytes.length fits
      rw [open', if_neg Bool.false_ne_true] at read
      rw [scan_of_ok cut read]
      exact ih (b := { b with block := b.block ++ f.bytes }) narrow others fits large
    · have excess := read_excess b flags f.bytes.length (Nat.not_le.mp fits)
      refine ⟨_, Nat.not_le.mp fits, ?_, scan_of_error cut excess⟩
      simp only [List.length_append]
      exact Nat.le_add_right ..

namespace Spread

variable {s : Spread} {limit : Nat}

/-- A header block that is cut and too large is refused. -/
theorem Proper.refuses_scan (proper : s.Proper) (small : limit < 2 ^ 24) (allowed : ∀ p ∈ s.payloads, p.length ≤ limit)
    (more : s.others ≠ []) (large : OpenBlock.limit < s.block.length) (rest : Bytes) (done : List Frame) :
    (Frame.scan limit none ((s.wire true).flatten ++ rest) done).Refuses s.block.length done := by
  obtain ⟨head, tail⟩ := List.forall_mem_cons.mp allowed
  have part : (true && s.others.isEmpty) = false := by rw [List.isEmpty_eq_false_iff.mpr more, Bool.true_and]
  have opens := proper.read (pad s.padding (s.opener.lead ++ s.first)).length false
  rw [openBlock, if_neg Bool.false_ne_true, Opener.block_opened] at opens
  rw [wire, part, List.flatten_cons, List.append_assoc]
  split at opens
  · next fits =>
    rw [scan_of_ok (cut_of_le small head proper.narrow _) opens]
    have others : ∀ f ∈ s.others, f.bytes.length ≤ limit := fun f member => tail f.bytes (List.mem_map_of_mem member)
    have refused := refuses_scan_fragmentFrames small (b := s.opener.opened s.stream (blockFlags s.flags false) s.first)
      (by simpa using proper.narrow) others (by simpa using fits) (by simpa [block] using large) rest done
    rw [Opener.block_opened, Opener.stream_opened] at refused
    exact refused
  · next excess =>
    refine ⟨_, Nat.not_le.mp excess, ?_, scan_of_error (cut_of_le small head proper.narrow _) opens⟩
    rw [block, List.length_append]
    exact Nat.le_add_right ..

/-- A block that is whole in its first wire frame is no longer than that. -/
theorem length_block_le (whole : s.others = []) (allowed : ∀ p ∈ s.payloads, p.length ≤ limit) :
    s.block.length ≤ limit := by
  have head := allowed _ List.mem_cons_self
  have padded : ∀ padding body, body.length ≤ (pad padding body).length := by
    intro padding body
    cases padding <;> simp [pad]; omega
  have shorter := padded s.padding (s.opener.lead ++ s.first)
  rw [block, whole, Fragment.join, List.flatMap_nil, List.append_nil]
  rw [List.length_append] at shorter
  omega

end Spread

/-! ### Decoders -/

namespace Decoder

variable {d : Decoder}

/-- What `d` gives for a header block of `size` bytes that it refuses. -/
def Refuses (d : Decoder) (size : Nat) (result : Decoder × List Frame) : Prop :=
  ∃ n, OpenBlock.limit < n ∧ n ≤ size ∧
    result = ({ d.begun with failure := some (.blockTooLarge n OpenBlock.limit) }, [])

/-- The wire frames of a header block may arrive in any pieces. -/
theorem feedAll_wire {s : Spread} {pieces : List Bytes} (same : pieces.flatten = (s.wire true).flatten) :
    d.feedAll pieces = d.feed (s.wire true).flatten := by
  cases pieces with
  | nil =>
    have long := congrArg List.length same
    simp [Spread.wire, length_wireFrame, WireHeader.size] at long
    omega
  | cons piece rest => rw [feedAll_cons_flatten, ← List.flatten_cons, same]

/-- A header block that is cut and too large is refused. -/
theorem Aligned.feed_refuses (aligned : d.Aligned) (closed : d.pending = none) {s : Spread} (proper : s.Proper)
    (allowed : ∀ p ∈ s.payloads, p.length ≤ d.limit) (more : s.others ≠ [])
    (large : OpenBlock.limit < s.block.length) : d.Refuses s.block.length (d.feed (s.wire true).flatten) := by
  have small : d.limit < 2 ^ 24 := Nat.lt_of_le_of_lt aligned.legal (by decide)
  obtain ⟨n, excess, bound, scanned⟩ := proper.refuses_scan small allowed more large [] []
  refine ⟨n, excess, bound, ?_⟩
  rw [List.append_nil, Spread.wire, List.flatten_cons] at scanned
  rw [Spread.wire, List.flatten_cons, aligned.feed, closed, scanned]
  obtain ⟨opening, limit, buffer, pending, failure⟩ := d
  obtain ⟨rfl, rfl, -⟩ := aligned
  cases closed
  rfl

end Decoder

/-- Whatever input a decoder has read in whatever pieces, and whatever limits it was set to, the header blocks of the
    frames that it gives are within the limit on blocks or within its frame limit. A block within the limit is read
    however it is put on the wire. One that exceeds it is refused if it is cut; if it is whole in one wire frame it is
    read, and the frame limit is the greater one. -/
theorem header_block_cap {d : Decoder} (used : d.Used) :
    (∀ bytes, ∀ f ∈ (d.feed bytes).2, f.block.length ≤ max OpenBlock.limit d.limit) ∧
      (d.failure = none → d.buffer = [] → d.pending = none →
        ∀ (s : Spread) (pieces : List Bytes), s.Proper → (∀ p ∈ s.payloads, p.length ≤ d.limit) →
          pieces.flatten = (s.wire true).flatten →
            (s.block.length ≤ OpenBlock.limit → d.feedAll pieces = (d.begun, [s.frame])) ∧
            (OpenBlock.limit < s.block.length → s.others ≠ [] → d.Refuses s.block.length (d.feedAll pieces)) ∧
            (OpenBlock.limit < s.block.length → s.others = [] →
              d.feedAll pieces = (d.begun, [s.frame]) ∧ OpenBlock.limit < d.limit)) := by
  refine ⟨fun bytes => (feed_all (preserves_within _) bytes used.pending_le).2, ?_⟩
  intro going empty closed s pieces proper allowed same
  have aligned : d.Aligned := ⟨going, empty, used.limit_le⟩
  rw [Decoder.feedAll_wire same]
  have reads := aligned.feed_wire closed proper allowed
  refine ⟨fun small => reads fun _ => small, fun large more => aligned.feed_refuses closed proper allowed more large,
    fun large whole => ⟨reads fun more => absurd whole more, ?_⟩⟩
  exact Nat.lt_of_lt_of_le large (Spread.length_block_le whole allowed)

/-! ### A block in one wire frame and in two -/

namespace Spread

/-- A header block in one HEADERS frame. -/
def plain (block : Bytes) : Spread :=
  { opener := .headers none, stream := 1, flags := 0, padding := none, first := block, others := [] }

/-- A header block in a CONTINUATION frame, behind an empty HEADERS frame. -/
def late (block : Bytes) : Spread :=
  { opener := .headers none, stream := 1, flags := 0, padding := none, first := [],
    others := [{ flags := 0, bytes := block }] }

@[simp] theorem block_plain (block : Bytes) : (plain block).block = block := List.append_nil block

@[simp] theorem block_late (block : Bytes) : (late block).block = block := List.append_nil block

theorem frame_plain (block : Bytes) : (plain block).frame = .headers 1 block false none 4 := by
  have flags : blockFlags 0 true = 4 := by decide
  have going : Flag.isSet Flag.endStream 4 = false := by decide
  rw [frame, block_plain]
  change Frame.headers 1 block (Flag.isSet Flag.endStream (blockFlags 0 true)) none (blockFlags 0 true) = _
  rw [flags, going]

theorem proper_plain (block : Bytes) : (plain block).Proper :=
  ⟨Nat.one_lt_two_pow (by decide), ⟨Flag.isSet_zero _, nofun⟩, Flag.isSet_zero _, nofun⟩

theorem proper_late (block : Bytes) : (late block).Proper :=
  ⟨Nat.one_lt_two_pow (by decide), ⟨Flag.isSet_zero _, nofun⟩, Flag.isSet_zero _, nofun⟩

theorem payloads_plain {block : Bytes} {limit : Nat} (fits : block.length ≤ limit) :
    ∀ p ∈ (plain block).payloads, p.length ≤ limit := by
  rintro p (_ | ⟨_, _ | _⟩)
  exact fits

theorem payloads_late {block : Bytes} {limit : Nat} (fits : block.length ≤ limit) :
    ∀ p ∈ (late block).payloads, p.length ≤ limit := by
  rintro p (_ | ⟨_, _ | ⟨_, _ | _⟩⟩)
  · exact Nat.zero_le limit
  · exact fits

end Spread

namespace Decoder

variable {d : Decoder} {block : Bytes}

theorem Aligned.feed_plain (aligned : d.Aligned) (closed : d.pending = none) (fits : block.length ≤ d.limit) :
    d.feed ((Spread.plain block).wire true).flatten = (d.begun, [.headers 1 block false none 4]) := by
  rw [aligned.feed_wire closed (Spread.proper_plain block) (Spread.payloads_plain fits) (absurd rfl),
    Spread.frame_plain]

theorem Aligned.feed_late (aligned : d.Aligned) (closed : d.pending = none) (fits : block.length ≤ d.limit)
    (large : OpenBlock.limit < block.length) : (d.feed ((Spread.late block).wire true).flatten).2 = [] := by
  obtain ⟨n, -, -, refused⟩ := aligned.feed_refuses closed (Spread.proper_late block) (Spread.payloads_late fits) nofun
    (by rwa [Spread.block_late])
  rw [refused]

end Decoder

/-- With a high frame limit, a short block that arrives byte by byte is read, and one of a byte too many is refused. -/
theorem header_block_cap_late :
    let d := Decoder.start 300000
    let long := List.replicate 262145 (0 : UInt8)
    d.feedAll (((Spread.late [0x82]).wire true).flatten.map ([·])) = (d.begun, [.headers 1 [0x82] false none 0]) ∧
      d.Refuses 262145 (d.feedAll ((Spread.late long).wire true)) := by
  intro d long
  have read := (header_block_cap (.start 300000)).2 rfl rfl rfl
  have bytes :
      (((Spread.late [0x82]).wire true).flatten.map ([·])).flatten = ((Spread.late [0x82]).wire true).flatten := by
    decide +kernel
  have size : long.length = 262145 := List.length_replicate
  have fits : long.length ≤ d.limit := by
    rw [size]
    decide
  refine ⟨(read (.late [0x82]) _ (Spread.proper_late _) (by decide) bytes).1 (by decide), ?_⟩
  have refused := (read (.late long) _ (Spread.proper_late long) (Spread.payloads_late fits) rfl).2.1
  rw [Spread.block_late, size] at refused
  exact refused (by decide) nofun

/-- A frame limit above the limit on blocks: a block of one byte more than that is read if it is whole in one wire
    frame, and refused if an empty wire frame opens it. -/
theorem header_block_cap_whole :
    let d := Decoder.start 300000
    let block := List.replicate 262145 (0 : UInt8)
    OpenBlock.limit < block.length ∧ (Spread.plain block).block = (Spread.late block).block ∧
      (d.feed ((Spread.plain block).wire true).flatten).2 = [.headers 1 block false none 4] ∧
      (d.feed ((Spread.late block).wire true).flatten).2 = [] := by
  intro d block
  have size : block.length = 262145 := List.length_replicate
  clear_value block
  have aligned : d.Aligned := Decoder.aligned_start 300000
  have large : OpenBlock.limit < block.length := by
    rw [size]
    decide
  have fits : block.length ≤ d.limit := by
    rw [size]
    decide
  refine ⟨large, by rw [Spread.block_plain, Spread.block_late], ?_, aligned.feed_late rfl fits large⟩
  rw [aligned.feed_plain rfl fits]

end Multiplex.Frame
