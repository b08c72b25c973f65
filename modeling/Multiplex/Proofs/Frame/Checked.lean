import Multiplex.Outbox
import Multiplex.Proofs.Frame.Streams

/-! # The codec within bounds

A codec finds its way by lengths and positions that come from the peer. Here it is written once more over
operations that fail out of bounds: the byte at a position that is not there, more bytes than there are, a
size below zero, or one that a word does not hold (`Checked`). Whatever bytes a decoder is fed, and whatever
frame is written, none of them fails, and the checked codec gives what the codec gives (`Checked.feed_eq`,
`Checked.wire_eq`). -/

namespace Multiplex

/-- A computation that can be refused with an error, and that comes to nothing if one of its operations is out of
    bounds. -/
abbrev Guarded (ε α : Type) := ExceptT ε Option α

namespace Guarded
variable {ε α β : Type}

/-- A result all of whose operations were within bounds. -/
def sound (result : Except ε α) : Guarded ε α := ExceptT.mk (some result)

theorem sound_bind (first : Except ε α) (next : α → Except ε β) :
    (sound first >>= fun a => sound (next a)) = sound (first >>= next) := by
  cases first <;> rfl

/-- Operations within bounds do not show in the result. -/
theorem lift_bind {first : Option α} {a : α} (inside : first = some a) (next : α → Guarded ε β) :
    ((liftM first : Guarded ε α) >>= next) = next a := by
  subst inside
  rfl

end Guarded

namespace Checked

open Guarded (sound sound_bind lift_bind)
open WireHeader (low31)
open Multiplex.Frame (Kind Cut Scan Opening Decoder Reading)

/-! ### Operations -/

/-- The least number that is no size on any machine. -/
def sizeBound : Nat := 2 ^ 32

def sum (a b : Nat) : Option Nat := if a + b < sizeBound then some (a + b) else none

def product (a b : Nat) : Option Nat := if a * b < sizeBound then some (a * b) else none

def difference (a b : Nat) : Option Nat := if b ≤ a then some (a - b) else none

def byte (bytes : Bytes) (i : Nat) : Option UInt8 := bytes[i]?

/-- The number that the two bytes from a position on spell. -/
def half (bytes : Bytes) (i : Nat) : Option Nat := do
  return Bytes.toNat [← byte bytes i, ← byte bytes (i + 1)]

/-- The number that the four bytes from a position on spell. -/
def word (bytes : Bytes) (i : Nat) : Option Nat := do
  return Bytes.toNat [← byte bytes i, ← byte bytes (i + 1), ← byte bytes (i + 2), ← byte bytes (i + 3)]

/-- The first `n` of `bytes`. -/
def before (n : Nat) (bytes : Bytes) : Option Bytes := if n ≤ bytes.length then some (bytes.take n) else none

/-- What follows the first `n` of `bytes`. -/
def after (n : Nat) (bytes : Bytes) : Option Bytes := if n ≤ bytes.length then some (bytes.drop n) else none

section Operations
variable {a b n : Nat} {bytes : Bytes}

theorem sum_eq (fits : a + b < sizeBound) : sum a b = some (a + b) := if_pos fits

theorem product_eq (fits : a * b < sizeBound) : product a b = some (a * b) := if_pos fits

theorem difference_eq (le : b ≤ a) : difference a b = some (a - b) := if_pos le

theorem before_eq (le : n ≤ bytes.length) : before n bytes = some (bytes.take n) := if_pos le

theorem after_eq (le : n ≤ bytes.length) : after n bytes = some (bytes.drop n) := if_pos le

end Operations

/-! ### Wire frames that are read -/

def header? (bytes : Bytes) : Option (Option WireHeader) :=
  if bytes.length < WireHeader.size then some none
  else do
    let length := Bytes.toNat [← byte bytes 0, ← byte bytes 1, ← byte bytes 2]
    let kind ← byte bytes 3
    let flags ← byte bytes 4
    let stream ← word bytes 5
    return some { length, kind, flags, stream := low31 stream }

theorem header?_eq (bytes : Bytes) : header? bytes = some (WireHeader.parse? bytes) := by
  unfold WireHeader.parse?
  split
  · rfl
  · next short =>
    refine if_pos (Nat.lt_of_not_le fun long => ?_)
    match bytes, long with
    | _ :: _ :: _ :: _ :: _ :: _ :: _ :: _ :: _ :: rest, _ => exact short _ _ _ _ _ _ _ _ _ rest rfl

def unpad (kind : Kind) (flags : UInt8) (payload : Bytes) : Guarded DecodeError Bytes :=
  if Flag.isSet Flag.padded flags then
    if payload.isEmpty then throw (.frameTooShort kind)
    else do
      let pad ← byte payload 0
      if payload.length ≤ pad.toNat then throw (.badPadding kind)
      else
        let kept ← difference payload.length pad.toNat
        after 1 (payload.take kept)
  else return payload

theorem unpad_eq (kind : Kind) (flags : UInt8) (payload : Bytes) :
    unpad kind flags payload = sound (Frame.unpad kind flags payload) := by
  unfold unpad Frame.unpad
  split
  · cases payload with
    | nil => rfl
    | cons pad body =>
      rw [if_neg (by simp), lift_bind (show byte (pad :: body) 0 = some pad from rfl)]
      by_cases fits : pad.toNat ≤ body.length
      · have kept : (pad :: body).length - pad.toNat = body.length - pad.toNat + 1 := by
          rw [List.length_cons]
          omega
        rw [if_neg (by rw [List.length_cons]; omega),
          lift_bind (difference_eq (by rw [List.length_cons]; omega)), kept, List.take_succ_cons, after_eq (by simp)]
        dsimp only
        rw [if_pos fits]
        rfl
      · rw [if_pos (by rw [List.length_cons]; omega)]
        dsimp only
        rw [if_neg fits]
        rfl
  · rfl

/-- The dependency at the front of a HEADERS payload, and the header block after it. -/
def splitDependency (flags : UInt8) (payload : Bytes) :
    Guarded DecodeError (Option Dependency × Bytes) :=
  if Flag.isSet Flag.priority flags then
    if payload.length < 5 then throw (.frameTooShort .headers)
    else do
      let parent ← word payload 0
      let weight ← byte payload 4
      let block ← after 5 payload
      return (some { parent := low31 parent, exclusive := 0x80000000 ≤ parent, weight }, block)
  else return (none, payload)

theorem splitDependency_eq (flags : UInt8) (payload : Bytes) :
    splitDependency flags payload = sound (Frame.splitDependency flags payload) := by
  unfold splitDependency Frame.splitDependency
  split
  · match payload with
    | [] | [_] | [_, _] | [_, _, _] | [_, _, _, _] => rfl
    | _ :: _ :: _ :: _ :: _ :: block => rw [if_neg (by simp)]; rfl
  · rfl

/-- The promised stream at the front of a PUSH_PROMISE payload, and the header block after it. -/
def splitPromise (payload : Bytes) : Guarded DecodeError (Nat × Bytes) :=
  if payload.length < 4 then throw (.frameTooShort .pushPromise)
  else do
    let promised ← word payload 0
    let block ← after 4 payload
    return (low31 promised, block)

/-- The parameters in the consecutive entries of six bytes; what is left over is no entry. -/
def params (payload : Bytes) : Option (List Setting) :=
  if payload.length < 6 then some []
  else do
    let entry := payload.take 6
    let id ← half entry 0
    let value ← word entry 2
    let rest ← params (payload.drop 6)
    return { id := UInt16.ofNat id, value := UInt32.ofNat value } :: rest
termination_by payload.length
decreasing_by simp only [List.length_drop]; omega

theorem params_eq (payload : Bytes) : params payload = some (Frame.params payload) := by
  fun_induction Frame.params payload with
  | case1 i₀ i₁ v₀ v₁ v₂ v₃ rest ih =>
    rw [params, if_neg (by simp)]
    simp [ih, half, word, byte]
  | case2 payload short =>
    rw [params]
    refine if_pos (Nat.lt_of_not_le fun long => ?_)
    match payload, long with
    | _ :: _ :: _ :: _ :: _ :: _ :: rest, _ => exact short _ _ _ _ _ _ rest rfl

/-- The eight bytes of a PING payload. -/
def eight (payload : Bytes) : Option (Vector UInt8 8) := do
  let bytes ← before 8 payload
  if whole : bytes.length = 8 then some ⟨bytes.toArray, whole⟩ else none

theorem eight_eq {payload : Bytes} (whole : payload.length = 8) :
    eight payload = some (Vector.ofFn fun i => payload.getD i.val 0) := by
  match payload, whole with
  | [_, _, _, _, _, _, _, _], _ => rfl

def continueBlock (b : OpenBlock) (h : WireHeader) (payload : Bytes) :
    Guarded DecodeError (Option OpenBlock × Option Frame) := do
  if b.stream ≠ h.stream then throw (.strayContinuation h.stream b.stream)
  else
    let size ← sum b.block.length payload.length
    if OpenBlock.limit < size then throw (.blockTooLarge size OpenBlock.limit)
    else
      let b := { b with block := b.block ++ payload }
      if h.endsHeaders then return (none, some b.frame) else return (some b, none)

/-- A decoder holds no more of a block than may be put together. -/
def Held (pending : Option OpenBlock) : Prop := ∀ b ∈ pending, b.block.length ≤ OpenBlock.limit

theorem continueBlock_eq {b : OpenBlock} {h : WireHeader} {payload : Bytes}
    (held : b.block.length ≤ OpenBlock.limit) (short : payload.length < 2 ^ 24) :
    continueBlock b h payload = sound (Frame.continueBlock b h payload) := by
  unfold continueBlock Frame.continueBlock
  dsimp only
  split
  · rfl
  · have size : (b.block ++ payload).length = b.block.length + payload.length := List.length_append
    rw [lift_bind (sum_eq (by unfold OpenBlock.limit at held; unfold sizeBound; omega)), size]
    split
    · next large =>
      rw [if_neg (Nat.not_le.mpr large)]
      rfl
    · next fits =>
      rw [if_pos (Nat.not_lt.mp fits)]
      split <;> rfl

def readKind (kind : Kind) (h : WireHeader) (payload : Bytes) :
    Guarded DecodeError (Option OpenBlock × Option Frame) :=
  match kind with
  | .data => do
    let body ← unpad .data h.flags payload
    return (none, some (.data h.stream body h.endsStream))
  | .headers => do
    let body ← unpad .headers h.flags payload
    let (priority, block) ← splitDependency h.flags body
    sound (Frame.openBlock { stream := h.stream, promised := none, final := h.endsStream, priority,
                             flags := h.flags, block } h.endsHeaders)
  | .pushPromise => do
    let body ← unpad .pushPromise h.flags payload
    let (promised, block) ← splitPromise body
    sound (Frame.openBlock { stream := h.stream, promised := some promised, final := false, priority := none,
                             flags := h.flags, block } h.endsHeaders)
  | .continuation => throw (.unexpectedContinuation h.stream)
  | .reset => do
    sound (Frame.expectLength .reset 4 payload)
    let code ← word payload 0
    return (none, some (.reset h.stream (UInt32.ofNat code)))
  | .settings =>
    if h.isAck ∧ payload ≠ [] ∨ payload.length % 6 ≠ 0 then throw (.wrongLength .settings payload.length)
    else if h.isAck then return (none, some (.settings true []))
    else do
      let params ← params payload
      return (none, some (.settings false params))
  | .goAway =>
    if payload.length < 8 then throw (.frameTooShort .goAway)
    else do
      let last ← word payload 0
      let code ← word payload 4
      return (none, some (.goAway (low31 last) (UInt32.ofNat code)))
  | .windowUpdate => do
    sound (Frame.expectLength .windowUpdate 4 payload)
    let increment ← word payload 0
    return (none, some (.windowUpdate h.stream (low31 increment)))
  | .ping => do
    sound (Frame.expectLength .ping 8 payload)
    let bytes ← eight payload
    return (none, some (.ping h.isAck bytes))
  | .priority => return (none, none)

/-- Within a payload of the right size, what is read behind the check of that size is there. -/
theorem expectLength_bind {α : Type} (kind : Kind) (size : Nat) {payload : Bytes} {next : Guarded DecodeError α}
    {result : Except DecodeError α} (inside : payload.length = size → next = sound result) :
    (sound (Frame.expectLength kind size payload) >>= fun _ => next) =
      sound (Frame.expectLength kind size payload >>= fun _ => result) := by
  unfold Frame.expectLength
  split
  · rfl
  · split
    · next exact_ =>
      rw [inside exact_]
      rfl
    · rfl

theorem word_eq {payload : Bytes} (whole : payload.length = 4) : word payload 0 = some (Bytes.toNat payload) := by
  match payload, whole with
  | [_, _, _, _], _ => rfl

theorem readKind_eq (kind : Kind) (h : WireHeader) (payload : Bytes) :
    readKind kind h payload = sound (Frame.readKind kind h payload) := by
  cases kind with
  | data =>
    simp only [readKind, unpad_eq]
    exact sound_bind _ _
  | headers =>
    simp only [readKind, unpad_eq, splitDependency_eq, Frame.readKind]
    rw [← sound_bind]
    congr 1
    funext body
    exact sound_bind _ _
  -- The payload is taken apart byte by byte: shorter than four it holds no number, and both say so.
  | pushPromise =>
    simp only [readKind, unpad_eq, Frame.readKind]
    rw [← sound_bind]
    congr 1
    funext body
    rcases body with _ | ⟨_, _ | ⟨_, _ | ⟨_, _ | ⟨_, block⟩⟩⟩⟩
    iterate 4 · rfl
    rw [splitPromise, if_neg (by simp)]
    rfl
  | continuation => rfl
  | reset =>
    refine expectLength_bind .reset 4 fun whole => ?_
    rw [word_eq whole, lift_bind rfl]
    rfl
  | settings =>
    simp only [readKind, Frame.readKind]
    by_cases wrong : payload.length % 6 ≠ 0 ∨ h.isAck = true ∧ payload ≠ []
    · rw [if_pos wrong.symm, if_pos wrong]
      rfl
    · rw [if_neg (wrong ∘ Or.symm), if_neg wrong]
      split
      · next ack =>
        have none : payload = [] := by simpa [ack] using not_or.mp wrong |>.2
        rw [none, ack]
        rfl
      · next plain =>
        rw [lift_bind (params_eq payload), Bool.eq_false_iff.mpr plain]
        rfl
  | goAway =>
    simp only [readKind, Frame.readKind]
    rcases payload with _ | ⟨_, _ | ⟨_, _ | ⟨_, _ | ⟨_, _ | ⟨_, _ | ⟨_, _ | ⟨_, _ | ⟨_, rest⟩⟩⟩⟩⟩⟩⟩⟩
    iterate 8 · rfl
    rw [if_neg (by simp)]
    rfl
  | windowUpdate =>
    refine expectLength_bind .windowUpdate 4 fun whole => ?_
    rw [word_eq whole, lift_bind rfl]
    rfl
  | ping =>
    refine expectLength_bind .ping 8 fun whole => ?_
    rw [lift_bind (eight_eq whole)]
    rfl
  | priority => rfl

def read (pending : Option OpenBlock) (h : WireHeader) (payload : Bytes) :
    Guarded DecodeError (Option OpenBlock × Option Frame) :=
  match pending, Kind.ofCode? h.kind with
  | some b, some .continuation => continueBlock b h payload
  | some b, _ => throw (.continuationExpected b.stream h.kind)
  | none, some kind => readKind kind h payload
  | none, none => return (none, none)

section Reading
variable {pending : Option OpenBlock} {h : WireHeader} {payload : Bytes}

theorem read_eq (held : Held pending) (short : payload.length < 2 ^ 24) :
    read pending h payload = sound (Frame.read pending h payload) := by
  unfold read Frame.read
  generalize Kind.ofCode? h.kind = known
  cases pending with
  | some b =>
    cases known with
    | some kind => cases kind <;> first | rfl | exact continueBlock_eq (held b rfl) short
    | none => rfl
  | none =>
    cases known with
    | some kind => exact readKind_eq kind h payload
    | none => rfl

theorem held_none : Held none := fun b same => by cases same

theorem held_openBlock {b : OpenBlock} {endHeaders : Bool} {result : Option OpenBlock × Option Frame}
    (went : Frame.openBlock b endHeaders = .ok result) : Held result.1 := by
  unfold Frame.openBlock at went
  split at went
  · cases went
    exact held_none
  · split at went <;> cases went
    next small => exact fun c same => by cases same; exact small

/-- Only a block that may be put together is left open. -/
theorem held_read {result : Option OpenBlock × Option Frame} (held : Held pending)
    (went : Frame.read pending h payload = .ok result) : Held result.1 := by
  unfold Frame.read at went
  split at went
  · unfold Frame.continueBlock at went
    dsimp only at went
    split at went
    · cases went
    · split at went
      -- The block grows only where it stays within the cap.
      · next small =>
        split at went <;> cases went
        · exact held_none
        · exact fun c same => by cases same; exact small
      · cases went
  · cases went
  · next kind _ =>
    cases kind with
    | headers =>
      obtain ⟨body, -, rest⟩ := Frame.bind_ok went
      obtain ⟨⟨priority, block⟩, -, opened⟩ := Frame.bind_ok rest
      exact held_openBlock opened
    | pushPromise =>
      obtain ⟨body, -, rest⟩ := Frame.bind_ok went
      split at rest
      · exact held_openBlock rest
      · cases rest
    | continuation => cases went
    | settings | goAway =>
      simp only [Frame.readKind] at went
      split at went <;> cases went
      exact held_none
    | data | reset | windowUpdate | ping =>
      obtain ⟨_, -, same⟩ := Frame.bind_ok went
      cases same
      exact held_none
    | priority =>
      cases went
      exact held_none
  · cases went
    exact held_none

end Reading

/-! ### Buffers -/

def cut (limit : Nat) (buffer : Bytes) : Option Cut := do
  match ← header? buffer with
  | none => return .short
  | some h =>
    if limit < h.length then return .oversized h.length
    else
      let total ← sum WireHeader.size h.length
      if buffer.length < total then return .short
      else
        let rest ← after total buffer
        let frame ← before total buffer
        let payload ← after WireHeader.size frame
        return .whole h payload rest

theorem length_of_parse? {buffer : Bytes} {h : WireHeader} (found : WireHeader.parse? buffer = some h) :
    h.length < 2 ^ 24 := by
  unfold WireHeader.parse? at found
  split at found
  · next l₀ l₁ l₂ _ _ _ _ _ _ _ =>
    cases found
    have b₀ := l₀.toNat_lt
    have b₁ := l₁.toNat_lt
    have b₂ := l₂.toNat_lt
    simp only [Bytes.toNat, List.foldl_cons, List.foldl_nil]
    omega
  · cases found

theorem cut_eq (limit : Nat) (buffer : Bytes) : cut limit buffer = some (Frame.cut limit buffer) := by
  unfold cut Frame.cut
  rw [header?_eq]
  cases found : WireHeader.parse? buffer with
  | none => rfl
  | some h =>
    have short := length_of_parse? found
    dsimp only [bind, Option.bind]
    split
    · rfl
    · rw [sum_eq (by unfold WireHeader.size sizeBound; omega)]
      have enough := WireHeader.size_le_of_parse? found
      dsimp only
      by_cases whole : buffer.length < WireHeader.size + h.length
      · rw [if_pos whole, if_pos (by simp only [List.length_take, List.length_drop]; omega)]
        rfl
      · rw [if_neg whole, if_neg (by simp only [List.length_take, List.length_drop]; omega),
          after_eq (Nat.not_lt.mp whole), before_eq (Nat.not_lt.mp whole)]
        dsimp only
        rw [after_eq (by simp only [List.length_take]; omega), List.drop_take, List.drop_drop]
        simp

theorem length_of_cut {limit : Nat} {buffer payload rest : Bytes} {h : WireHeader}
    (found : Frame.cut limit buffer = .whole h payload rest) : payload.length < 2 ^ 24 := by
  unfold Frame.cut at found
  split at found
  · cases found
  · next parsed =>
    have short := length_of_parse? parsed
    split at found
    · cases found
    · dsimp only at found
      split at found <;> cases found
      rw [List.length_take]
      omega

/-- Reads the complete wire frames of `buffer`, after `done`. -/
def scan (limit : Nat) (pending : Option OpenBlock) (buffer : Bytes) (done : List Frame) : Option Scan :=
  match _found : cut limit buffer with
  | none => none
  | some .short => some { pending, buffer, failure := none, frames := done.reverse }
  | some (.oversized length) =>
    some { pending := none, buffer := [], failure := some (.frameTooLarge length limit), frames := done.reverse }
  | some (.whole h payload rest) =>
    match (read pending h payload).run with
    | none => none
    | some (.error failure) =>
      some { pending := none, buffer := [], failure := some failure, frames := done.reverse }
    | some (.ok (pending, frame)) => scan limit pending rest (frame.toList ++ done)
termination_by buffer.length
decreasing_by exact Frame.length_lt_of_cut (Option.some.inj ((cut_eq limit buffer).symm.trans (by assumption)))

theorem scan_of_cut (limit : Nat) (pending : Option OpenBlock) (buffer : Bytes) (done : List Frame) :
    scan limit pending buffer done =
      match Frame.cut limit buffer with
      | .short => some { pending, buffer, failure := none, frames := done.reverse }
      | .oversized length =>
        some { pending := none, buffer := [], failure := some (.frameTooLarge length limit), frames := done.reverse }
      | .whole h payload rest =>
        match (read pending h payload).run with
        | none => none
        | some (.error failure) =>
          some { pending := none, buffer := [], failure := some failure, frames := done.reverse }
        | some (.ok (pending, frame)) => scan limit pending rest (frame.toList ++ done) := by
  rw [scan]
  split
  · next found => cases (cut_eq limit buffer).symm.trans found
  all_goals
    next found =>
    rw [Option.some.inj ((cut_eq limit buffer).symm.trans found)]

theorem scan_eq (limit : Nat) {pending : Option OpenBlock} (buffer : Bytes) (done : List Frame)
    (held : Held pending) : scan limit pending buffer done = some (Frame.scan limit pending buffer done) := by
  fun_induction Frame.scan limit pending buffer done with
  | case1 pending buffer done found => rw [scan_of_cut, found]
  | case2 pending buffer done length found => rw [scan_of_cut, found]
  | case3 pending buffer done h payload rest found failure failed =>
    rw [scan_of_cut, found]
    dsimp only
    rw [read_eq held (length_of_cut found), failed]
    rfl
  | case4 pending buffer done h payload rest found pending' frame went ih =>
    rw [scan_of_cut, found]
    dsimp only
    rw [read_eq held (length_of_cut found), went]
    exact ih (held_read held went)

theorem held_scan (limit : Nat) {pending : Option OpenBlock} (buffer : Bytes) (done : List Frame)
    (held : Held pending) : Held (Frame.scan limit pending buffer done).pending := by
  fun_induction Frame.scan limit pending buffer done with
  | case1 => exact held
  | case2 | case3 => exact held_none
  | case4 _ _ _ _ _ _ _ _ _ went ih => exact ih (held_read held went)

/-! ### Pieces of input -/

def skipPreface (buffer : Bytes) : Option (Opening × Bytes) := do
  let n := min buffer.length Frame.preface.length
  let front ← before n buffer
  let expected ← before n Frame.preface
  if front = expected then
    if n < Frame.preface.length then return (.undecided, buffer)
    else
      let rest ← after Frame.preface.length buffer
      return (.preface, rest)
  else return (.frames, buffer)

theorem skipPreface_eq (buffer : Bytes) : skipPreface buffer = some (Frame.skipPreface buffer) := by
  unfold skipPreface Frame.skipPreface
  generalize Frame.preface = preface
  dsimp only
  rw [before_eq (Nat.min_le_left ..), before_eq (Nat.min_le_right ..)]
  dsimp only [bind, Option.bind]
  rcases Nat.lt_or_ge buffer.length preface.length with short | long
  · have apart : preface.isPrefixOf buffer = false := by
      refine Bool.eq_false_iff.mpr fun early => ?_
      exact Nat.not_le.mpr short (List.isPrefixOf_iff_prefix.mp early).length_le
    rw [Nat.min_eq_left (Nat.le_of_lt short), List.take_length, apart]
    by_cases early : buffer.isPrefixOf preface
    · have front := List.prefix_iff_eq_take.mp (List.isPrefixOf_iff_prefix.mp early)
      rw [if_pos front, if_pos short, early]
      rfl
    · have other : buffer ≠ preface.take buffer.length := fun same =>
        early (List.isPrefixOf_iff_prefix.mpr (List.prefix_iff_eq_take.mpr same))
      rw [if_neg other, Bool.eq_false_iff.mpr early]
      rfl
  · rw [Nat.min_eq_right long, List.take_length]
    by_cases early : preface.isPrefixOf buffer
    · have front := List.prefix_iff_eq_take.mp (List.isPrefixOf_iff_prefix.mp early)
      rw [if_pos front.symm, if_neg (Nat.lt_irrefl _), after_eq long, if_pos early]
      rfl
    · have other : buffer.take preface.length ≠ preface := fun same =>
        early (List.isPrefixOf_iff_prefix.mpr (List.prefix_iff_eq_take.mpr same.symm))
      have beyond : ¬ buffer.isPrefixOf preface = true := fun within => by
        have whole := (List.isPrefixOf_iff_prefix.mp within).eq_of_length_le long
        exact early (List.isPrefixOf_iff_prefix.mpr (whole ▸ List.prefix_refl _))
      rw [if_neg other, if_neg early, if_neg beyond]
      rfl

/-- How the input opens, and what is left of it. -/
def opened (d : Decoder) (input : Bytes) : Option (Opening × Bytes) :=
  if d.opening = .undecided then skipPreface input else some (d.opening, input)

theorem opened_eq (d : Decoder) (input : Bytes) : opened d input = some (d.opened input) := by
  unfold opened Decoder.opened
  split
  · exact skipPreface_eq input
  · rfl

/-- Reads the next piece of input. -/
def feed (d : Decoder) (bytes : Bytes) : Option (Decoder × List Frame) :=
  if d.failure.isSome then some (d, [])
  else do
    let (opening, buffer) ← opened d (d.buffer ++ bytes)
    if opening = .undecided then return ({ d with buffer }, [])
    else
      let scan ← scan d.limit d.pending buffer []
      return ({ d with opening, buffer := scan.buffer, pending := scan.pending, failure := scan.failure }, scan.frames)

/-- Whatever bytes come next, reading them stays within bounds. -/
theorem feed_eq {d : Decoder} (held : Held d.pending) (bytes : Bytes) : feed d bytes = some (d.feed bytes) := by
  unfold feed
  by_cases failed : d.failure.isSome
  · rw [if_pos failed, Decoder.feed_of_failed failed]
  · have going : d.failure = none := Option.not_isSome_iff_eq_none.mp failed
    rw [if_neg failed, opened_eq]
    dsimp only [bind, Option.bind]
    by_cases undecided : (d.opened (d.buffer ++ bytes)).1 = .undecided
    · rw [if_pos undecided, Decoder.feed_of_undecided going undecided, (Decoder.opened_undecided undecided).2]
      rfl
    · rw [if_neg undecided, Decoder.feed_of_decided going undecided, scan_eq d.limit _ [] held]
      rfl

theorem held_feed {d : Decoder} (held : Held d.pending) (bytes : Bytes) : Held (d.feed bytes).1.pending := by
  by_cases going : d.failure = none
  · by_cases undecided : (d.opened (d.buffer ++ bytes)).1 = .undecided
    · rw [Decoder.feed_of_undecided going undecided]
      exact held
    · rw [Decoder.feed_of_decided going undecided]
      exact held_scan d.limit _ [] held
  · rw [Decoder.feed_of_failed (Option.isSome_iff_ne_none.mpr going)]
    exact held

/-! ### Wire frames that are written -/

def split (n : Nat) (bytes : Bytes) : Option (Bytes × Bytes) :=
  if n ≤ bytes.length then some (bytes.take n, bytes.drop n) else none

theorem split_eq {n : Nat} {bytes : Bytes} (le : n ≤ bytes.length) :
    split n bytes = some (bytes.take n, bytes.drop n) := if_pos le

theorem split_min (n : Nat) (bytes : Bytes) :
    split (min bytes.length n) bytes = some (bytes.take n, bytes.drop n) := by
  have same : min (min bytes.length n) bytes.length = min n bytes.length := by omega
  rw [split_eq (Nat.min_le_left ..), List.take_eq_take_iff.mpr same, List.drop_eq_drop_iff.mpr same]

def wireFrame (kind : Kind) (flags : UInt8) (stream : Nat) (payload : Bytes) : Option Bytes := do
  let _ ← sum WireHeader.size payload.length
  return Frame.wireFrame kind flags stream payload

theorem wireFrame_eq (kind : Kind) (flags : UInt8) (stream : Nat) {payload : Bytes} (short : payload.length < 2 ^ 24) :
    wireFrame kind flags stream payload = some (Frame.wireFrame kind flags stream payload) := by
  rw [wireFrame, sum_eq (by unfold WireHeader.size sizeBound; omega)]
  rfl

theorem length_lt_of_split {limit : Nat} {rest fragment tail : Bytes} (more : ¬ rest.isEmpty = true)
    (positive : ¬ limit = 0) (found : split (min rest.length limit) rest = some (fragment, tail)) :
    tail.length < rest.length := by
  rw [split_min] at found
  obtain ⟨-, rfl⟩ := Prod.mk.inj (Option.some.inj found)
  have := List.length_pos_iff.mpr fun none => more (List.isEmpty_iff.mpr none)
  rw [List.length_drop]
  omega

/-- The CONTINUATION frames for `rest`, of at most `limit` bytes each. With a limit of zero there would be no end to
    them. -/
def continuations (stream limit : Nat) (rest : Bytes) : Option (List Bytes) :=
  if rest.isEmpty then some []
  else if limit = 0 then none
  else
    match _found : split (min rest.length limit) rest with
    | none => none
    | some (fragment, tail) => do
      let frame ← wireFrame .continuation (Flag.when Flag.endHeaders tail.isEmpty) stream fragment
      let frames ← continuations stream limit tail
      return frame :: frames
termination_by rest.length
decreasing_by exact length_lt_of_split (by assumption) (by assumption) (by assumption)

theorem continuations_eq (stream : Nat) {limit : Nat} (positive : limit ≠ 0) (short : limit < 2 ^ 24) (rest : Bytes) :
    continuations stream limit rest = some (Frame.continuations stream (Bytes.pieces limit rest)) := by
  fun_induction Bytes.pieces limit rest with
  | case1 =>
    rw [continuations]
    rfl
  | case2 b rest ih =>
    obtain ⟨less, rfl⟩ := Nat.exists_eq_succ_of_ne_zero positive
    rw [continuations, if_neg (by simp), if_neg positive]
    split
    · next none =>
      rw [split_min] at none
      cases none
    · next fragment tail found =>
      rw [split_min] at found
      obtain ⟨rfl, rfl⟩ := Prod.mk.inj (Option.some.inj found)
      rw [List.take_succ_cons, List.drop_succ_cons]
      have fits : (b :: rest.take less).length < 2 ^ 24 := by
        simp only [List.length_cons, List.length_take]
        omega
      have last : (rest.drop less).isEmpty = (Bytes.pieces (less + 1) (rest.drop less)).isEmpty := by
        cases rest.drop less <;> simp [Bytes.pieces_cons]
      rw [Nat.succ_sub_one] at ih ⊢
      rw [wireFrame_eq .continuation _ stream fits, last, ih]
      rfl

/-- The wire frames of a header block. -/
def blockFrames (kind : Kind) (flags : UInt8) (stream : Nat) (lead block : Bytes) (limit : Nat) :
    Option (List Bytes) := do
  let least ← sum lead.length 1
  let limit := max limit least
  let room ← difference limit lead.length
  let (first, rest) ← split (min block.length room) block
  let flags := (flags &&& ~~~Flag.endHeaders) ||| Flag.when Flag.endHeaders rest.isEmpty
  let frame ← wireFrame kind flags stream (lead ++ first)
  let frames ← continuations stream limit rest
  return frame :: frames

theorem blockFrames_eq (kind : Kind) (flags : UInt8) (stream : Nat) {lead : Bytes} (block : Bytes) {limit : Nat}
    (few : lead.length < 2 ^ 8) (short : limit < 2 ^ 24) :
    blockFrames kind flags stream lead block limit = some (Frame.blockFrames kind flags stream lead block limit) := by
  have least : sum lead.length 1 = some (lead.length + 1) := sum_eq (by unfold sizeBound; omega)
  have room : difference (max limit (lead.length + 1)) lead.length = some (max limit (lead.length + 1) - lead.length) :=
    difference_eq (by omega)
  have first : (lead ++ block.take (max limit (lead.length + 1) - lead.length)).length < 2 ^ 24 := by
    simp only [List.length_append, List.length_take]
    omega
  have others (rest : Bytes) : continuations stream (max limit (lead.length + 1)) rest =
      some (Frame.continuations stream (Bytes.pieces (max limit (lead.length + 1)) rest)) :=
    continuations_eq stream (by omega) (by omega) rest
  simp only [blockFrames, least, room, split_min, wireFrame_eq kind _ stream first, others, bind, Option.bind]
  rfl

/-- The wire frames of a frame. -/
def wire (limit : Nat) (frame : Frame) : Option (List Bytes) :=
  match frame with
  | .data stream payload final => do
    let frame ← wireFrame .data (Flag.when Flag.endStream final) stream payload
    return [frame]
  | .headers stream block final priority flags =>
    let flags := flags ||| Flag.when Flag.endStream final ||| Flag.when Flag.priority priority.isSome
    blockFrames .headers flags stream (priority.elim [] Dependency.bytes) block limit
  | .pushPromise stream promised block => blockFrames .pushPromise 0 stream (Bytes.ofNat 4 (low31 promised)) block limit
  | .settings false params => do
    let length ← product params.length 6
    let _ ← sum WireHeader.size length
    return [Frame.wireFrame .settings 0 0 (params.flatMap Setting.bytes)]
  | frame => some (frame.wire limit)

/-- A frame whose length does not come from a peer alone. -/
def Moderate : Frame → Prop
  | .data _ payload _ => payload.length < 2 ^ 24
  | .settings _ params => params.length < 2 ^ 16
  | _ => True

theorem wire_eq {frame : Frame} (moderate : Moderate frame) {limit : Nat} (short : limit < 2 ^ 24) :
    wire limit frame = some (frame.wire limit) := by
  cases frame with
  | data stream payload final =>
    rw [wire, wireFrame_eq .data _ stream moderate]
    rfl
  | headers stream block final priority flags =>
    refine blockFrames_eq .headers _ stream block ?_ short
    cases priority <;> simp [Dependency.bytes]
  | pushPromise stream promised block => exact blockFrames_eq .pushPromise 0 stream block (by simp) short
  | settings ack params =>
    cases ack with
    | true => rfl
    | false =>
      have few : params.length < 2 ^ 16 := moderate
      rw [wire, product_eq (by unfold sizeBound; omega)]
      dsimp only [bind, Option.bind]
      rw [sum_eq (by unfold WireHeader.size sizeBound; omega)]
      rfl
  | _ => rfl

/-- The wire frames of a frame that waits, and the sender's header table after it. -/
def outgoing (limit : Nat) (table : Hpack.Table) : Outgoing → Option (Hpack.Table × List Bytes)
  | .frame f => do
    let frames ← wire limit f
    return (table, frames)
  | .headers stream list final priority => do
    let (table, block) := Header.encodeBlock table list
    let frames ← wire limit (.headers stream block final priority 0)
    return (table, frames)
  | .pushPromise stream promised list => do
    let (table, block) := Header.encodeBlock table list
    let frames ← wire limit (.pushPromise stream promised block)
    return (table, frames)

/-- Writing a frame that waits stays within bounds. -/
theorem outgoing_eq {f : Outgoing} (moderate : ∀ frame, f = .frame frame → Moderate frame) {limit : Nat}
    (short : limit < 2 ^ 24) (table : Hpack.Table) : outgoing limit table f = some (f.wire limit table) := by
  cases f with
  | frame frame =>
    rw [outgoing, wire_eq (moderate frame rfl) short]
    rfl
  | headers stream list final priority =>
    have moderate (block : Bytes) : Moderate (.headers stream block final priority 0) := trivial
    simp only [outgoing, wire_eq (moderate _) short]
    rfl
  | pushPromise stream promised list =>
    have moderate (block : Bytes) : Moderate (.pushPromise stream promised block) := trivial
    simp only [outgoing, wire_eq (moderate _) short]
    rfl

end Checked

end Multiplex
