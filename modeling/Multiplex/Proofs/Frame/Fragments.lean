import Multiplex.Proofs.Frame.Chunking
import Multiplex.Proofs.Frame.Wire

/-! # Padding and fragments

A frame can be put on the wire in many ways: its payload may be padded, and a header block may be cut at any places and
go on in CONTINUATION frames. A decoder takes the padding off (`unpad_pad`) and puts the fragments together
(`scan_fragmentFrames`), so that it gives the same frame in each case (`padding_transparent`). A block that is
interrupted, and padding that leaves no room for the payload, end the reading. -/

namespace Multiplex.Frame

open WireHeader (low31)

/-! ### Padding -/

/-- A payload with its padding, if it has any: the length of the padding stands in front, the padding behind. -/
def pad : Option Bytes → Bytes → Bytes
  | none, body => body
  | some padding, body => UInt8.ofNat padding.length :: body ++ padding

/-- Padding is taken off, provided that its length fits a byte and the flags tell of it. -/
theorem unpad_pad {kind : Kind} {flags : UInt8} {padding : Option Bytes}
    (announced : Flag.isSet Flag.padded flags = padding.isSome) (short : ∀ p ∈ padding, p.length < 256) (body : Bytes) :
    unpad kind flags (pad padding body) = .ok body := by
  cases padding with
  | none => simp [unpad, pad, announced]
  | some p =>
    have count : (UInt8.ofNat p.length).toNat = p.length := UInt8.toNat_ofNat_of_lt' (short p rfl)
    simp [unpad, pad, announced, count]

/-- What a payload has to hold beside its padding: the dependency of a HEADERS frame, the number of a promised
    stream. -/
def leadSize (kind : Kind) (flags : UInt8) : Nat :=
  match kind with
  | .headers => if Flag.isSet Flag.priority flags then 5 else 0
  | .pushPromise => 4
  | _ => 0

/-- The padding of a padded payload leaves no room for what the payload has to hold. -/
def Overfull (kind : Kind) (flags : UInt8) : Bytes → Prop
  | [] => True
  | count :: body => body.length < count.toNat + leadSize kind flags

instance (kind : Kind) (flags : UInt8) : (payload : Bytes) → Decidable (Overfull kind flags payload)
  | [] => .isTrue trivial
  | _ :: _ => inferInstanceAs (Decidable (_ < _))

/-- The kinds of wire frame that may be padded. -/
def Kind.mayPad (kind : Kind) : Bool := kind = .data || kind = .headers || kind = .pushPromise

theorem read_known (kind : Kind) (length stream : Nat) (flags : UInt8) (payload : Bytes) :
    read none { length, kind := kind.code, flags, stream } payload =
      readKind kind { length, kind := kind.code, flags, stream } payload := by
  simp [read]

/-- A DATA frame is read as what was padded. -/
theorem read_data (stream : Nat) {flags : UInt8} (padding : Option Bytes)
    (announced : Flag.isSet Flag.padded flags = padding.isSome) (short : ∀ p ∈ padding, p.length < 256)
    (length : Nat) (body : Bytes) :
    read none { length, kind := Kind.data.code, flags, stream } (pad padding body) =
      .ok (none, some (.data stream body (Flag.isSet Flag.endStream flags))) := by
  rw [read_known]
  simp only [readKind, unpad_pad announced short]
  rfl

/-- Padding that leaves too little room is refused. -/
theorem unpad_of_overfull {kind : Kind} {flags : UInt8} {payload : Bytes} (padded : Flag.isSet Flag.padded flags = true)
    (overfull : Overfull kind flags payload) :
    (∃ e, unpad kind flags payload = .error e ∧ (e = .frameTooShort kind ∨ e = .badPadding kind)) ∨
      ∃ body, unpad kind flags payload = .ok body ∧ body.length < leadSize kind flags := by
  cases payload with
  | nil => exact .inl ⟨_, by simp [unpad, padded], .inl rfl⟩
  | cons count body =>
    unfold Overfull at overfull
    by_cases fits : count.toNat ≤ body.length
    · refine .inr ⟨body.take (body.length - count.toNat), by simp [unpad, padded, fits], ?_⟩
      rw [List.length_take]
      omega
    · exact .inl ⟨_, by simp [unpad, padded, fits], .inr rfl⟩

theorem splitDependency_of_short {flags : UInt8} {payload : Bytes} (ranked : Flag.isSet Flag.priority flags = true)
    (short : payload.length < 5) : splitDependency flags payload = .error (.frameTooShort .headers) := by
  unfold splitDependency
  rw [if_pos ranked]
  split
  · simp at short
    omega
  · rfl

theorem read_of_overfull {kind : Kind} (may : kind.mayPad) (length stream : Nat) {flags : UInt8} {payload : Bytes}
    (padded : Flag.isSet Flag.padded flags = true) (overfull : Overfull kind flags payload) :
    ∃ e, read none { length, kind := kind.code, flags, stream } payload = .error e ∧
      (e = .frameTooShort kind ∨ e = .badPadding kind) := by
  rw [read_known]
  rcases unpad_of_overfull padded overfull with ⟨e, refused, named⟩ | ⟨body, unpadded, short⟩
  · refine ⟨e, ?_, named⟩
    cases kind with
    | data | headers | pushPromise => simp only [readKind, refused, bind, Except.bind]
    | _ => cases may
  · refine ⟨_, ?_, .inl rfl⟩
    cases kind with
    | data => exact absurd short (Nat.not_lt_zero _)
    | headers =>
      unfold leadSize at short
      dsimp only at short
      split at short
      · next ranked => simp only [readKind, unpadded, bind, Except.bind, splitDependency_of_short ranked short]
      · exact absurd short (Nat.not_lt_zero _)
    | pushPromise =>
      simp only [readKind, unpadded, bind, Except.bind]
      split
      · simp [leadSize] at short
        omega
      · rfl
    | _ => cases may

/-! ### How header blocks begin -/

/-- The flags of the first wire frame of a header block: END_HEADERS is among them if the block is whole. -/
def blockFlags (flags : UInt8) (whole : Bool) : UInt8 :=
  (flags &&& ~~~Flag.endHeaders) ||| Flag.when Flag.endHeaders whole

theorem isSet_blockFlags {flag : UInt8} (kept : ~~~Flag.endHeaders &&& flag = flag)
    (apart : Flag.endHeaders &&& flag = 0) (flags : UInt8) (whole : Bool) :
    Flag.isSet flag (blockFlags flags whole) = Flag.isSet flag flags := by
  rw [blockFlags, Flag.isSet_or, Flag.isSet_without kept, Flag.isSet_when_other apart, Bool.or_false]

theorem isSet_endHeaders_blockFlags (flags : UInt8) (whole : Bool) :
    Flag.isSet Flag.endHeaders (blockFlags flags whole) = whole := by
  rw [blockFlags, Flag.isSet_or, Flag.isSet_removed, Flag.isSet_when (by decide), Bool.false_or]

theorem toNat_low31 {n : Nat} (narrow : n < 2 ^ 31) : low31 (Bytes.toNat (Bytes.ofNat 4 (low31 n))) = n := by
  rw [WireHeader.low31_of_lt narrow, Bytes.toNat_ofNat 4 _ (by omega), WireHeader.low31_of_lt narrow]

theorem splitDependency_bytes {flags : UInt8} (priority : Option Dependency)
    (announced : Flag.isSet Flag.priority flags = priority.isSome)
    (narrow : ∀ d ∈ priority, d.parent < 2 ^ 31) (fragment : Bytes) :
    splitDependency flags (priority.elim [] Dependency.bytes ++ fragment) = .ok (priority, fragment) := by
  cases priority with
  | none => simp [splitDependency, announced]
  | some d =>
    obtain ⟨parent, exclusive, weight⟩ := d
    have fits : parent < 2 ^ 31 := narrow _ rfl
    have number := Bytes.toNat_ofNat 4 (low31 parent + if exclusive then 0x80000000 else 0) (by
      rw [WireHeader.low31_of_lt fits]
      split <;> omega)
    simp only [Bytes.ofNat, List.nil_append, List.cons_append] at number
    simp only [splitDependency, announced, Option.isSome_some, if_true, Option.elim_some, Dependency.bytes,
      Bytes.ofNat, List.nil_append, List.cons_append, number]
    rw [WireHeader.low31_of_lt fits]
    cases exclusive with
    | true => simp [low31]; omega
    | false => simp [low31]; omega

/-- What a header block opens with: a HEADERS frame and how it ranks its stream, or a PUSH_PROMISE frame and the
    stream that it promises. -/
inductive Opener where
  | headers (priority : Option Dependency)
  | promise (promised : Nat)

namespace Opener

def kind : Opener → Kind
  | headers _ => .headers
  | promise _ => .pushPromise

/-- What stands before the block. -/
def lead : Opener → Bytes
  | headers priority => priority.elim [] Dependency.bytes
  | promise promised => Bytes.ofNat 4 (low31 promised)

/-- The numbers fit, and the flags of the wire frame tell whether it ranks its stream. -/
def Fits (flags : UInt8) : Opener → Prop
  | headers priority => Flag.isSet Flag.priority flags = priority.isSome ∧ ∀ d ∈ priority, d.parent < 2 ^ 31
  | promise promised => promised < 2 ^ 31

/-- The frame of a block that opens with a wire frame with these flags. -/
def frame (stream : Nat) (flags : UInt8) (block : Bytes) : Opener → Frame
  | headers priority => .headers stream block (Flag.isSet Flag.endStream flags) priority flags
  | promise promised => .pushPromise stream promised block

/-- What is open once its first fragment has been read. -/
def opened (stream : Nat) (flags : UInt8) (fragment : Bytes) : Opener → OpenBlock
  | headers priority =>
    { stream, promised := none, final := Flag.isSet Flag.endStream flags, priority, flags, block := fragment }
  | promise promised =>
    { stream, promised := some promised, final := false, priority := none, flags, block := fragment }

variable (o : Opener) (stream : Nat) (flags : UInt8) (block : Bytes)

@[simp] theorem stream_opened : (o.opened stream flags block).stream = stream := by cases o <;> rfl

@[simp] theorem block_opened : (o.opened stream flags block).block = block := by cases o <;> rfl

@[simp] theorem frame_opened : (o.opened stream flags block).frame = o.frame stream flags block := by cases o <;> rfl

@[simp] theorem opened_with (whole : Bytes) :
    { o.opened stream flags block with block := whole } = o.opened stream flags whole := by cases o <;> rfl

variable {o flags} in
theorem Fits.blockFlags (fits : o.Fits flags) (whole : Bool) : o.Fits (blockFlags flags whole) := by
  cases o with
  | headers priority => exact ⟨(isSet_blockFlags (by decide) (by decide) flags whole).trans fits.1, fits.2⟩
  | promise promised => exact fits

/-- The first wire frame of a header block opens the block, whether or not it is padded. -/
theorem read_pad {o : Opener} (stream : Nat) {flags : UInt8} (fits : o.Fits flags) (padding : Option Bytes)
    (announced : Flag.isSet Flag.padded flags = padding.isSome) (short : ∀ p ∈ padding, p.length < 256)
    (length : Nat) (fragment : Bytes) :
    read none { length, kind := o.kind.code, flags, stream } (pad padding (o.lead ++ fragment)) =
      openBlock (o.opened stream flags fragment) (Flag.isSet Flag.endHeaders flags) := by
  rw [read_known]
  cases o with
  | headers priority =>
    simp only [kind, lead, readKind, unpad_pad announced short, bind, Except.bind,
      splitDependency_bytes priority fits.1 fits.2]
    rfl
  | promise promised =>
    have number := toNat_low31 fits
    simp only [Bytes.ofNat, List.nil_append, List.cons_append] at number
    simp only [kind, lead, readKind, unpad_pad announced short, bind, Except.bind, Bytes.ofNat, List.nil_append,
      List.cons_append, number]
    rfl

end Opener

/-! ### Fragments -/

/-- A fragment of a header block, and the flags of the CONTINUATION frame that carries it. Whether END_HEADERS is
    among them depends on what comes behind. -/
structure Fragment where
  flags : UInt8
  bytes : Bytes

/-- The bytes of fragments, joined. -/
def Fragment.join (fragments : List Fragment) : Bytes := fragments.flatMap (·.bytes)

/-- The CONTINUATION frames of fragments. The last of them ends the block, if it ends here. -/
def fragmentFrames (stream : Nat) (ends : Bool) : List Fragment → List Bytes
  | [] => []
  | f :: rest =>
    wireFrame .continuation (blockFlags f.flags (ends && rest.isEmpty)) stream f.bytes ::
      fragmentFrames stream ends rest

/-- A CONTINUATION frame brings an open block further, and ends it if it says so. -/
theorem read_continuation (b : OpenBlock) (flags : UInt8) (length : Nat) {fragment : Bytes}
    (bounded : (b.block ++ fragment).length ≤ OpenBlock.limit) :
    read (some b) { length, kind := Kind.continuation.code, flags, stream := b.stream } fragment =
      .ok (if Flag.isSet Flag.endHeaders flags then (none, some { b with block := b.block ++ fragment }.frame)
        else (some { b with block := b.block ++ fragment }, none)) := by
  simp only [read, Kind.ofCode?_code, continueBlock, ne_eq, not_true_eq_false, if_false, if_pos bounded,
    WireHeader.endsHeaders]
  exact (apply_ite Except.ok _ _ _).symm

section Scans
variable {limit : Nat}

/-- CONTINUATION frames put an open block together and end it. -/
theorem scan_fragmentFrames (small : limit < 2 ^ 24) {b : OpenBlock} (narrow : b.stream < 2 ^ 31) {f : Fragment}
    {others : List Fragment} (allowed : ∀ g ∈ f :: others, g.bytes.length ≤ limit)
    (bounded : (b.block ++ Fragment.join (f :: others)).length ≤ OpenBlock.limit) (rest : Bytes) (done : List Frame) :
    scan limit (some b) ((fragmentFrames b.stream true (f :: others)).flatten ++ rest) done =
      scan limit none rest ({ b with block := b.block ++ Fragment.join (f :: others) }.frame :: done) := by
  induction others generalizing b f with
  | nil =>
    have first := allowed f List.mem_cons_self
    have joined : Fragment.join [f] = f.bytes := List.append_nil _
    rw [joined] at bounded ⊢
    have read := read_continuation b (blockFlags f.flags true) f.bytes.length bounded
    rw [isSet_endHeaders_blockFlags, if_pos rfl] at read
    rw [fragmentFrames, fragmentFrames, List.flatten_singleton]
    exact scan_of_ok (cut_of_le small first narrow rest) read
  | cons next later ih =>
    obtain ⟨first, others⟩ := List.forall_mem_cons.mp allowed
    have joined : Fragment.join (f :: next :: later) = f.bytes ++ Fragment.join (next :: later) := rfl
    rw [joined, ← List.append_assoc] at bounded ⊢
    have fits : (b.block ++ f.bytes).length ≤ OpenBlock.limit := by
      rw [List.length_append] at bounded
      omega
    have read := read_continuation b (blockFlags f.flags false) f.bytes.length fits
    rw [isSet_endHeaders_blockFlags, if_neg nofun] at read
    rw [fragmentFrames, List.flatten_cons, List.append_assoc]
    refine (scan_of_ok (cut_of_le small first narrow _) read).trans ?_
    exact ih (b := { b with block := b.block ++ f.bytes }) narrow others bounded

theorem Kind.code_of_ofCode? {code : UInt8} {kind : Kind} (known : ofCode? code = some kind) : kind.code = code := by
  simpa using List.find?_some known

/-- While a block is open, a wire frame that is not of it ends the reading. -/
theorem read_intruder {b : OpenBlock} {h : WireHeader}
    (other : h.kind ≠ Kind.continuation.code ∨ h.stream ≠ b.stream) (payload : Bytes) :
    ∃ e, read (some b) h payload = .error e := by
  unfold read
  split
  · next b' same known =>
    obtain rfl := Option.some.inj same
    have apart : b.stream ≠ h.stream := by
      rcases other with kind | stream
      · exact absurd (Kind.code_of_ofCode? known).symm kind
      · exact stream.symm
    exact ⟨_, if_pos apart⟩
  · exact ⟨_, rfl⟩
  · next none _ => cases none
  · next none _ => cases none

/-- A CONTINUATION frame that does not end its block leaves it open, if it does not end the reading. -/
theorem of_read_part {b : OpenBlock} {flags : UInt8} {length : Nat} {fragment : Bytes}
    {result : Option OpenBlock × Option Frame}
    (went : read (some b)
      { length, kind := Kind.continuation.code, flags := blockFlags flags false, stream := b.stream } fragment =
        .ok result) :
    result = (some { b with block := b.block ++ fragment }, none) := by
  by_cases fits : (b.block ++ fragment).length ≤ OpenBlock.limit
  · rw [read_continuation b _ length fits, isSet_endHeaders_blockFlags] at went
    exact (Except.ok.inj went).symm
  · simp only [read, Kind.ofCode?_code, continueBlock, ne_eq, not_true_eq_false, if_false, if_neg fits] at went
    cases went

/-- What has failed has given nothing more. -/
def Scan.Fails (r : Scan) (done : List Frame) : Prop :=
  ∃ e, r = { pending := none, buffer := [], failure := some e, frames := done.reverse }

/-- A wire frame ends the reading, or it is read and the reading goes on with what is behind it. -/
theorem scan_bytes (limit : Nat) (pending : Option OpenBlock) {h : WireHeader} {payload : Bytes}
    (whole : payload.length = h.length) (short : h.length < 2 ^ 24) (narrow : h.stream < 2 ^ 31) (rest : Bytes)
    (done : List Frame) :
    (scan limit pending (h.bytes ++ payload ++ rest) done).Fails done ∨
      ∃ pending' frame, read pending h payload = .ok (pending', frame) ∧
        scan limit pending (h.bytes ++ payload ++ rest) done = scan limit pending' rest (frame.toList ++ done) := by
  have cut := cut_bytes limit whole short narrow rest
  by_cases large : limit < h.length
  · rw [if_pos large] at cut
    exact .inl ⟨_, scan_of_oversized cut⟩
  · rw [if_neg large] at cut
    cases went : read pending h payload with
    | error e => exact .inl ⟨e, scan_of_error cut went⟩
    | ok result => exact .inr ⟨result.1, result.2, rfl, scan_of_ok cut went⟩

/-- Nothing comes of a block that is interrupted before it has ended. -/
theorem fails_scan_interrupted (limit : Nat) {b : OpenBlock} (narrow : b.stream < 2 ^ 31) {fragments : List Fragment}
    (sized : ∀ f ∈ fragments, f.bytes.length < 2 ^ 24) {h : WireHeader} {payload : Bytes}
    (whole : payload.length = h.length) (short : h.length < 2 ^ 24) (narrow' : h.stream < 2 ^ 31)
    (other : h.kind ≠ Kind.continuation.code ∨ h.stream ≠ b.stream) (more : Bytes) (done : List Frame) :
    (scan limit (some b) ((fragmentFrames b.stream false fragments).flatten ++ (h.bytes ++ payload ++ more))
      done).Fails done := by
  induction fragments generalizing b with
  | nil =>
    rw [fragmentFrames, List.flatten_nil, List.nil_append]
    rcases scan_bytes limit (some b) whole short narrow' more done with fails | ⟨pending, frame, went, -⟩
    · exact fails
    · obtain ⟨e, refused⟩ := read_intruder other payload
      exact absurd (went.symm.trans refused) nofun
  | cons f rest ih =>
    obtain ⟨first, others⟩ := List.forall_mem_cons.mp sized
    rw [fragmentFrames, List.flatten_cons, List.append_assoc]
    let head : WireHeader :=
      { length := f.bytes.length, kind := Kind.continuation.code, flags := blockFlags f.flags false,
        stream := b.stream }
    rcases scan_bytes limit (some b) (h := head) rfl first narrow _ done with fails | ⟨pending, frame, went, goes⟩
    · exact fails
    · obtain ⟨rfl, rfl⟩ := Prod.mk.inj (of_read_part went)
      exact Eq.subst (motive := (Scan.Fails · done)) goes.symm
        (ih (b := { b with block := b.block ++ f.bytes }) narrow others other)

end Scans

/-! ### Ways to write a header block -/

/-- A way to put a frame with a header block on the wire: with padding or without, and with the block cut into a
    first fragment and others. -/
structure Spread where
  opener : Opener
  stream : Nat
  /-- The flags of the first wire frame, END_HEADERS apart. -/
  flags : UInt8
  padding : Option Bytes
  first : Bytes
  others : List Fragment

namespace Spread

/-- The wire frames, with the last of which the block ends, if it ends at all. -/
def wire (s : Spread) (ends : Bool) : List Bytes :=
  wireFrame s.opener.kind (blockFlags s.flags (ends && s.others.isEmpty)) s.stream
      (pad s.padding (s.opener.lead ++ s.first)) ::
    fragmentFrames s.stream ends s.others

def payloads (s : Spread) : List Bytes := pad s.padding (s.opener.lead ++ s.first) :: s.others.map (·.bytes)

theorem map_length_fragmentFrames (stream : Nat) (ends : Bool) (fragments : List Fragment) :
    (fragmentFrames stream ends fragments).map List.length =
      fragments.map fun f => WireHeader.size + f.bytes.length := by
  induction fragments with
  | nil => rfl
  | cons f rest ih => rw [fragmentFrames, List.map_cons, List.map_cons, ih, length_wireFrame]

theorem map_length_wire (s : Spread) (ends : Bool) :
    (s.wire ends).map List.length = s.payloads.map fun p => WireHeader.size + p.length := by
  rw [wire, payloads, List.map_cons, List.map_cons, length_wireFrame, map_length_fragmentFrames, List.map_map]
  rfl

/-- The bound on the wire frames is one on their payloads. -/
theorem payloads_le {s : Spread} {ends : Bool} {n : Nat}
    (bounded : ∀ w ∈ s.wire ends, w.length ≤ WireHeader.size + n) : ∀ p ∈ s.payloads, p.length ≤ n := by
  intro p member
  have listed : WireHeader.size + p.length ∈ (s.wire ends).map List.length :=
    s.map_length_wire ends ▸ List.mem_map_of_mem member
  obtain ⟨w, inside, same⟩ := List.mem_map.mp listed
  have := bounded w inside
  omega

theorem one_lt_length_wire {s : Spread} {ends : Bool} (more : s.others ≠ []) : 1 < (s.wire ends).length := by
  have counted := congrArg List.length (s.map_length_wire ends)
  have := List.length_pos_iff.mpr more
  simp only [List.length_map, payloads, List.length_cons] at counted
  omega

def block (s : Spread) : Bytes := s.first ++ Fragment.join s.others

def frame (s : Spread) : Frame := s.opener.frame s.stream (blockFlags s.flags s.others.isEmpty) s.block

/-- The numbers fit, and the flags of the first wire frame tell what is in it. -/
structure Proper (s : Spread) : Prop where
  narrow : s.stream < 2 ^ 31
  fits : s.opener.Fits s.flags
  announced : Flag.isSet Flag.padded s.flags = s.padding.isSome
  short : ∀ p ∈ s.padding, p.length < 256

variable {s : Spread} {limit : Nat}

/-- The first wire frame opens the block. -/
theorem Proper.read (proper : s.Proper) (length : Nat) (whole : Bool) :
    Frame.read none { length, kind := s.opener.kind.code, flags := blockFlags s.flags whole, stream := s.stream }
        (pad s.padding (s.opener.lead ++ s.first)) =
      openBlock (s.opener.opened s.stream (blockFlags s.flags whole) s.first) whole := by
  have announced : Flag.isSet Flag.padded (blockFlags s.flags whole) = s.padding.isSome :=
    (isSet_blockFlags (by decide) (by decide) _ _).trans proper.announced
  rw [Opener.read_pad s.stream (proper.fits.blockFlags whole) s.padding announced proper.short,
    isSet_endHeaders_blockFlags]

/-- However a header block is put on the wire, it is read as the one frame. -/
theorem Proper.scan (proper : s.Proper) (small : limit < 2 ^ 24) (allowed : ∀ p ∈ s.payloads, p.length ≤ limit)
    (bounded : s.others ≠ [] → s.block.length ≤ OpenBlock.limit) (rest : Bytes) (done : List Frame) :
    Frame.scan limit none ((s.wire true).flatten ++ rest) done = Frame.scan limit none rest (s.frame :: done) := by
  obtain ⟨head, tail⟩ := List.forall_mem_cons.mp allowed
  rw [wire, Bool.true_and, List.flatten_cons, List.append_assoc]
  cases behind : s.others with
  | nil =>
    have opens := proper.read (pad s.padding (s.opener.lead ++ s.first)).length true
    have whole : s.frame = (s.opener.opened s.stream (blockFlags s.flags true) s.first).frame := by
      rw [Opener.frame_opened, frame, block, behind, Fragment.join, List.flatMap_nil, List.append_nil]
      rfl
    rw [whole]
    exact scan_of_ok (cut_of_le small head proper.narrow _) opens
  | cons f others =>
    have large : s.block.length ≤ OpenBlock.limit := bounded (by simp [behind])
    have part : s.first.length ≤ OpenBlock.limit := by
      rw [block, List.length_append] at large
      omega
    have opens := proper.read (pad s.padding (s.opener.lead ++ s.first)).length false
    rw [openBlock, if_neg nofun, Opener.block_opened, if_pos part] at opens
    have allowed : ∀ g ∈ f :: others, g.bytes.length ≤ limit := fun g member =>
      tail g.bytes (List.mem_map_of_mem (behind ▸ member))
    have went := scan_fragmentFrames small (b := s.opener.opened s.stream (blockFlags s.flags false) s.first)
      (by simpa using proper.narrow) allowed (by simpa [block, behind] using large) rest done
    rw [Opener.block_opened, Opener.opened_with, Opener.frame_opened, Opener.stream_opened] at went
    refine (scan_of_ok (cut_of_le small head proper.narrow _) opens).trans (went.trans ?_)
    rw [frame, block, behind]
    rfl

/-- Nothing comes of a header block that is interrupted. -/
theorem Proper.fails_scan (proper : s.Proper) (limit : Nat) (sized : ∀ p ∈ s.payloads, p.length < 2 ^ 24)
    {h : WireHeader} {payload : Bytes} (whole : payload.length = h.length) (short : h.length < 2 ^ 24)
    (narrow : h.stream < 2 ^ 31) (other : h.kind ≠ Kind.continuation.code ∨ h.stream ≠ s.stream) (more : Bytes)
    (done : List Frame) :
    (Frame.scan limit none ((s.wire false).flatten ++ (h.bytes ++ payload ++ more)) done).Fails done := by
  obtain ⟨head, tail⟩ := List.forall_mem_cons.mp sized
  have opens := proper.read (pad s.padding (s.opener.lead ++ s.first)).length false
  rw [wire, Bool.false_and, List.flatten_cons, List.append_assoc]
  rcases scan_bytes limit none (h := ⟨_, s.opener.kind.code, blockFlags s.flags false, s.stream⟩) rfl head proper.narrow
    _ done with fails | ⟨pending, frame, went, goes⟩
  · exact fails
  · rw [opens, openBlock, if_neg nofun] at went
    split at went
    · cases went
      refine Eq.subst (motive := (Scan.Fails · done)) goes.symm ?_
      have sized : ∀ f ∈ s.others, f.bytes.length < 2 ^ 24 := fun f member =>
        tail f.bytes (List.mem_map_of_mem member)
      have part := fails_scan_interrupted limit (b := s.opener.opened s.stream (blockFlags s.flags false) s.first)
        (by simpa using proper.narrow) sized whole short narrow (by simpa using other) more done
      rwa [Opener.stream_opened] at part
    · cases went

end Spread

/-! ### Decoders -/

namespace Decoder

/-- A decoder that has read all its input and can go on: the next byte begins a wire frame. -/
structure Aligned (d : Decoder) : Prop where
  going : d.failure = none
  empty : d.buffer = []
  legal : d.limit ≤ greatestLimit

theorem aligned_start (limit : Nat) : (start limit).Aligned where
  going := rfl
  empty := rfl
  legal := Nat.min_le_right ..

/-- The decoder once it knows that it reads frames. -/
def begun (d : Decoder) : Decoder := { d with opening := if d.opening = .undecided then .frames else d.opening }

/-- The input ends the reading: it gives no frame, and nothing that comes later does. -/
def Breaks (d : Decoder) (bytes : Bytes) : Prop :=
  (d.feed bytes).1.failure.isSome ∧ (d.feed bytes).2 = [] ∧
    ∀ later, (d.feed bytes).1.feed later = ((d.feed bytes).1, [])

variable {d : Decoder} {kind : Kind} {flags : UInt8} {stream : Nat} {payload more : Bytes}

theorem opened_wireFrame (d : Decoder) (kind : Kind) (flags : UInt8) (stream : Nat) (payload more : Bytes) :
    d.opened (wireFrame kind flags stream payload ++ more) =
      (d.begun.opening, wireFrame kind flags stream payload ++ more) := by
  unfold opened begun
  split
  · exact skipPreface_wireFrame kind flags stream payload more
  · rfl

theorem opening_begun (d : Decoder) : d.begun.opening ≠ .undecided := by
  unfold begun
  split
  · exact nofun
  · assumption

namespace Aligned

/-- Wire frames are scanned as they come. -/
theorem feed (aligned : d.Aligned) :
    d.feed (wireFrame kind flags stream payload ++ more) =
      let scan := scan d.limit d.pending (wireFrame kind flags stream payload ++ more) []
      ({ d.begun with buffer := scan.buffer, pending := scan.pending, failure := scan.failure }, scan.frames) := by
  have opened := d.opened_wireFrame kind flags stream payload more
  rw [← List.nil_append (wireFrame kind flags stream payload ++ more), ← aligned.empty] at opened
  rw [feed_of_decided aligned.going (by rw [opened]; exact opening_begun d), opened, aligned.empty]
  rfl

/-- Input that is scanned as one frame and no more gives that frame, and leaves nothing behind. -/
theorem feed_single (aligned : d.Aligned) (closed : d.pending = none) {frame : Frame}
    (scanned : Frame.scan d.limit none (wireFrame kind flags stream payload ++ more) [] =
      Frame.scan d.limit none [] [frame]) :
    d.feed (wireFrame kind flags stream payload ++ more) = (d.begun, [frame]) := by
  rw [aligned.feed, closed, scanned, scan_of_short (show cut d.limit [] = .short from rfl)]
  obtain ⟨opening, limit, buffer, pending, failure⟩ := d
  obtain ⟨rfl, rfl, -⟩ := aligned
  cases closed
  rfl

/-- A header block is read as one frame, however it is put on the wire. -/
theorem feed_wire (aligned : d.Aligned) (closed : d.pending = none) {s : Spread} (proper : s.Proper)
    (allowed : ∀ p ∈ s.payloads, p.length ≤ d.limit) (bounded : s.others ≠ [] → s.block.length ≤ OpenBlock.limit) :
    d.feed (s.wire true).flatten = (d.begun, [s.frame]) := by
  have small : d.limit < 2 ^ 24 := Nat.lt_of_le_of_lt aligned.legal (by decide)
  have scanned := proper.scan small allowed bounded [] []
  rw [List.append_nil] at scanned
  exact aligned.feed_single closed scanned

theorem breaks (aligned : d.Aligned)
    (fails : (Frame.scan d.limit d.pending (wireFrame kind flags stream payload ++ more) []).Fails []) :
    d.Breaks (wireFrame kind flags stream payload ++ more) := by
  obtain ⟨e, same⟩ := fails
  rw [Breaks, aligned.feed, same]
  exact ⟨rfl, rfl, feed_of_failed rfl⟩

end Aligned

end Decoder

theorem code_ne_continuation {kind : Kind} (may : kind.mayPad) : kind.code ≠ Kind.continuation.code := by
  cases kind with
  | data | headers | pushPromise => decide
  | _ => cases may

/-- Padding that leaves too little room ends the reading, whether or not a header block is open. -/
theorem fails_scan_overfull {limit : Nat} {kind : Kind} (may : kind.mayPad) {flags : UInt8} {stream : Nat}
    {payload : Bytes} (narrow : stream < 2 ^ 31) (short : payload.length < 2 ^ 24)
    (padded : Flag.isSet Flag.padded flags = true) (overfull : Overfull kind flags payload) (pending : Option OpenBlock)
    (more : Bytes) (done : List Frame) :
    (scan limit pending (wireFrame kind flags stream payload ++ more) done).Fails done := by
  let head : WireHeader := { length := payload.length, kind := kind.code, flags, stream }
  have refused : ∃ e, read pending head payload = .error e := by
    cases pending with
    | none => exact (read_of_overfull may _ _ padded overfull).imp fun e error => error.1
    | some b => exact read_intruder (.inl (code_ne_continuation may)) payload
  rcases scan_bytes limit pending (h := head) rfl short narrow more done with fails | ⟨pending', frame, went, -⟩
  · exact fails
  · obtain ⟨e, error⟩ := refused
    exact absurd (went.symm.trans error) nofun

/-- A decoder that is at the beginning of a wire frame. While no header block is open, it reads padded DATA as what
    was padded, and a header block as one frame, however it is padded and cut; and nothing comes of a header block
    if a wire frame that is not of it comes before its end. Padding that leaves too little room is refused at all
    times. -/
theorem padding_transparent {d : Decoder} (aligned : d.Aligned) :
    (d.pending = none →
      (∀ flags stream padding body, stream < 2 ^ 31 → Flag.isSet Flag.padded flags = padding.isSome →
        (∀ p ∈ padding, p.length < 256) → (pad padding body).length ≤ d.limit →
          d.feed (wireFrame .data flags stream (pad padding body)) =
            (d.begun, [.data stream body (Flag.isSet Flag.endStream flags)])) ∧
      (∀ s : Spread, s.Proper → (∀ p ∈ s.payloads, p.length ≤ d.limit) →
        (s.others ≠ [] → s.block.length ≤ OpenBlock.limit) → d.feed (s.wire true).flatten = (d.begun, [s.frame])) ∧
      ∀ (s : Spread) (h : WireHeader) (payload more : Bytes), s.Proper → (∀ p ∈ s.payloads, p.length < 2 ^ 24) →
        payload.length = h.length → h.length < 2 ^ 24 → h.stream < 2 ^ 31 →
          (h.kind ≠ Kind.continuation.code ∨ h.stream ≠ s.stream) →
            d.Breaks ((s.wire false).flatten ++ (h.bytes ++ payload ++ more))) ∧
    ∀ (kind : Kind) (flags : UInt8) (stream : Nat) (payload more : Bytes), kind.mayPad → stream < 2 ^ 31 →
      payload.length < 2 ^ 24 → Flag.isSet Flag.padded flags = true → Overfull kind flags payload →
        d.Breaks (wireFrame kind flags stream payload ++ more) ∧
          (d.pending = none → payload.length ≤ d.limit →
            ∃ e, (d.feed (wireFrame kind flags stream payload ++ more)).1.failure = some e ∧
              (e = .frameTooShort kind ∨ e = .badPadding kind)) := by
  have small : d.limit < 2 ^ 24 := Nat.lt_of_le_of_lt aligned.legal (by decide)
  refine ⟨fun closed => ⟨?data, ?block, ?interrupted⟩, ?overfull⟩
  case data =>
    intro flags stream padding body narrow announced short allowed
    have read := read_data stream padding announced short (pad padding body).length body
    have fed := aligned.feed_single closed (scan_of_ok (cut_of_le small allowed narrow []) read)
    rwa [List.append_nil] at fed
  case block =>
    intro s proper allowed bounded
    exact aligned.feed_wire closed proper allowed bounded
  case interrupted =>
    intro s h payload more proper sized whole short narrow other
    -- The spread does not end its block, so the block is open when the other frame comes.
    have fails := proper.fails_scan d.limit sized whole short narrow other more []
    rw [Spread.wire, List.flatten_cons, List.append_assoc] at fails ⊢
    exact aligned.breaks (closed ▸ fails)
  case overfull =>
    intro kind flags stream payload more may narrow short padded overfull
    refine ⟨aligned.breaks (fails_scan_overfull may narrow short padded overfull _ more []), fun closed allowed => ?_⟩
    obtain ⟨e, refused, named⟩ := read_of_overfull may payload.length stream padded overfull
    refine ⟨e, ?_, named⟩
    rw [aligned.feed, closed, scan_of_error (cut_of_le small allowed narrow more) refused]

/-- A padded HEADERS frame with a dependency goes on in two CONTINUATION frames, the first of which is empty. It is
    read as one frame, and not at all if a wire frame of an unknown kind comes before its end. -/
theorem padding_transparent_spread :
    let d := Decoder.start 0
    let ranked : Dependency := { parent := 3, exclusive := true, weight := 9 }
    let s : Spread :=
      { opener := .headers (some ranked), stream := 1, flags := 0x29, padding := some [0, 0, 0], first := [0x82],
        others := [{ flags := 0x8, bytes := [] }, { flags := 0, bytes := [0x86] }] }
    let unknown : WireHeader := { length := 0, kind := 0x7f, flags := 0x4, stream := 1 }
    d.feed (wireFrame .data 0x9 3 [0, 7]) = (d.begun, [.data 3 [7] true]) ∧
      d.feed (s.wire true).flatten = (d.begun, [.headers 1 [0x82, 0x86] true (some ranked) 0x29]) ∧
      d.Breaks ((s.wire false).flatten ++ (unknown.bytes ++ [] ++ [])) ∧
      d.Breaks (wireFrame .data 0x8 3 [3, 1, 2] ++ []) := by
  intro d ranked s unknown
  obtain ⟨closed, overfull⟩ := padding_transparent (Decoder.aligned_start 0)
  obtain ⟨data, block, interrupted⟩ := closed rfl
  have proper : s.Proper :=
    { narrow := by decide, fits := ⟨by decide, fun e same => by cases same; decide⟩, announced := by decide,
      short := fun p same => by cases same; decide }
  have read : s.frame = .headers 1 [0x82, 0x86] true (some ranked) 0x29 := by decide +kernel
  refine ⟨data 0x9 3 (some []) [7] (by decide) (by decide) (fun p same => by cases same; decide) (by decide),
    read ▸ block s proper (by decide) (fun _ => by decide), ?_, ?_⟩
  · exact interrupted s unknown [] [] proper (by decide) rfl (by decide) (by decide) (.inl (by decide))
  · exact (overfull .data 0x8 3 [3, 1, 2] [] rfl (by decide) (by decide) (by decide) (by decide +kernel)).1

end Multiplex.Frame
