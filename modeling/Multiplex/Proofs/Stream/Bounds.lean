import Mathlib.Algebra.Group.Int.Defs
import Multiplex.Proofs.Frame.Checked
import Multiplex.Proofs.Stream.WellFormed

/-! # Windows within bounds

Windows are numbers with a sign, and what is added to them and taken off them comes from the peer and from handlers.
Here the operations on windows are written over sums and differences that fail where a word of 64 bits with a sign does
not hold them. As long as a window is one that a peer or a configuration can have set, none of them fails, and they do
what the windows do. -/

namespace Multiplex.Checked

/-! ### Operations -/

/-- A number that a word of 64 bits with a sign holds. -/
def wide (n : Int) : Option Int := if -2 ^ 63 ≤ n ∧ n < 2 ^ 63 then some n else none

theorem wide_eq {n : Int} (least : -2 ^ 63 ≤ n) (greatest : n < 2 ^ 63) : wide n = some n :=
  if_pos ⟨least, greatest⟩

/-! ### Send windows -/

def grant (w : SendWindow) (increment : Nat) : Option (Except FlowControlError SendWindow) := do
  let credit ← wide (w.credit + increment)
  if maxWindow < credit then return .error (.windowOverflow w.credit increment)
  else return .ok { w with credit := credit.toNat }

/-- Takes the cost of a chunk off the credit. -/
def pay (w : SendWindow) (length : Nat) : Option SendWindow :=
  if w.enabled then do
    let credit ← wide (w.credit - length)
    return { w with credit := credit.toNat }
  else some w

def release (w : SendWindow) : List Chunk → Option SendWindow.Release
  | [] => some { window := w, released := [], waiting := [] }
  | c :: rest =>
    if c.bytes.length = 0 ∨ w.enabled = false ∨ c.bytes.length ≤ w.credit then do
      let w ← pay w c.bytes.length
      let r ← release w rest
      return { r with released := c :: r.released }
    else if 0 < w.credit then do
      let (front, back) ← split w.credit c.bytes
      return { window := { w with credit := 0 }, released := [{ bytes := front, final := false }],
               waiting := { c with bytes := back } :: rest }
    else some { window := w, released := [], waiting := c :: rest }

section Send
variable {w : SendWindow}

theorem grant_eq (proper : w.credit ≤ maxWindow) {increment : Nat} (word : increment < 2 ^ 32) :
    grant w increment = some (w.grant increment) := by
  unfold grant SendWindow.grant
  unfold maxWindow at *
  rw [wide_eq (by omega) (by omega)]
  dsimp only [bind, Option.bind]
  split
  · rw [if_neg (by omega)]
    rfl
  · rw [if_pos (by omega)]
    rfl

theorem pay_of_enabled (proper : w.credit ≤ maxWindow) (enabled : w.enabled = true) {length : Nat}
    (covered : length ≤ w.credit) : pay w length = some { w with credit := w.credit - length } := by
  unfold maxWindow at proper
  have same : ((w.credit : Int) - length).toNat = w.credit - length := by omega
  rw [pay, if_pos enabled, wide_eq (by omega) (by omega)]
  exact congrArg (fun credit => some { w with credit }) same

theorem release_eq (proper : w.credit ≤ maxWindow) (chunks : List Chunk) :
    release w chunks = some (w.release chunks) := by
  induction chunks generalizing w with
  | nil => rfl
  | cons c rest ih =>
    rw [release, SendWindow.release]
    cases enabled : w.enabled with
    | false =>
      have free : pay w c.bytes.length = some w := if_neg (by simp [enabled])
      rw [if_pos (.inr (.inl rfl)), if_pos rfl, free]
      dsimp only [bind, Option.bind]
      rw [ih proper]
      rfl
    | true =>
      have limited : ¬ true = false := nofun
      rw [if_neg limited]
      by_cases covered : c.bytes.length ≤ w.credit
      · rw [if_pos (.inr (.inr covered)), if_pos covered, pay_of_enabled proper enabled covered]
        dsimp only [bind, Option.bind]
        rw [ih (Nat.le_trans (Nat.sub_le ..) proper), enabled]
        rfl
      -- The chunk costs something and exceeds the credit, so it is cut, or held back whole.
      · have held : ¬ (c.bytes.length = 0 ∨ true = false ∨ c.bytes.length ≤ w.credit) := by
          rintro (none | off | whole)
          · omega
          · cases off
          · exact covered whole
        rw [if_neg held, if_neg covered]
        by_cases spent : w.credit = 0
        · rw [if_neg (by omega), if_pos spent]
        · rw [if_pos (Nat.pos_of_ne_zero spent), if_neg spent, split_eq (by omega)]
          rfl

end Send

/-! ### Receive windows -/

def charge (w : ReceiveWindow) (length : Nat) : Option (Except FlowControlError ReceiveWindow) :=
  if w.room < length then some (.error (.windowExceeded length w.room))
  else do
    let room ← wide (w.room - length)
    return .ok { room := room.toNat }

def grantBack (w : ReceiveWindow) (length : Nat) : Option (ReceiveWindow × Option Nat) :=
  if length = 0 then some (w, none)
  else do
    let most ← wide (maxWindow - w.room)
    let increment := min (length : Int) most
    if increment ≤ 0 then return (w, none)
    else
      let room ← wide (w.room + increment)
      return ({ room := room.toNat }, some increment.toNat)

section Receive
variable {w : ReceiveWindow}

theorem charge_eq (word : w.room < 2 ^ 32) (length : Nat) : charge w length = some (w.charge length) := by
  unfold charge ReceiveWindow.charge
  split
  · rw [if_neg (by omega)]
  · rw [if_pos (by omega), wide_eq (by omega) (by omega)]
    have same : ((w.room : Int) - length).toNat = w.room - length := by omega
    exact congrArg (fun room => some (Except.ok (ReceiveWindow.mk room))) same

theorem grantBack_eq (word : w.room < 2 ^ 32) (length : Nat) : grantBack w length = some (w.grantBack length) := by
  unfold grantBack ReceiveWindow.grantBack
  split
  · next none =>
    rw [none, Nat.zero_min, if_pos rfl]
  · rw [wide_eq (by unfold maxWindow; omega) (by unfold maxWindow; omega)]
    dsimp only [bind, Option.bind]
    split
    · rw [if_pos (by omega)]
      rfl
    · next more =>
      have increment : (min (length : Int) (maxWindow - w.room)).toNat = min length (maxWindow - w.room) := by omega
      have room : ((w.room : Int) + min (length : Int) (maxWindow - w.room)).toNat =
          w.room + min length (maxWindow - w.room) := by omega
      rw [if_neg (by omega), wide_eq (by omega) (by unfold maxWindow at *; omega)]
      dsimp only
      rw [room, increment]
      rfl

end Receive

end Multiplex.Checked

/-! ### Streams -/

namespace Multiplex

namespace Stream

/-- The windows of a stream are such as a peer and a configuration can set. -/
structure InRange (s : Stream) : Prop where
  credit : s.send.credit ≤ maxWindow
  room : ∀ w, s.receive = some w → w.room < 2 ^ 32

namespace InRange
variable {s t : Stream}

theorem acceptHeaders (inRange : s.InRange) (list : List Header) (final : Bool) :
    (s.acceptHeaders list final).InRange := by
  unfold Stream.acceptHeaders
  split
  · exact inRange
  · exact ⟨inRange.credit, inRange.room⟩

theorem acceptData (inRange : s.InRange) {bytes : Bytes} {final : Bool}
    (accepted : s.acceptData bytes final = .ok t) : t.InRange := by
  unfold Stream.acceptData at accepted
  split at accepted
  · cases accepted
    exact inRange
  · split at accepted <;> cases accepted
    next charged =>
    unfold Stream.charge at charged
    split at charged
    · cases charged
      exact ⟨inRange.credit, inRange.room⟩
    · next w has =>
      split at charged <;> cases charged
      next w' fits =>
      refine ⟨inRange.credit, fun left same => ?_⟩
      obtain rfl : w' = left := Option.some.inj same
      unfold ReceiveWindow.charge at fits
      split at fits <;> cases fits
      exact Nat.lt_of_le_of_lt (Nat.sub_le ..) (inRange.room w has)

theorem abort (inRange : s.InRange) : s.abort.InRange := by
  unfold Stream.abort
  split
  · exact inRange
  · exact ⟨inRange.credit, inRange.room⟩

theorem reset (inRange : s.InRange) (code : ErrorCode) : (s.reset code).1.InRange := by
  unfold Stream.reset
  split
  · exact inRange.abort
  · exact inRange

theorem release (inRange : s.InRange) : s.release.1.InRange :=
  ⟨Nat.le_trans (SendWindow.credit_release_le s.send s.pending) inRange.credit, inRange.room⟩

theorem grant (inRange : s.InRange) {increment : Nat} {frames : List Outgoing}
    (granted : s.grant increment = .ok (t, frames)) : t.InRange := by
  cases going : s.aborted with
  | true =>
    rw [Stream.grant, if_pos going] at granted
    cases granted
    exact inRange
  | false =>
    obtain ⟨fits, released⟩ := of_grant going granted
    obtain ⟨rfl, -⟩ := Prod.mk.inj released
    exact release ⟨fits, inRange.room⟩

theorem sendHeaders (inRange : s.InRange) {list : List Header} {final : Bool} {frames : List Outgoing}
    (allowed : s.sendHeaders list final = .ok (t, frames)) : t.InRange := by
  obtain ⟨-, -, -, rfl, -⟩ := of_sendHeaders allowed
  exact ⟨inRange.credit, inRange.room⟩

theorem sendData (inRange : s.InRange) {bytes : Bytes} {final : Bool} {limit : Nat} {frames : List Outgoing}
    (allowed : s.sendData bytes final limit = .ok (t, frames)) : t.InRange := by
  obtain ⟨-, -, -, released⟩ := of_sendData allowed
  obtain ⟨rfl, -⟩ := Prod.mk.inj released
  exact release (s := s.withData bytes final limit) ⟨inRange.credit, inRange.room⟩

theorem grantBack (inRange : s.InRange) (length : Nat) : (s.grantBack length).1.InRange := by
  unfold Stream.grantBack
  split
  · exact inRange
  · next w has =>
    have room := inRange.room w has
    refine ⟨inRange.credit, fun more same => ?_⟩
    obtain rfl : (w.grantBack length).1 = more := Option.some.inj same
    unfold ReceiveWindow.grantBack maxWindow
    dsimp only
    split
    · exact room
    · dsimp only
      omega

theorem read (inRange : s.InRange) : s.read.1.InRange := by
  unfold Stream.read
  split
  · exact inRange
  · split
    · exact inRange
    · exact ⟨inRange.credit, inRange.room⟩
    · next bytes final rest _ =>
      exact grantBack (s := { s with input := rest }) ⟨inRange.credit, inRange.room⟩ bytes.length

theorem readUpTo (inRange : s.InRange) (count : Nat) : (s.readUpTo count).1.InRange := by
  induction count generalizing s with
  | zero => exact inRange
  | succ count ih =>
    have first := inRange.read
    unfold Stream.readUpTo
    split
    · next same =>
      rw [same] at first
      exact first
    · next same =>
      rw [same] at first
      exact ih first

end InRange

/-! ### Operations on streams -/

/-- Charges data to the receive window. -/
def checkedCharge (s : Stream) (length : Nat) : Option (Except FlowControlError Stream) :=
  match s.receive with
  | none => some (.ok s)
  | some w => do
    match ← Checked.charge w length with
    | .ok w => return .ok { s with receive := some w }
    | .error e => return .error e

def checkedAcceptData (s : Stream) (bytes : Bytes) (final : Bool) : Option (Except FlowControlError Stream) :=
  if s.aborted then some (.ok s)
  else do
    match ← s.checkedCharge bytes.length with
    | .error e => return .error e
    | .ok s => return .ok { s with peerClosed := s.peerClosed || final, input := s.input ++ [.data bytes final] }

/-- Puts what the send window lets go into the outbox. -/
def checkedRelease (s : Stream) : Option (Stream × List Outgoing) := do
  let r ← Checked.release s.send s.pending
  return ({ s with send := r.window, pending := r.waiting,
                   finalReleased := s.finalReleased || r.released.any (·.final) },
    r.released.map fun c => .frame (.data s.id c.bytes c.final))

/-- Takes a grant of the peer, and releases what it covers. -/
def checkedGrant (s : Stream) (increment : Nat) : Option (Except FlowControlError (Stream × List Outgoing)) :=
  if s.aborted then some (.ok (s, []))
  else do
    match ← Checked.grant s.send increment with
    | .error e => return .error e
    | .ok send =>
      let released ← { s with send }.checkedRelease
      return .ok released

/-- Grants back what was read. -/
def checkedGrantBack (s : Stream) (length : Nat) : Option (Stream × List Outgoing) :=
  match s.receive with
  | none => some (s, [])
  | some w => do
    let (w, increment) ← Checked.grantBack w length
    return ({ s with receive := some w },
      if s.peerClosed then [] else increment.toList.map fun increment => .frame (.windowUpdate s.id increment))

def checkedRead (s : Stream) : Option (Stream × Option Inbound × List Outgoing) :=
  if s.aborted then some (s, none, [])
  else
    match s.input with
    | [] => some (s, none, [])
    | .headers list final :: rest => some ({ s with input := rest }, some (.headers list final), [])
    | .data bytes final :: rest => do
      let (s, frames) ← { s with input := rest }.checkedGrantBack bytes.length
      return (s, some (.data bytes final), frames)

def checkedReadUpTo (s : Stream) : (count : Nat) → Option (Stream × List Inbound × List Outgoing)
  | 0 => some (s, [], [])
  | count + 1 => do
    match ← s.checkedRead with
    | (s, none, _) => return (s, [], [])
    | (s, some part, frames) =>
      let (s, parts, others) ← s.checkedReadUpTo count
      return (s, part :: parts, frames ++ others)

/-- Sends data of the reply. -/
def checkedSendData (s : Stream) (bytes : Bytes) (final : Bool) (limit : Nat) :
    Option (Except StreamError (Stream × List Outgoing)) :=
  if s.aborted then some (.error .aborted)
  else if s.finalSent then some (.error .alreadyFinished)
  else if !s.headersSent then some (.error .headersNotSent)
  else do
    let released ← (s.withData bytes final limit).checkedRelease
    return .ok released

namespace InRange
variable {s : Stream}

theorem checkedCharge (inRange : s.InRange) (length : Nat) : s.checkedCharge length = some (s.charge length) := by
  unfold Stream.checkedCharge Stream.charge
  cases has : s.receive with
  | none => rfl
  | some w =>
    dsimp only
    rw [Checked.charge_eq (inRange.room w has)]
    cases w.charge length <;> rfl

theorem checkedAcceptData (inRange : s.InRange) (bytes : Bytes) (final : Bool) :
    s.checkedAcceptData bytes final = some (s.acceptData bytes final) := by
  unfold Stream.checkedAcceptData Stream.acceptData
  split
  · rfl
  · rw [inRange.checkedCharge]
    cases s.charge bytes.length <;> rfl

theorem checkedRelease (inRange : s.InRange) : s.checkedRelease = some s.release := by
  rw [Stream.checkedRelease, Checked.release_eq inRange.credit]
  rfl

theorem checkedGrant (inRange : s.InRange) {increment : Nat} (word : increment < 2 ^ 32) :
    s.checkedGrant increment = some (s.grant increment) := by
  unfold Stream.checkedGrant Stream.grant
  split
  · rfl
  · rw [Checked.grant_eq inRange.credit word, SendWindow.grant]
    by_cases fits : s.send.credit + increment ≤ maxWindow
    · have more : ({ s with send := { s.send with credit := s.send.credit + increment } } : Stream).InRange :=
        ⟨fits, inRange.room⟩
      rw [if_pos fits]
      exact congrArg (· >>= fun released => some (Except.ok released)) more.checkedRelease
    · rw [if_neg fits]
      rfl

theorem checkedGrantBack (inRange : s.InRange) (length : Nat) :
    s.checkedGrantBack length = some (s.grantBack length) := by
  unfold Stream.checkedGrantBack Stream.grantBack
  cases has : s.receive with
  | none => rfl
  | some w =>
    dsimp only
    rw [Checked.grantBack_eq (inRange.room w has)]
    rfl

theorem checkedRead (inRange : s.InRange) : s.checkedRead = some s.read := by
  unfold Stream.checkedRead Stream.read
  split
  · rfl
  · cases waits : s.input with
    | nil => rfl
    | cons part rest =>
      cases part with
      | headers => rfl
      | data bytes final =>
        have later : ({ s with input := rest } : Stream).InRange := ⟨inRange.credit, inRange.room⟩
        dsimp only
        rw [later.checkedGrantBack]
        rfl

theorem checkedReadUpTo (inRange : s.InRange) (count : Nat) :
    s.checkedReadUpTo count = some (s.readUpTo count) := by
  induction count generalizing s with
  | zero => rfl
  | succ count ih =>
    have later := inRange.read
    rw [Stream.checkedReadUpTo, Stream.readUpTo, inRange.checkedRead]
    rcases read : s.read with ⟨t, _ | part, frames⟩
    · rfl
    · rw [read] at later
      exact congrArg (· >>= fun r => some (r.1, part :: r.2.1, frames ++ r.2.2)) (ih later)

theorem checkedSendData (inRange : s.InRange) (bytes : Bytes) (final : Bool) (limit : Nat) :
    s.checkedSendData bytes final limit = some (s.sendData bytes final limit) := by
  unfold Stream.checkedSendData Stream.sendData
  split
  · rfl
  split
  · rfl
  split
  · rfl
  · have more : (s.withData bytes final limit).InRange := ⟨inRange.credit, inRange.room⟩
    rw [more.checkedRelease]
    rfl

end InRange

end Stream

end Multiplex
