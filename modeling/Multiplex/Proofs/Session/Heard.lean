import Multiplex.Proofs.Hpack.Coding
import Multiplex.Proofs.Session.FrameSizes
import Multiplex.Proofs.Session.Pushes
import Multiplex.Proofs.Session.Sendings

/-! # What the peer hears

A peer that reads all bytes of a session with a decoder and a header table of its own hears the frames that were
taken out of the outbox, with the headers that handlers have passed (`heard_as_taken`). The session encodes a header
block when its frame is taken, so that the tables of both ends go through the blocks in the same order, whatever
order the handlers sent them in (`hearAll_sendings`). -/

namespace Multiplex

open Multiplex.Frame (Kind)
open Multiplex.Frame.Decoder (greatestLimit)

/-! ### Hearing -/

/-- What a frame says to a receiver whose header table is `t`, and the table after it. -/
def Frame.hear (t : Hpack.Table) : Frame → Hpack.Table × Except Hpack.Fault Outgoing
  | .headers stream block final priority _ =>
    let (t, list) := Header.decodeBlock t block
    (t, list.map (.headers stream · final priority))
  | .pushPromise stream promised block =>
    let (t, list) := Header.decodeBlock t block
    (t, list.map (.pushPromise stream promised ·))
  | frame => (t, .ok (.frame frame))

/-- What frames say in order, up to a header block that cannot be read. -/
def hearAll (t : Hpack.Table) : List Frame → Except Hpack.Fault (List Outgoing)
  | [] => .ok []
  | frame :: rest =>
    match frame.hear t with
    | (t, .ok f) => (hearAll t rest).map (f :: ·)
    | (_, .error fault) => .error fault

namespace Outgoing

/-- The headers that a frame carries. -/
def list : Outgoing → List Header
  | .headers _ list .. | .pushPromise _ _ list => list
  | .frame _ => []

/-- A frame that says on the wire all that it says: an answer to SETTINGS says nothing more. -/
def Audible : Outgoing → Prop
  | .frame (.settings ack params) => ack → params = []
  | .frame (.headers ..) | .frame (.pushPromise ..) => False
  | f => ∀ header ∈ f.list, header.IsShort

theorem moderate_encode {t : Hpack.Table} (moderate : t.Moderate) (f : Outgoing) : (f.encode t).1.Moderate := by
  cases f with
  | frame => exact moderate
  | headers | pushPromise => exact moderate.encode _

end Outgoing

theorem Sending.hear_read {t : Hpack.Table} (moderate : t.Moderate) {x : Sending}
    (encoded : x.frame = (x.source.encode t).2) (audible : x.source.Audible) :
    x.read.hear t = ((x.source.encode t).1, .ok x.source) := by
  obtain ⟨source, frame, limit⟩ := x
  obtain rfl : frame = (source.encode t).2 := encoded
  cases source with
  | headers stream list final priority =>
    have read : Header.decodeBlock t (Header.encodeBlock t list).2 = ((Header.encodeBlock t list).1, .ok list) :=
      Header.decodeBlock_encodeBlock moderate audible
    simp only [Sending.read, Outgoing.encode, Frame.asRead, Frame.hear, read]
    rfl
  | pushPromise stream promised list =>
    have read : Header.decodeBlock t (Header.encodeBlock t list).2 = ((Header.encodeBlock t list).1, .ok list) :=
      Header.decodeBlock_encodeBlock moderate audible
    simp only [Sending.read, Outgoing.encode, Frame.asRead, Frame.hear, read]
    rfl
  | frame frame =>
    cases frame with
    | settings ack params =>
      cases ack with
      | true =>
        obtain rfl : params = [] := audible rfl
        rfl
      | false => rfl
    | headers | pushPromise => cases audible
    | _ => rfl

/-- Frames that were encoded in order are heard in order. -/
theorem hearAll_sendings {t after : Hpack.Table} (moderate : t.Moderate) {sendings : List Sending}
    (encoded : Encoded t sendings after) (audible : ∀ x ∈ sendings, x.source.Audible) :
    hearAll t (sendings.map (·.read)) = .ok (sendings.map (·.source)) := by
  induction sendings generalizing t with
  | nil => rfl
  | cons x rest ih =>
    obtain ⟨first, later⟩ := List.forall_mem_cons.mp audible
    rw [List.map_cons, hearAll, Sending.hear_read moderate encoded.1 first]
    dsimp only
    rw [ih (x.source.moderate_encode moderate) encoded.2 later]
    rfl

/-! ### What can be read -/

section Journals
variable {version : Version} {journal : List Event}

/-- A decoder that takes the longest payloads takes what keeps to the limits. -/
theorem Bounded.accepted {bytes : Bytes} (bounded : Bounded version journal bytes) :
    bytes.length ≤ WireHeader.size + Frame.Decoder.clampLimit greatestLimit := by
  obtain ⟨header, -, total, other, data⟩ := bounded
  have greatest : header.length ≤ greatestLimit := by
    by_cases kind : header.kind = Kind.data.code
    · obtain ⟨early, -, -, -, -, fits⟩ := data kind
      exact fits.trans (Session.legal_limitsAfter version early).frame.2
    · exact (other kind).trans (Session.legal_limitsAfter version journal).frame.2
  exact total ▸ Nat.add_le_add_left greatest WireHeader.size

namespace Outgoing.Grounded
variable {f : Outgoing}

/-- The numbers of what goes back to a journal fit their fields. -/
theorem writable (grounded : f.Grounded version journal) (small : f.stream < Frame.idBound) (table : Hpack.Table) :
    (f.encode table).2.Writable := by
  cases f with
  | headers stream list final priority =>
    obtain ⟨rfl, -⟩ := grounded
    exact ⟨small, nofun, Flag.isSet_zero _, by simp, by simp⟩
  | pushPromise => exact ⟨small, grounded.1⟩
  | frame frame =>
    cases frame with
    | data | reset => exact small
    | settings | ping => trivial
    | goAway => exact grounded
    | windowUpdate => exact ⟨small, grounded⟩
    | headers | pushPromise => cases grounded

theorem audible (grounded : f.Grounded version journal) (short : ∀ header ∈ f.list, header.IsShort) : f.Audible := by
  cases f with
  | headers | pushPromise => exact short
  | frame frame =>
    cases frame with
    | settings => exact fun _ => grounded.2
    | headers | pushPromise => exact grounded
    | _ => exact short

end Outgoing.Grounded

end Journals

namespace Session
variable {s t : Session} {version : Version} {config : Config} {handlers : Handlers} {schedule : Schedule}
  {transport : Transport}

theorem audible_opening (s : Session) : s.opening.Audible := nofun

section Reached
variable (h : Reaches (start version config handlers schedule transport) t)
include h

/-- What goes out is the announcement, or goes back to the journal at the moment that its frame was taken. -/
theorem grounded_sending {x : Sending} (member : x ∈ t.encoding.sendings) :
    x = t.announcement ∨ x.source ∈ t.taken ∧ ∃ front, x.source.Grounded version front ∧
      x.limit = (limitsAfter version front).maxFrame := by
  have same : t.version = version := (followed_start h).version
  rcases Encoding.mem_foldl member with first | ⟨front, early, limit⟩
  · exact .inl (List.mem_singleton.mp first)
  · refine .inr ⟨?_, front, fits_start h front _ early, by rw [limit, same]; rfl⟩
    exact List.mem_filterMap.mpr ⟨.taken x.source, early.subset (by simp), rfl⟩

variable (fits : ∀ x ∈ t.encoding.sendings, 1 < x.wire.length → x.frame.block.length ≤ OpenBlock.limit)
include fits

theorem readable_sendings : ∀ x ∈ t.encoding.sendings, x.Readable greatestLimit := by
  intro x member
  rcases grounded_sending h member with rfl | ⟨taken, front, grounded, limit⟩
  · refine ⟨trivial, ?_, fits _ member⟩
    rw [wire_announcement]
    exact List.forall_mem_singleton.mpr (bounded_announcement t version []).accepted
  · obtain ⟨-, small⟩ := taken_small (sound_start h) taken
    obtain ⟨table, encoded⟩ := t.encoded_encoding.mem member
    refine ⟨encoded ▸ grounded.writable small table, fun w inside => ?_, fits x member⟩
    refine (grounded.bounded small table w ?_).accepted
    rw [Outgoing.wire_eq]
    rwa [Sending.wire, encoded, limit] at inside

theorem contiguous_written : Contiguous none (heads t.written) := by
  have whole := contiguous_sendings fun x member => (readable_sendings h fits x member).writable
  obtain ⟨rest, split⟩ := (writing_start h).early
  rw [← split, heads_append] at whole
  exact whole.take

/-- What is read of all that was written, and what is left over. -/
theorem read_written :
    ∃ d frames, (Frame.Decoder.start greatestLimit).feed t.written.flatten = (d, frames) ∧ d.failure = none ∧
      d.buffer = [] ∧ (t.Unbroken → d.pending = none ∧ frames = t.encoding.sendings.map (·.read)) ∧
      (¬ t.Unbroken → frames = t.encoding.sendings.dropLast.map (·.read)) := by
  have readable := readable_sendings h fits
  have writing := writing_start h
  obtain ⟨later, first⟩ := t.sendings_encoding
  have nothing (empty : t.written = []) :
      (Frame.Decoder.start greatestLimit).feed t.written.flatten = (.start greatestLimit, []) := by
    rw [empty]
    exact Frame.Decoder.feed_start_nil _
  by_cases ready : t.status = .ready
  · obtain ⟨empty, only⟩ := writing.idle ready
    exact ⟨_, _, nothing empty, rfl, rfl, fun whole => absurd ready whole.1, fun _ => by rw [only]; rfl⟩
  by_cases whole : t.Unbroken
  · have fed := feed_sendings (first ▸ List.cons_ne_nil _ later) readable []
    rw [Frame.scan_of_short rfl, List.append_nil, ← writing.whole whole] at fed
    exact ⟨_, _, fed, rfl, rfl, fun _ => ⟨rfl, List.reverse_reverse _⟩, fun broken => absurd whole broken⟩
  · obtain ⟨front, last, done, rest, sendings, wire, unfinished, written⟩ := writing.broken ready whole
    have early : t.encoding.sendings.dropLast = front := by rw [sendings, List.dropLast_concat]
    rw [early]
    cases front with
    | nil =>
      -- The announcement is a single wire frame, so nothing of it was written.
      obtain ⟨rfl, -⟩ := List.cons.inj (sendings.symm.trans first)
      rw [wire_announcement, List.singleton_eq_append_iff] at wire
      obtain ⟨empty, -⟩ := wire.resolve_right fun other => unfinished other.2
      exact ⟨_, _, nothing (by rw [written, empty]; rfl), rfl, rfl, fun unbroken => absurd unbroken whole, fun _ => rfl⟩
    | cons x others =>
      rw [sendings] at readable
      obtain ⟨earlier, ends⟩ := List.forall_mem_append.mp readable
      have ending := ends last List.mem_cons_self
      obtain ⟨pending, part⟩ := Frame.scan_wire_part ending.writable wire unfinished ending.accepted ending.bounded
      have fed := feed_sendings (List.cons_ne_nil x others) earlier done.flatten
      rw [part, ← List.flatten_append, ← written] at fed
      exact ⟨_, _, fed, rfl, rfl, fun unbroken => absurd unbroken whole, fun _ => List.reverse_reverse _⟩

/-- However a session runs, and wherever it is cut, provided that the headers it sends are short enough for the
    integers that count their bytes, and that a header block that does not fit one wire frame is not too large: a
    peer that reads all that was written, with a decoder that takes the longest payloads and a header table of its
    own, fails nowhere, and hears the announcement of the session's limits and behind it the frames that were taken
    out of the outbox, with the same streams, numbers and headers. After a failed write it has heard all of them but
    the last, which did not get through whole. The wire frames of a header block stand together, and each wire frame
    tells its length. The headers are those that a handler has sent, and a promise is that of a push that a handler has
    made before; in a complete run, the push has returned. -/
theorem heard_as_taken (short : ∀ f ∈ t.taken, ∀ header ∈ f.list, header.IsShort) :
    (∃ d frames, (Frame.Decoder.start greatestLimit).feed t.written.flatten = (d, frames) ∧ d.failure = none ∧
      d.buffer = [] ∧ (t.Unbroken → d.pending = none ∧ hearAll {} frames = .ok (t.opening :: t.taken)) ∧
      (¬ t.Unbroken → hearAll {} frames = .ok (t.opening :: t.taken).dropLast)) ∧
    Contiguous none (heads t.written) ∧
    (∀ bytes ∈ t.written, ∃ header, WireHeader.parse? bytes = some header ∧ bytes.length = header.total) ∧
    (∀ id list final priority, .headers id list final priority ∈ t.taken →
      priority = none ∧ ∃ index, .stepped id index (.act (.headers list final)) .sent ∈ t.journal) ∧
    (∀ parent promised list, .pushPromise parent promised list ∈ t.taken →
      ∃ u v, Reaches (start version config handlers schedule transport) u ∧ Pushes parent promised list u v ∧
        Reaches v t) ∧
    (t = (start version config handlers schedule transport).runToEnd →
      ∀ parent promised list, .pushPromise parent promised list ∈ t.taken →
        ∃ index priority, .stepped parent index (.act (.push list priority)) (.pushed promised) ∈ t.journal) := by
  have grounded (f : Outgoing) (taken : f ∈ t.taken) : f.Grounded version t.journal := by
    obtain ⟨e, member, same⟩ := List.mem_filterMap.mp taken
    obtain rfl := Event.eq_of_taken? same
    obtain ⟨front, early, right⟩ := (fits_start h).of_mem member
    exact right.mono ((List.prefix_append ..).trans early)
  have audible : ∀ x ∈ t.encoding.sendings, x.source.Audible := fun x member => by
    rcases grounded_sending h member with rfl | ⟨taken, front, ground, -⟩
    · exact audible_opening t
    · exact ground.audible (short x.source taken)
  refine ⟨?_, contiguous_written h fits, fun bytes member => ?_, fun id list final priority member => grounded _ member,
    fun parent promised list member => pushed_start h (grounded _ member).2.1, fun whole parent promised list member => ?_⟩
  · obtain ⟨d, frames, fed, failure, buffer, all, cut⟩ := read_written h fits
    refine ⟨d, frames, fed, failure, buffer, fun unbroken => ?_, fun broken => ?_⟩
    · obtain ⟨pending, rfl⟩ := all unbroken
      rw [← sources_encoding]
      exact ⟨pending, hearAll_sendings Hpack.Table.moderate_empty t.encoded_encoding audible⟩
    -- The write that failed was of the last frame, and all before it were written whole.
    · obtain rfl := cut broken
      obtain ⟨later, first⟩ := t.sendings_encoding
      have split := List.dropLast_append_getLast (first ▸ List.cons_ne_nil _ later)
      obtain ⟨table, encoded⟩ := (split ▸ t.encoded_encoding).take
      rw [← sources_encoding, ← List.map_dropLast]
      exact hearAll_sendings Hpack.Table.moderate_empty encoded fun x member => audible x (List.mem_of_mem_dropLast member)
  · obtain ⟨e, inside, same⟩ := List.mem_filterMap.mp member
    obtain rfl := Event.eq_of_wrote? same
    obtain ⟨front, -, header, read, total, -⟩ := (fits_start h).of_mem inside
    exact ⟨header, read, total⟩
  · exact (whole ▸ returned_runToEnd version config handlers schedule transport) _ _ _ (grounded _ member).2.1

end Reached

/-- A session whose peer makes two requests, of which the second is more urgent. Each handler sends the same headers
    and some data; the first also pushes a stream. -/
def hurried : Session :=
  let request (id : Nat) (weight : UInt8) := (Frame.headers id [] true (some (.ofWeight weight)) 0).encode 1
  let reply : List Step := [.act (.headers [{ name := "a", value := "1" }] false), .act (.data [1, 2] true)]
  start .spdy3 {} { own := [(1, .act (.push [{ name := "a", value := "1" }] 0) :: reply)], others := reply } .atOnce
    { arrivals := [{ bytes := request 1 0 ++ request 3 255 }] }

instance (f : Outgoing) : Decidable (∀ header ∈ f.list, header.IsShort) := List.decidableBAll _ f.list

/-- The headers of the first request were sent before those of the second, and are written and heard after them. -/
theorem heard_as_taken_hurried :
    let t := hurried.runToEnd
    let list : List Header := [{ name := "a", value := "1" }]
    ∃ d frames, (Frame.Decoder.start greatestLimit).feed t.written.flatten = (d, frames) ∧
      hearAll {} frames = .ok [t.opening, .pushPromise 1 2 list, .headers 2 list false none, .frame (.data 2 [1, 2] true),
        .headers 3 list false none, .frame (.data 3 [1, 2] true), .headers 1 list false none,
        .frame (.data 1 [1, 2] true), .frame (.goAway 3 ErrorCode.noError)] := by
  intro t list
  obtain ⟨done, taken, short, fits⟩ : t.status = .stopped .finished ∧
      t.taken = [.pushPromise 1 2 list, .headers 2 list false none, .frame (.data 2 [1, 2] true),
        .headers 3 list false none, .frame (.data 3 [1, 2] true), .headers 1 list false none,
        .frame (.data 1 [1, 2] true), .frame (.goAway 3 ErrorCode.noError)] ∧
      (∀ f ∈ t.taken, ∀ header ∈ f.list, header.IsShort) ∧
      ∀ x ∈ t.encoding.sendings, 1 < x.wire.length → x.frame.block.length ≤ OpenBlock.limit := by decide +kernel
  obtain ⟨⟨d, frames, fed, -, -, all, -⟩, -⟩ := heard_as_taken (reaches_runToEnd hurried) fits short
  have unbroken : t.Unbroken := by simp [Unbroken, done]
  obtain ⟨-, heard⟩ := all unbroken
  rw [taken] at heard
  exact ⟨d, frames, fed, heard⟩

end Session

end Multiplex
