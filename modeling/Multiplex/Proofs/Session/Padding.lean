import Multiplex.Proofs.Frame.Weighing
import Multiplex.Proofs.Session.Announced
import Multiplex.Proofs.Session.ReceivePath

/-! # Padded data

A peer counts the whole payload of a DATA frame against the window of the stream, padding and all. The decoder takes the
padding off, so the stream is charged for the data only, and grants no more than that again: what a peer spends on
padding is lost to it (`Session.padding_forfeited`). -/

namespace Multiplex

open Multiplex.Frame (Decoder Weighed)

/-! ### Wire frames that streams take in -/

/-- The DATA frame that brings a part of a message. -/
def Inbound.dataFrame? (id : Nat) : Inbound → Option Frame
  | .data bytes final => some (.data id bytes final)
  | .headers .. => none

/-- The wire frames of a session at some point of its journal: those of the frames to come, that of the frame that was
    dispatched last, and those whose data a stream has taken in. -/
structure Tally where
  coming : List Weighed
  latest : Option Weighed := none
  taken : List Weighed := []

def Tally.note (id : Nat) (x : Tally) : Event → Tally
  | .dispatched _ => { x with coming := x.coming.tail, latest := x.coming.head? }
  | .accepted stream (.data ..) => if stream = id then { x with taken := x.taken ++ x.latest.toList } else x
  | _ => x

/-- The wire frames whose data a stream has taken in, if `wires` are those of the frames that a session has heard. -/
def takings (id : Nat) (wires : List Weighed) (journal : List Event) : List Weighed :=
  (journal.foldl (Tally.note id) { coming := wires }).taken

/-- A tally goes with a journal: it has passed the wire frames of the frames that were dispatched. -/
structure Tally.Right (id : Nat) (wires : List Weighed) (journal : List Event) (x : Tally) : Prop where
  passed : ∃ passed, wires = passed ++ x.coming ∧ passed.map (·.frame) = framesOf journal ∧ x.latest = passed.getLast?
  taken : x.taken.map (·.frame) = (intake id journal).filterMap (Inbound.dataFrame? id)
  known : ∀ w ∈ x.taken, w ∈ wires

section Tally
variable {id : Nat} {wires : List Weighed} {journal : List Event} {x : Tally} {e : Event}

theorem Tally.Right.beside (right : x.Right id wires journal) (same : x.note id e = x) (unheard : e.frame? = none)
    (data : ∀ part ∈ e.intake? id, part.dataFrame? id = none) : (x.note id e).Right id wires (journal ++ [e]) := by
  have frames : framesOf (journal ++ [e]) = framesOf journal := by simp [framesOf, unheard]
  have parts : (intake id (journal ++ [e])).filterMap (Inbound.dataFrame? id) =
      (intake id journal).filterMap (Inbound.dataFrame? id) := by
    cases taken : e.intake? id with
    | none => rw [intake_concat taken]
    | some part => simp [intake, taken, data part taken]
  rw [same]
  exact ⟨frames ▸ right.passed, parts ▸ right.taken, right.known⟩

theorem Tally.Right.dispatched {frame : Frame} (right : x.Right id wires journal)
    (heard : framesOf (journal ++ [.dispatched frame]) <+: wires.map (·.frame)) :
    (x.note id (.dispatched frame)).Right id wires (journal ++ [.dispatched frame]) := by
  obtain ⟨passed, rfl, frames, -⟩ := right.passed
  have next : [frame] <+: x.coming.map (·.frame) := by
    rw [framesOf_append, List.map_append, frames] at heard
    exact (List.prefix_append_right_inj _).mp heard
  obtain ⟨w, later, coming, rfl⟩ : ∃ w later, x.coming = w :: later ∧ w.frame = frame := by
    cases coming : x.coming with
    | nil => simp [coming] at next
    | cons w later => exact ⟨w, later, rfl, by simpa [coming, eq_comm] using next⟩
  have parts : intake id (journal ++ [.dispatched w.frame]) = intake id journal := intake_concat rfl
  refine ⟨⟨passed ++ [w], ?_, ?_, ?_⟩, ?_, right.known⟩
  · simp [note, coming]
  · rw [List.map_append, frames, framesOf_append]
    rfl
  · simp [note, coming]
  · rw [parts]
    exact right.taken

/-- What a stream takes in comes of the frame that was dispatched just before. -/
theorem Tally.Right.accepted {bytes : Bytes} {final : Bool} (right : x.Right id wires journal)
    (last : journal.getLast? = some (.dispatched (.data id bytes final))) :
    (x.note id (.accepted id (.data bytes final))).Right id wires (journal ++ [.accepted id (.data bytes final)]) := by
  obtain ⟨passed, split, frames, latest⟩ := right.passed
  obtain ⟨w, latest', own⟩ : ∃ w, passed.getLast? = some w ∧ w.frame = .data id bytes final := by
    obtain ⟨front, rfl⟩ := List.getLast?_eq_some_iff.mp last
    have final : (passed.map (·.frame)).getLast? = some (.data id bytes final) := by
      rw [frames, framesOf_append]
      exact List.getLast?_concat
    rwa [List.getLast?_map, Option.map_eq_some_iff] at final
  have member : w ∈ wires := split ▸ List.mem_append_left _ (List.mem_of_getLast? latest')
  have noted : x.note id (.accepted id (.data bytes final)) = { x with taken := x.taken ++ [w] } := by
    simp [note, latest, latest']
  rw [noted]
  refine ⟨⟨passed, split, ?_, latest⟩, ?_, ?_⟩
  · rw [frames, framesOf_append]
    exact (List.append_nil _).symm
  · rw [intake_accepted, List.filterMap_append, ← right.taken, List.map_append, List.map_singleton, own]
    rfl
  · exact List.forall_mem_append.mpr ⟨right.known, List.forall_mem_singleton.mpr member⟩

theorem right_tally (timely : Chronicle Session.Timely journal) (heard : framesOf journal <+: wires.map (·.frame)) :
    (journal.foldl (Tally.note id) { coming := wires }).Right id wires journal := by
  induction journal using List.reverseRecOn with
  | nil => exact ⟨⟨[], rfl, rfl, rfl⟩, rfl, nofun⟩
  | append_singleton front e ih =>
    have right := ih (timely.of_prefix (List.prefix_append ..))
      (((framesOf_append front [e]) ▸ List.prefix_append ..).trans heard)
    rw [List.foldl_concat]
    cases e with
    | dispatched frame => exact right.dispatched heard
    | accepted stream part =>
      by_cases own : stream = id
      · subst own
        cases part with
        | data bytes final => exact right.accepted (timely front _ (List.prefix_refl _))
        | headers list final => exact right.beside rfl rfl (by simp [Event.intake?, Inbound.dataFrame?])
      · exact right.beside (by cases part <;> simp [Tally.note, own]) rfl (by simp [Event.intake?, own])
    | _ => exact right.beside rfl rfl (by simp [Event.intake?])

/-- What wire frames cost is their data and their padding. -/
theorem sum_length {taken : List Weighed} {parts : List Inbound}
    (frames : taken.map (·.frame) = parts.filterMap (Inbound.dataFrame? id))
    (weights : ∀ w ∈ taken, ∀ stream bytes final, w.frame = .data stream bytes final →
      w.length = bytes.length + w.padding) :
    (taken.map (·.length)).sum = volume parts + (taken.map (·.padding)).sum := by
  induction parts generalizing taken with
  | nil =>
    obtain rfl := List.map_eq_nil_iff.mp frames
    rfl
  | cons part rest ih =>
    cases part with
    | headers list final =>
      rw [ih frames weights, volume_cons, Inbound.size, Nat.zero_add]
    | data bytes final =>
      obtain ⟨w, others, rfl, own, frames⟩ := List.map_eq_cons_iff.mp frames
      obtain ⟨first, later⟩ := List.forall_mem_cons.mp weights
      have cost := first id bytes final own
      have rest := ih frames later
      rw [List.map_cons, List.map_cons, List.sum_cons, List.sum_cons, volume_cons, Inbound.size]
      omega

end Tally

namespace Session
variable {t : Session}

section Reached
variable {config : Config} {handlers : Handlers} {schedule : Schedule} {transport : Transport}
  (h : Reaches (start .spdy3 config handlers schedule transport) t)
include h

/-- While the peer goes on and the outbox is open, all data that a stream has taken in and its handler has read was
    granted again. -/
theorem repaid_open (fits : config.window.toNat ≤ maxWindow) (hopen : t.outbox.closed = false) {id : Nat}
    {stream : Stream} (found : t.stream? id = some stream) (going : stream.peerClosed = false) :
    repaid id t.journal + volume stream.input = volume (intake id t.journal) := by
  have follows := follows_start h found
  have unceased : t.journal.any (·.ceases id) = false := Bool.eq_false_iff.mpr fun ceased =>
    Bool.eq_false_iff.mp going (follows.message.ended_iff.mpr (any_ceases.mp ceased))
  have whole : t.journal.takeWhile (!·.ceases id) = t.journal := by
    rw [List.takeWhile_eq_self_iff]
    simpa using unceased
  have paid : repaid id t.journal = readEarly id t.journal := by
    have all := (metered_start h id).repaying.all fits hopen
    rwa [past_lane, repaid_filter, readEarly_filter] at all
  rw [paid, readEarly, whole, ← volume_append, follows.split]

/-- On a stream whose peer goes on, while the outbox is open and no more than the largest window is configured, the
    window of a peer that counts the whole payloads of DATA frames is what was announced, less what waits to be read and
    less the padding of all DATA frames that were taken in. So once the handler has read all, the peer has the announced
    window again just if none of them was padded. -/
theorem padding_forfeited (fits : config.window.toNat ≤ maxWindow) (hopen : t.outbox.closed = false) (id : Nat)
    {stream : Stream} (found : t.stream? id = some stream) (going : stream.peerClosed = false) :
    ∃ announced, config.announcedWindow? .spdy3 = some announced ∧ (∃ wire, t.HasRead wire) ∧
      ∀ wire, t.HasRead wire →
        let taken := takings id ((Decoder.start config.maxFrame.toNat).weigh wire) t.journal
        let spent := (taken.map (·.length)).sum
        let window : Int := announced - spent + repaid id t.journal
        taken.map (·.frame) = (intake id t.journal).filterMap (Inbound.dataFrame? id) ∧
        (∀ w ∈ taken, ∀ bytes final, w.frame = .data id bytes final → w.length = bytes.length + w.padding) ∧
        window = announced - volume stream.input - (taken.map (·.padding)).sum ∧
        (stream.input = [] → (window = announced ↔ ∀ w ∈ taken, w.padding = 0)) := by
  refine ⟨config.window.toNat, ?_, hasRead_start h, ?_⟩
  · rw [config.announcedWindow?_eq .spdy3]
    simp [Version.hasFlowControl, fits]
  intro wire read taken spent window
  let wires := (Decoder.start config.maxFrame.toNat).weigh wire
  -- The weighed frames are those the decoder has given, the ones that still wait included.
  have heard : wires.map (·.frame) = framesOf t.journal ++ t.reader.ready := by
    have config : t.config = config := (followed_start h).config
    rw [HasRead, config] at read
    rw [Decoder.frames_weigh, read, Session.heard]
  have right : Tally.Right id wires t.journal _ := right_tally (timely_start h) (heard ▸ List.prefix_append ..)
  have weights : ∀ w ∈ taken, ∀ stream bytes final, w.frame = .data stream bytes final →
      w.length = bytes.length + w.padding := fun w member => Decoder.length_weigh _ wire w (right.known w member)
  have cost : spent = volume (intake id t.journal) + (taken.map (·.padding)).sum := sum_length right.taken weights
  have paid := repaid_open h fits hopen found going
  have left : window = config.window.toNat - volume stream.input - (taken.map (·.padding)).sum := by
    simp only [window]
    omega
  refine ⟨right.taken, fun w member => weights w member id, left, fun empty => ?_⟩
  rw [left, empty, volume_nil]
  have none : (taken.map (·.padding)).sum = 0 ↔ ∀ w ∈ taken, w.padding = 0 := by
    rw [List.sum_eq_zero_iff, List.forall_mem_map]
  rw [← none]
  omega

end Reached

/-- What a peer sends to open a stream and to bring data by it, as the given wire frames. -/
def posted (frames : Bytes) : Bytes := (Frame.headers 1 [] false none 0).encode 1 ++ frames

/-- A session that grants each stream eight bytes, and whose handler reads all that the peer has sent. -/
def posting (frames : Bytes) : Session :=
  start .spdy3 { window := 8 } { others := [.yield, .act .readAll, .await] } .atOnce
    { arrivals := [{ bytes := posted frames }], patience := 2 }

/-- A DATA frame of two bytes of data and, with the byte that tells so, three bytes of padding. -/
def paddedFrame : Bytes := [0, 0, 5, 0, 8, 0, 0, 0, 1, 2, 97, 98, 0, 0]

/-- Without padding the peer has the whole window again. -/
theorem padding_forfeited_plain :
    let wire := posted ((Frame.data 1 [1, 2, 3] false).encode 1)
    let t := (posting ((Frame.data 1 [1, 2, 3] false).encode 1)).serve
    let taken := takings 1 ((Decoder.start 16384).weigh wire) t.journal
    t.HasRead wire ∧ (8 : Int) - (taken.map (·.length)).sum + repaid 1 t.journal = 8 ∧ repaid 1 t.journal = 3 := by
  intro wire t taken
  have reached : Reaches (posting ((Frame.data 1 [1, 2, 3] false).encode 1)) t := (reaches_serve rfl).1
  obtain ⟨stream, found⟩ : ∃ stream, t.stream? 1 = some stream := Option.isSome_iff_exists.mp (by decide +kernel)
  have here : (t.stream? 1).all (fun stream => stream.input.isEmpty && !stream.peerClosed) := by decide +kernel
  simp only [found, Option.all_some, Bool.and_eq_true, List.isEmpty_iff, Bool.not_eq_true'] at here
  obtain ⟨empty, going⟩ := here
  obtain ⟨announced, told, -, all⟩ := padding_forfeited reached (by decide) (by decide +kernel) 1 found going
  have eight : announced = 8 := Option.some.inj (told.symm.trans (by decide))
  have read : t.HasRead wire := by decide +kernel
  obtain ⟨-, -, -, whole⟩ := all wire read
  refine ⟨read, ?_, by decide +kernel⟩
  rw [eight] at whole
  exact (whole empty).mpr (by decide +kernel)

/-- The handler has read all, and the side of the peer is open. The peer has spent five bytes of its window on a padded
    frame, and two were granted again. -/
theorem padding_forfeited_padded :
    let wire := posted paddedFrame
    let t := (posting paddedFrame).serve
    let taken := takings 1 ((Decoder.start 16384).weigh wire) t.journal
    Reaches (posting paddedFrame) t ∧ t.HasRead wire ∧ t.outbox.closed = false ∧
      (t.stream? 1).any (fun stream => stream.input.isEmpty && !stream.peerClosed) ∧
      (posting paddedFrame).config.announcedWindow? .spdy3 = some 8 ∧ taken.map (·.length) = [5] ∧
      repaid 1 t.journal = 2 ∧ (8 : Int) - (taken.map (·.length)).sum + repaid 1 t.journal = 5 := by
  intro wire t taken
  refine ⟨(reaches_serve rfl).1, ?_⟩
  decide +kernel

end Session

end Multiplex
