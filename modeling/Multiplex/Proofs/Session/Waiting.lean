import Multiplex.Proofs.Session.Intake
import Multiplex.Proofs.Session.Origins

/-! # Handlers that wait for input

A handler that reads a stream waits only while the message of the peer goes on and all of it that has come was read,
and nothing else lets it go on than the next part of the message, its end, or an abort (`waiting_readers`). That the
peer has closed its side of the connection is not among these: the streams whose messages it has left unfinished stay as
they are, and their readers wait on (`waiting_readers_halfOpen`). -/

namespace Multiplex.Session

variable {s t : Session}

/-! ### Reads -/

/-- In what happens from `s` to `t`, a handler first gets an answer to a read, and only frames go into the outbox
    before. -/
def Gets (id index : Nat) (step : Step) (part : Option Inbound) (s t : Session) : Prop :=
  ∃ frames : List Outgoing, s.journal ++ frames.map .queued ++ [.stepped id index step (.input part)] <+: t.journal

theorem journal_queueAll (frames : List Outgoing) (priority : Nat) (s : Session) :
    ∃ queued : List Outgoing, (s.queueAll frames priority).journal = s.journal ++ queued.map .queued := by
  unfold queueAll
  induction frames generalizing s with
  | nil => exact ⟨[], (List.append_nil _).symm⟩
  | cons f rest ih =>
    obtain ⟨queued, later⟩ := ih (s.queue f priority)
    rw [List.foldl_cons, later]
    unfold queue
    split
    · exact ⟨queued, rfl⟩
    · exact ⟨f :: queued, by simp [note]⟩

/-- A handler that reads gets what its stream gives, and goes on. -/
theorem gets_readPart (id index : Nat) (step : Step) (stream : Stream) {t : Session}
    (later : Moves ((s.readPart stream).1.note (.stepped id index step (.input stream.read.2.1))) t) :
    Gets id index step stream.read.2.1 s t := by
  obtain ⟨frames, journal⟩ := journal_queueAll stream.read.2.2 stream.read.1.priority (s.setStream stream.read.1)
  refine ⟨frames, ?_⟩
  have read : (s.readPart stream).1.journal = s.journal ++ frames.map .queued := journal
  rw [← read]
  exact later.kept.grows

/-- A handler that need not wait in a read goes on at once. -/
theorem gets_runFrom {launch : Nat → Session → Session} (launches : Launches launch) {id : Nat} {stream : Stream}
    (found : s.stream? id = some stream) (ready : stream.mustWait = false) (index : Nat) (rest : List Step) :
    Gets id index (.act (.read true)) stream.read.2.1 s (runFrom launch id index (.act (.read true) :: rest) s) := by
  have goes : runFrom launch id index (.act (.read true) :: rest) s =
      runFrom launch id (index + 1) rest
        ((s.readPart stream).1.note (.stepped id index (.act (.read true)) (.input stream.read.2.1))) := by
    simp only [runFrom, found, suspends, ready, Bool.false_eq_true, if_false]
    rfl
  rw [goes]
  exact gets_readPart id index _ stream (moves_runFrom launches id (index + 1) rest _)

/-- The handler that waits for input on a stream. -/
def reader? (s : Session) (id : Nat) : Option Parked := s.parked.find? fun p => p.stream == id && !p.waitsForPoll

/-- A suspended reader that need not wait goes on when it is looked at. -/
theorem gets_resumeReader {id : Nat} {stream : Stream} (found : s.stream? id = some stream)
    (ready : stream.mustWait = false) {p : Parked} (waits : s.reader? id = some p) :
    Gets id p.index p.step stream.read.2.1 s (s.resumeReader id) := by
  obtain ⟨own, waits'⟩ : p.stream = id ∧ p.waitsForPoll = false := by simpa using List.find?_some waits
  let u : Session := { s with parked := s.parked.eraseP fun p => p.stream == id && !p.waitsForPoll }
  have goes : s.resumeReader id = runFrom launchPushed p.stream (p.index + 1) p.rest
      ((u.readPart stream).1.note (.stepped p.stream p.index p.step (.input stream.read.2.1))) := by
    have woken : s.resumeReader id = resume p u := by
      unfold resumeReader
      dsimp only
      rw [show s.parked.find? (fun p => p.stream == id && !p.waitsForPoll) = some p from waits, found]
      exact if_neg (Bool.eq_false_iff.mp ready)
    have here : u.stream? p.stream = some stream := own.symm ▸ found
    rw [woken, resume, here, waits']
    rfl
  rw [goes, ← own]
  exact gets_readPart (s := u) p.stream p.index p.step stream (moves_runFrom launches_launchPushed ..)

/-! ### The end of the connection -/

/-- That the peer has closed its side of the connection changes no stream. -/
theorem streams_takeInput_closed (s : Session) : (s.takeInput .closed).streams = s.dispatchReady.streams := by
  unfold takeInput
  dsimp only
  split
  · rfl
  split
  · exact streams_sendGoAway ..
  · rfl

section Reached
variable {version : Version} {config : Config} {handlers : Handlers} {schedule : Schedule} {transport : Transport}
  (h : Reaches (start version config handlers schedule transport) t)
include h

/-- The first part that waits to be read is the first of the message that no handler has got. -/
theorem head_unread {id : Nat} {stream : Stream} (found : t.stream? id = some stream) :
    stream.input.head? = (intake id t.journal)[(handed id t.journal).length]? := by
  rw [← (follows_start h found).split, List.getElem?_append_right (Nat.le_refl _), Nat.sub_self, List.head?_eq_getElem?]

/-- What a read gives on a stream: the next part of the message, unless the stream was aborted. -/
theorem part_read {id : Nat} {stream : Stream} (found : t.stream? id = some stream) :
    stream.read.2.1 = if stream.aborted then none else (intake id t.journal)[(handed id t.journal).length]? := by
  cases going : stream.aborted with
  | true => rw [Stream.read_of_aborted going, if_pos rfl]
  | false => rw [(Stream.read_of_going going).1, head_unread h found, if_neg Bool.false_ne_true]

/-- A stream that the peer has ended, or that was aborted, does not make its handler wait, then or later. -/
theorem ready_later {id : Nat} {stream : Stream} (found : t.stream? id = some stream)
    (through : stream.aborted ∨ stream.peerClosed) {u : Session} (later : Reaches t u) :
    ∃ stream', u.stream? id = some stream' ∧ stream'.mustWait = false := by
  have followed := followed_start h
  obtain ⟨stream', found', ages⟩ := ((later.lanes followed.stable followed.fresh).lanes id).ages (followed.fresh id) found
  refine ⟨stream', found', Bool.eq_false_iff.mpr fun waits => ?_⟩
  obtain ⟨going, -, unended⟩ := Stream.mustWait_iff.mp waits
  rcases through with gone | closed
  · exact Bool.eq_false_iff.mp going (ages.aborted gone)
  · exact Bool.eq_false_iff.mp unended (ages.closed closed)

/-- At every moment of every session, a handler that reads its stream waits just if the stream was not aborted, all
    that has come of the message was read, and no part of it was final. Once the stream was aborted or the message has
    ended, no read on it waits any more. A handler that need not wait gets the next part of the message before
    anything else happens, or nothing if the stream was aborted or none is left, whether it comes to the read just
    then or is suspended in it. That the peer has closed its side of the connection changes no stream, and so
    ends nobody's waiting. -/
theorem waiting_readers :
    (∀ id, (t.takeInput .closed).stream? id = t.dispatchReady.stream? id) ∧
    ∀ id stream, t.stream? id = some stream →
      let next := if stream.aborted then none else (intake id t.journal)[(handed id t.journal).length]?
      (stream.mustWait ↔ stream.aborted = false ∧ handed id t.journal = intake id t.journal ∧
        ∀ part ∈ intake id t.journal, part.final = false) ∧
      ((stream.aborted ∨ ∃ part ∈ intake id t.journal, part.final) →
        ∀ u, Reaches t u → ∃ stream', u.stream? id = some stream' ∧ stream'.mustWait = false) ∧
      (stream.mustWait = false →
        (∀ launch index rest, Launches launch →
          Gets id index (.act (.read true)) next t (runFrom launch id index (.act (.read true) :: rest) t)) ∧
        ∀ p, t.reader? id = some p → Gets id p.index p.step next t (t.resumeReader id)) := by
  refine ⟨fun id => ?_, fun id stream found => ?_⟩
  · rw [stream?, streams_takeInput_closed]
    rfl
  intro next
  have follows := follows_start h found
  have part : stream.read.2.1 = next := part_read h found
  have ended := follows.message.ended_iff
  refine ⟨?_, fun through u => ready_later h found (through.imp_right ended.mpr), fun ready => ⟨?_, ?_⟩⟩
  -- Nothing is left to read just if all that was taken in was handed out.
  · rw [Stream.mustWait_iff]
    refine and_congr_right fun _ => and_congr ?_ ?_
    · rw [← follows.split, List.self_eq_append_right]
    · rw [Bool.eq_false_iff, Ne, ended]
      simp
  · intro launch index rest launches
    exact part ▸ gets_runFrom launches found ready index rest
  · intro p waits
    exact part ▸ gets_resumeReader found ready waits

end Reached

/-- A session whose peer sends headers, perhaps with the end of the message, and closes its side of the connection.
    The handler reads twice. -/
def halfOpen (final : Bool) : Session :=
  start .spdy3 {} { others := [.act (.read true), .act (.read true), .act (.headers [] true)] } .atOnce
    { arrivals := [{ bytes := (Frame.headers 1 [] final none 0).encode 1 }], patience := 3 }

/-- Where the message has ended, nobody waits, and a further read gives nothing. -/
theorem waiting_readers_ended :
    let t := (halfOpen true).runToEnd
    ∃ stream, t.stream? 1 = some stream ∧ stream.mustWait = false ∧
      Gets 1 3 (.act (.read true)) none t (runFrom addTask 1 3 [.act (.read true)] t) := by
  intro t
  obtain ⟨stream, found⟩ : ∃ stream, t.stream? 1 = some stream := Option.isSome_iff_exists.mp (by decide +kernel)
  have whole : intake 1 t.journal = [.headers [] true] := by decide +kernel
  have got : handed 1 t.journal = [.headers [] true] := by decide +kernel
  obtain ⟨-, readers⟩ := waiting_readers (reaches_runToEnd (halfOpen true))
  obtain ⟨-, later, goes⟩ := readers 1 stream found
  have last : ∃ part ∈ intake 1 t.journal, part.final := ⟨.headers [] true, whole ▸ List.mem_singleton_self _, rfl⟩
  obtain ⟨stream', found', ready⟩ := later (.inr last) t (.refl t)
  obtain rfl : stream = stream' := Option.some.inj (found.symm.trans found')
  have reads := (goes ready).1 addTask 3 [] launches_addTask
  rw [whole, got] at reads
  exact ⟨stream, found, ready, by simpa using reads⟩

/-- The peer has closed its side of the connection, all that it wrote has been taken in, and yet the handler is
    suspended in its second read until the peer is gone. -/
theorem waiting_readers_halfOpen :
    let t := (halfOpen false).serve
    Reaches (halfOpen false) t ∧ .read false .closed none ∈ t.journal ∧ t.reader.ready = [] ∧ t.status = .stopped .peerGone ∧
      (t.reader? 1).isSome ∧ (t.stream? 1).any (·.mustWait) :=
  ⟨(reaches_serve rfl).1, by decide +kernel⟩

end Multiplex.Session
