import Multiplex.Proofs.Session.Calls
import Multiplex.Proofs.Session.Handles

/-! # Streams between a session and its handles

A session and the handles on its streams come to a stream from two sides, at every moment of a run and after it. Between
them they call the stream and nothing more (`Outlives.called`), and a call that is refused changes nothing
(`perform_of_refused`). So every stream is consistent whenever anybody looks at it (`streams_consistent`). -/

namespace Multiplex.Session

open Relation (ReflTransGen)

variable {s t u : Session}

/-- From `s` to `t` the streams were called, and new ones were opened, and nothing else happened to them. -/
structure Called (s t : Session) : Prop where
  version : t.version = s.version
  config : t.config = s.config
  becomes : ∀ id, Becomes s.version s.config id (s.stream? id) (t.stream? id)

namespace Called

theorem refl (s : Session) : Called s s := ⟨rfl, rfl, fun _ => .refl _⟩

theorem trans (first : Called s t) (second : Called t u) : Called s u where
  version := second.version.trans first.version
  config := second.config.trans first.config
  becomes id := by
    have later := second.becomes id
    rw [first.version, first.config] at later
    exact (first.becomes id).trans later

theorem of_reaches (h : Reaches s t) (sane : s.Sane) : Called s t := by
  have followed := h.lanes sane.stable sane.fresh
  exact ⟨followed.version, followed.config, fun id => (followed.lanes id).becomes (sane.fresh id)⟩

end Called

theorem Touch.called (h : Touch s t) (sane : s.Sane) : Called s t := by
  cases h with
  | advanced h => exact .of_reaches (.single h) sane
  | used id action =>
    rcases s.use_moves id action with moves | ⟨e, -, -, move⟩
    · exact .of_reaches (.of_moves moves) sane
    · have noted := Called.of_reaches (.of_moves (.single move)) sane
      exact ⟨noted.version, noted.config, noted.becomes⟩
  | dropped => exact ⟨rfl, rfl, (Called.refl s).becomes⟩

theorem Outlives.called (h : Outlives s t) (sane : s.Sane) : Called s t := by
  induction h with
  | refl => exact .refl s
  | tail before last ih => exact ih.trans (last.called (Outlives.matures before sane).sane)

/-- An action that is refused changes nothing: neither the stream nor the outbox, nor anything else of the session. -/
theorem perform_of_refused {launch : Nat → Session → Session} {stream : Stream} {action : Action} {e : StreamError}
    (refused : (perform launch s stream action).2 = .refused e) : (perform launch s stream action).1 = s := by
  have sending {result : Except StreamError (Stream × List Outgoing)} (refused : (s.send result).2 = .refused e) :
      (s.send result).1 = s := by
    cases result with
    | ok => cases refused
    | error => rfl
  cases action with
  | info | read | readAll => cases refused
  | headers | data => exact sending refused
  | push list priority =>
    cases error : s.pushError? stream with
    | none => simp [perform_push error] at refused
    | some => simp [perform, error]

/-- A new stream is consistent after any calls, and calls take back no flag, so that a stream that is over stays
    over. Whatever becomes of a session, its streams are new ones after calls, and later calls make of them what they
    are later. A handle whose send is refused has changed neither the stream nor the outbox. -/
theorem streams_consistent (version : Version) (config : Config) (handlers : Handlers) (schedule : Schedule)
    (transport : Transport) :
    (∀ id parent priority receive send s, Stream.Calls { id, parent, priority, receive, send } s → s.Consistent) ∧
    (∀ s t : Stream, s.Calls t → s.Ages t ∧ (s.isActive = false → t.isActive = false)) ∧
    (∀ s, Outlives (start version config handlers schedule transport) s → ∀ id stream, s.stream? id = some stream →
      (∃ window parent priority, (Stream.new version config window id parent priority).Calls stream) ∧
      stream.Consistent ∧
      ∀ t, Outlives s t → ∃ stream', t.stream? id = some stream' ∧ stream.Calls stream') ∧
    ∀ launch s stream action e, (perform launch s stream action).2 = .refused e →
      (perform launch s stream action).1 = s := by
  have new {id parent priority receive send s} (calls : Stream.Calls { id, parent, priority, receive, send } s) :
      s.Consistent := calls.consistent
  refine ⟨fun _ _ _ _ _ _ => new, fun _ _ calls => ⟨calls.ages, calls.inactive⟩, ?_,
    fun _ _ _ _ _ => perform_of_refused⟩
  intro s before id stream found
  have sane := sane_start version config handlers schedule transport
  have opened := (before.called sane).becomes id
  rw [found] at opened
  obtain ⟨window, parent, priority, calls⟩ := opened.of_none
  refine ⟨⟨window, parent, priority, calls⟩, new calls, fun t later => ?_⟩
  have becomes := (later.called (before.matures sane).sane).becomes id
  rw [found] at becomes
  exact becomes.calls

/-- A new stream whose window lets two bytes go. -/
def scarce : Stream := { id := 1, parent := 0, priority := 3, receive := none, send := .start 2 true }

/-- The stream that has sent four bytes as its whole reply, and has two of them let go. -/
def halfway : Stream :=
  { scarce with headersSent := true, finalSent := true, send.credit := 0,
                pending := [{ bytes := [99, 100], final := true }] }

/-- The last two bytes wait until the peer grants as many. Then the stream is over and stays over, also when the session
    resets it. The stream of a session that has run stays where it is when the session is dropped, and data that is
    refused on it changes nothing. -/
theorem streams_consistent_halfway :
    scarce.Calls halfway ∧ halfway.Consistent ∧ halfway.isActive ∧
      (∃ ended frames, halfway.grant 2 = .ok (ended, frames) ∧ halfway.Ages ended ∧
        (ended.reset ErrorCode.internalError).1.isActive = false) ∧
      ∃ stream, (hasty true).runToEnd.stream? 1 = some stream ∧ stream.Consistent ∧
        (∃ later, (hasty true).runToEnd.drop.stream? 1 = some later ∧ stream.Calls later) ∧
        perform launchPushed (hasty true).runToEnd stream (.data [1] true) =
          ((hasty true).runToEnd, .refused .alreadyFinished) := by
  obtain ⟨consistent, ages, whole, unchanged⟩ :=
    streams_consistent .spdy3 {} { others := [.act (.headers [] true)] } .atOnce
      { arrivals := [{ bytes := (Frame.headers 1 [] false none 0).encode 1 }] }
  have begins : scarce.sendHeaders [] false = .ok ({ scarce with headersSent := true }, [.headers 1 [] false none]) := rfl
  have replies : ({ scarce with headersSent := true } : Stream).sendData [97, 98, 99, 100] true 16384 =
      .ok (halfway, [.frame (.data 1 [97, 98] false)]) := by decide +kernel
  have calls : scarce.Calls halfway := .tail (.single (.sentHeaders begins)) (.sentData replies)
  refine ⟨calls, consistent 1 0 3 none (.start 2 true) halfway calls, rfl, ?_, ?_⟩
  · obtain ⟨ended, frames, granted, inactive⟩ :
        ∃ ended frames, halfway.grant 2 = .ok (ended, frames) ∧ ended.isActive = false := ⟨_, _, rfl, by decide +kernel⟩
    exact ⟨ended, frames, granted, (ages _ _ (.single (.granted granted))).1,
      (ages _ _ (.single (.reset ended _))).2 inactive⟩
  · have ran : Outlives (hasty true) (hasty true).runToEnd := outlives_of_reaches (reaches_runToEnd _)
    obtain ⟨stream, found⟩ : ∃ stream, (hasty true).runToEnd.stream? 1 = some stream :=
      Option.isSome_iff_exists.mp (by decide +kernel)
    have ended : ((hasty true).runToEnd.stream? 1).any (fun s => s.finalSent && !s.aborted) := by decide +kernel
    obtain ⟨sent, going⟩ : stream.finalSent ∧ stream.aborted = false := by simpa [found] using ended
    have refused :
        (perform launchPushed (hasty true).runToEnd stream (.data [1] true)).2 = .refused .alreadyFinished := by
      simp [perform, send, Stream.sendData, sent, going]
    obtain ⟨-, agreed, later⟩ := whole _ ran 1 stream found
    exact ⟨stream, found, agreed, later _ (.single (.dropped _)), Prod.ext (unchanged _ _ _ _ _ refused) refused⟩

end Multiplex.Session
