import Multiplex.Proofs.Session.Farewell

/-! # What a session has read

A session feeds all that it reads to its decoder and forgets it. At every moment there are bytes that bring a new decoder
to where that of the session is, and give the frames that the session has heard (`Session.hasRead_start`). -/

namespace Multiplex.Session

open Multiplex.Frame (Decoder)

variable {s t : Session}

/-- The frames that a session has heard: those that it has dispatched, and those that wait for it. -/
def heard (s : Session) : List Frame := framesOf s.journal ++ s.reader.ready

/-- A decoder that reads `wire` from the beginning comes to where that of the session is, and gives the frames that the
    session has heard. -/
def HasRead (s : Session) (wire : Bytes) : Prop :=
  (Decoder.start s.config.maxFrame.toNat).feed wire = (s.reader.decoder, s.heard)

deriving instance DecidableEq for Decoder

instance (s : Session) (wire : Bytes) : Decidable (s.HasRead wire) := inferInstanceAs (Decidable (_ = _))

/-- A change after which nothing more is heard. -/
structure Unheard (s t : Session) : Prop where
  reader : t.reader = s.reader
  journal : ∃ events, t.journal = s.journal ++ events ∧ ∀ e ∈ events, e.frame? = none

namespace Unheard

theorem of_journal (reader : t.reader = s.reader) (same : t.journal = s.journal) : Unheard s t :=
  ⟨reader, [], same.trans (List.append_nil _).symm, nofun⟩

theorem note (s : Session) {e : Event} (unheard : e.frame? = none) : Unheard s (s.note e) :=
  ⟨rfl, [e], rfl, List.forall_mem_singleton.mpr unheard⟩

theorem inner (reader : t.reader = s.reader) (inner : Inner s t) : Unheard s t := by
  obtain ⟨events, journal, inner⟩ := inner.journal
  exact ⟨reader, events, journal, fun e member => Event.frame?_of_isInner (inner e member)⟩

theorem framesOf (unheard : Unheard s t) : framesOf t.journal = Multiplex.framesOf s.journal := by
  obtain ⟨events, journal, unheard⟩ := unheard.journal
  have none : Multiplex.framesOf events = [] := List.filterMap_eq_nil_iff.mpr unheard
  rw [journal, framesOf_append, none, List.append_nil]

theorem heard (unheard : Unheard s t) : t.heard = s.heard := by
  rw [Session.heard, Session.heard, unheard.framesOf, unheard.reader]

end Unheard

theorem Kept.unheard (kept : Kept s t) : Unheard s t := by
  obtain ⟨events, journal, inner⟩ := kept.journal
  refine ⟨kept.reader, events, journal, fun e member => ?_⟩
  have here := inner e member
  cases e <;> first | rfl | cases here

/-- A step hears nothing, or what the decoder gives for a piece of input. -/
theorem Advance.heard (h : Advance s t) :
    t.reader.decoder = s.reader.decoder ∧ t.heard = s.heard ∨
      ∃ bytes more, s.reader.decoder.feed bytes = (t.reader.decoder, more) ∧ t.heard = s.heard ++ more := by
  have still {u : Session} (unheard : Unheard u t) (decoder : u.reader.decoder = s.reader.decoder)
      (heard : u.heard = s.heard) : t.reader.decoder = s.reader.decoder ∧ t.heard = s.heard :=
    ⟨(congrArg _ unheard.reader).trans decoder, unheard.heard.trans heard⟩
  cases h with
  | moved h => exact .inl (still h.kept.unheard rfl rfl)
  | began =>
    let opening : Session := { s with status := .running }
    exact .inl (still (.inner (sent_write opening _ _).reader (.write opening _ _)) rfl rfl)
  | polled => exact .inl (still (.note s rfl) rfl rfl)
  | @read running wait status reader fed =>
    have noted := Unheard.note { s with reader } (e := .read wait status reader.decoder.failure) rfl
    rcases fed with rfl | ⟨bytes, rfl⟩
    · exact .inl (still noted rfl rfl)
    · exact .inr ⟨bytes, (s.reader.decoder.feed bytes).2, rfl, noted.heard.trans (List.append_assoc ..).symm⟩
  | @dispatched running frame reader next =>
    have limited := (effect_dispatch { s with reader } frame).limited
    unfold Frame.Reader.next? at next
    split at next <;> cases next
    next ready waiting =>
    -- The frame goes from those that wait to those that were dispatched.
    refine .inl (still (Kept.unheard limited) rfl ?_)
    simp [Session.heard, note, framesOf, Event.frame?, waiting]
  | wentAway running code => exact .inl (still (Kept.unheard (limited_sendGoAway s code)) rfl rfl)
  | @wrote running f outbox next =>
    let table := (f.wire s.peer.maxFrame s.sendTable).1
    let taken : Session := note { s with outbox, sendTable := table } (.taken f)
    have noted : taken.heard = s.heard := (Unheard.note { s with outbox, sendTable := table } rfl).heard
    exact .inl (still (.inner (sent_writeAll _ taken).reader (.writeAll _ taken)) rfl noted)
  | halted => exact .inl (still (Kept.foldl_cancel _ { s with executor := s.executor.stop.1 }).unheard rfl rfl)
  | _ => exact .inl (still (.of_journal (s := s) rfl rfl) rfl rfl)

/-- What a session has read can be told at every moment. -/
theorem hasRead_start {version : Version} {config : Config} {handlers : Handlers} {schedule : Schedule}
    {transport : Transport} (h : Reaches (start version config handlers schedule transport) t) :
    ∃ wire, t.HasRead wire := by
  induction h with
  | refl => exact ⟨[], Decoder.feed_start_nil _⟩
  | @tail u v earlier last ih =>
    obtain ⟨wire, read⟩ := ih
    have config : v.config = u.config := last.settled.2
    unfold HasRead at read ⊢
    rcases last.heard with ⟨decoder, heard⟩ | ⟨bytes, more, fed, heard⟩
    · exact ⟨wire, by rw [config, read, decoder, heard]⟩
    · exact ⟨wire ++ bytes, by rw [config, Decoder.feed_append, read, fed, heard]⟩

end Multiplex.Session
