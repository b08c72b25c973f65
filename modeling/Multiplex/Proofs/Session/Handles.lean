import Multiplex.Proofs.Session.Intake

/-! # Handles on streams that are over

A handle on a stream outlives the stream, the run of the session and the session itself. Whatever is done
to a session (`Outlives`), no flag of a stream is taken back, so nothing can be sent any more on a stream that is over
(`inert_handles`). A stream that was aborted gives no input either; but one that has completed still gives what
nobody has read, and may make its reader wait (`inert_handles_unread`). -/

namespace Multiplex

open Relation (ReflTransGen)

namespace Lane
variable {version : Version} {config : Config} {id : Nat} {l l' : Lane}

theorem Steps.orderly (h : Steps version config id l l') (orderly : l.Orderly id) : l'.Orderly id :=
  h.keeps orderly fun _ last => last.orderly

theorem Steps.closed (h : Steps version config id l l') (closed : l.closed) : l'.closed :=
  h.keeps closed fun _ last closed =>
    Bool.of_not_eq_false fun hopen => Bool.eq_false_iff.mp (last.past.2 hopen) closed

/-- A lane is as orderly without the last event as with it. -/
theorem orderly_of_note {e : Event} (orderly : (l.note e).Orderly id) : l.Orderly id := by
  refine ⟨fun fresh => ?_, orderly.own, orderly.well, orderly.listed, orderly.closed⟩
  have blank := orderly.blank fresh
  exact ⟨blank.stream, blank.window, blank.waiting, fun e member => blank.past e (List.mem_append_left _ member)⟩

end Lane

namespace Session

variable {s t u : Session}

/-! ### What may be done to a session -/

/-- A session takes a step, or its stream is used from outside its handler, or it is dropped. -/
inductive Touch : Session → Session → Prop
  | advanced {s t : Session} (h : Advance s t) : Touch s t
  | used (s : Session) (id : Nat) (action : Action) : Touch s (s.use id action).1
  | dropped (s : Session) : Touch s s.drop

/-- What a session may become: at any moment of a run, after it, and after the session was dropped. -/
def Outlives : Session → Session → Prop := ReflTransGen Touch

theorem outlives_of_reaches (h : Reaches s t) : Outlives s t := by
  induction h with
  | refl => exact .refl
  | tail _ last ih => exact ih.tail (.advanced last)

/-- What holds of a session whatever is done to it. -/
structure Sane (s : Session) : Prop where
  stable : s.Stable
  orderly : ∀ id, (s.lane id).Orderly id

theorem Sane.fresh (sane : s.Sane) : s.Fresh := fun id => (sane.orderly id).blank

theorem sane_start (version : Version) (config : Config) (handlers : Handlers) (schedule : Schedule)
    (transport : Transport) : (start version config handlers schedule transport).Sane where
  stable := stable_start ..
  orderly id := lane_start version config handlers schedule transport id ▸ Lane.orderly_empty id

/-- A session ages: it stays sane, no flag of a stream is taken back, and a closed outbox stays closed. -/
structure Matures (s t : Session) : Prop where
  sane : t.Sane
  ages : ∀ id stream, s.stream? id = some stream → ∃ stream', t.stream? id = some stream' ∧ stream.Ages stream'
  closed : s.outbox.closed → t.outbox.closed

namespace Matures

theorem refl (sane : s.Sane) : Matures s s := ⟨sane, fun _ stream found => ⟨stream, found, .refl stream⟩, fun closed => closed⟩

theorem trans (first : Matures s t) (second : Matures t u) : Matures s u where
  sane := second.sane
  ages id stream found := by
    obtain ⟨stream', found', ages⟩ := first.ages id stream found
    obtain ⟨stream'', found'', later⟩ := second.ages id stream' found'
    exact ⟨stream'', found'', ages.trans later⟩
  closed := second.closed ∘ first.closed

theorem of_reaches (h : Reaches s t) (sane : s.Sane) : Matures s t := by
  have followed := h.lanes sane.stable sane.fresh
  exact ⟨⟨followed.stable, fun id => (followed.lanes id).orderly (sane.orderly id)⟩,
    fun id stream found => (followed.lanes id).ages (sane.fresh id) found, (followed.lanes 0).closed⟩

end Matures

/-- A use differs from a step of a task at most in that it is not noted. -/
theorem use_moves (s : Session) (id : Nat) (action : Action) :
    Moves s (s.use id action).1 ∨
      ∃ e, e.opens = (fun _ => false) ∧ Kept s (s.use id action).1 ∧ Move s ((s.use id action).1.note e) := by
  unfold use
  cases found : s.stream? id with
  | none => exact .inl .refl
  | some stream =>
    cases plain : s.pushes stream action with
    | false =>
      refine .inr ⟨.stepped id 0 (.act action) (perform addTask s stream action).2, rfl, ?_⟩
      dsimp only
      rw [perform_plain plain]
      exact ⟨Kept.perform stream plain, .acted 0 found plain⟩
    | true =>
      cases action with
      | push list priority =>
        have allowed : s.pushError? stream = none := by simpa [pushes] using plain
        refine .inl ?_
        simp only [perform_push allowed]
        exact (ReflTransGen.single (.promised list priority found allowed)).trans (launches_launchPushed _ _)
      | _ => cases plain

theorem matures_use (sane : s.Sane) (id : Nat) (action : Action) : Matures s (s.use id action).1 := by
  rcases s.use_moves id action with moves | ⟨e, other, kept, move⟩
  · exact .of_reaches (.of_moves moves) sane
  · have noted := Matures.of_reaches (.of_moves (.single move)) sane
    refine ⟨⟨kept.stable sane.stable, fun i => ?_⟩, noted.ages, fun closed => kept.closed.trans closed⟩
    have orderly := noted.sane.orderly i
    by_cases about : e.about = some i
    · rw [lane_note about (congrFun other i)] at orderly
      exact Lane.orderly_of_note orderly
    · rwa [lane_note_other about] at orderly

theorem Touch.matures (h : Touch s t) (sane : s.Sane) : Matures s t := by
  cases h with
  | advanced h => exact .of_reaches (.single h) sane
  | used id action => exact matures_use sane id action
  | dropped =>
    have stable := sane.stable
    exact ⟨⟨⟨stable.pushes, stable.halted, stable.closed, stable.limits, stable.copies, stable.reader⟩, sane.orderly⟩,
      (Matures.refl sane).ages, fun closed => closed⟩

theorem Outlives.matures (h : Outlives s t) (sane : s.Sane) : Matures s t := by
  induction h with
  | refl => exact .refl sane
  | tail _ last ih => exact ih.trans (last.matures ih.sane)

/-! ### Streams that are over -/

/-- Nothing can be sent on a stream, in whatever way: it fails because the stream was aborted or its reply has
    ended, and nothing is changed. -/
def Mute (s : Session) (stream : Stream) : Prop :=
  ∃ e, (e = .aborted ∨ e = .alreadyFinished) ∧ ∀ launch,
    (∀ list final, perform launch s stream (.headers list final) = (s, .refused e)) ∧
    ∀ bytes final, perform launch s stream (.data bytes final) = (s, .refused e)

/-- A read on a stream gives nothing, and does not wait. -/
def Deaf (s : Session) (stream : Stream) : Prop :=
  ∀ launch wait, suspends stream (.act (.read wait)) = false ∧ (perform launch s stream (.read wait)).2 = .input none

theorem mute_of_inactive (s : Session) {stream : Stream} (well : stream.WellFormed) (inactive : stream.isActive = false) :
    Mute s stream := by
  cases gone : stream.aborted with
  | true => exact ⟨.aborted, .inl rfl, fun launch => ⟨by simp [perform, send, Stream.sendHeaders, gone],
      by simp [perform, send, Stream.sendData, gone]⟩⟩
  | false =>
    have released : stream.finalReleased := by simpa [Stream.isActive, gone] using inactive
    have ended := (well.released released).1
    exact ⟨.alreadyFinished, .inr rfl, fun launch => ⟨by simp [perform, send, Stream.sendHeaders, gone, ended],
      by simp [perform, send, Stream.sendData, gone, ended]⟩⟩

theorem deaf_iff (s : Session) (stream : Stream) :
    Deaf s stream ↔ stream.aborted ∨ stream.input = [] ∧ stream.peerClosed := by
  have reply (launch : Nat → Session → Session) (wait : Bool) :
      (perform launch s stream (.read wait)).2 = .input stream.read.2.1 := rfl
  cases gone : stream.aborted with
  | true =>
    refine iff_of_true (fun launch wait => ⟨?_, ?_⟩) (.inl rfl)
    · cases wait <;> simp [suspends, Stream.mustWait, gone]
    · rw [reply, Stream.read_of_aborted gone]
  | false =>
    have part := (Stream.read_of_going gone).1
    constructor
    · intro deaf
      obtain ⟨ready, none⟩ := deaf addTask true
      have empty : stream.input = [] := by
        rw [reply, part] at none
        exact List.head?_eq_none_iff.mp (Reply.input.inj none)
      exact .inr ⟨empty, by simpa [suspends, Stream.mustWait, gone, empty] using ready⟩
    · rintro (aborted | ⟨empty, closed⟩)
      · cases aborted
      · intro launch wait
        refine ⟨?_, ?_⟩
        · cases wait <;> simp [suspends, Stream.mustWait, closed]
        · rw [reply, part, empty]
          rfl

/-! ### Runs -/

theorem closed_shutDown (s : Session) : s.shutDown.outbox.closed := (kept_shutDown s).closed

/-- A run that does not crash closes the outbox of its session. -/
theorem closed_runToEnd (ready : s.status = .ready) (going : s.runToEnd.status ≠ .crashed) :
    s.runToEnd.outbox.closed := by
  unfold runToEnd at going ⊢
  rw [if_pos ready] at going ⊢
  dsimp only at going ⊢
  split at going
  · next crashed => exact absurd crashed going
  · next sound =>
    rw [if_neg sound]
    exact closed_shutDown _

/-- A run that does not crash ends with the outbox closed. Once a stream has completed, or the outbox is closed,
    whatever is done to the session later leaves the stream over: nothing can be sent on it; it was aborted, unless
    it had completed before; and reads on it give nothing and do not wait just if it was aborted, or all of
    its message was read and the message has ended. On a stream that completed and was not aborted, a read
    gives the next part that nobody has read. -/
theorem inert_handles (version : Version) (config : Config) (handlers : Handlers) (schedule : Schedule)
    (transport : Transport) :
    let first := start version config handlers schedule transport
    (first.runToEnd.status ≠ .crashed → first.runToEnd.outbox.closed) ∧
    ∀ s t id stream, Outlives first s → s.stream? id = some stream → stream.finalReleased ∨ s.outbox.closed →
      Outlives s t →
        ∃ stream', t.stream? id = some stream' ∧ stream'.isActive = false ∧ Mute t stream' ∧
          (stream.finalReleased = false → stream'.aborted) ∧
          (Deaf t stream' ↔ stream'.aborted ∨ stream'.input = [] ∧ stream'.peerClosed) ∧
          (stream'.aborted = false →
            ∀ launch wait, (perform launch t stream' (.read wait)).2 = .input stream'.input.head?) := by
  intro first
  refine ⟨closed_runToEnd rfl, fun s t id stream before found ended later => ?_⟩
  have sane := (before.matures (sane_start version config handlers schedule transport)).sane
  have matures := later.matures sane
  obtain ⟨stream', found', ages⟩ := matures.ages id stream found
  have inactive : stream.isActive = false := by
    rcases ended with released | closed
    · simp [Stream.isActive, released]
    · exact (sane.orderly id).closed closed stream found
  have inactive' : stream'.isActive = false :=
    Bool.eq_false_iff.mpr fun active => Bool.eq_false_iff.mp inactive (ages.active active)
  refine ⟨stream', found', inactive', mute_of_inactive t ((matures.sane.orderly id).well stream' found') inactive', ?_,
    deaf_iff t stream', fun going launch wait => ?_⟩
  · intro unreleased
    exact ages.aborted (by simpa [Stream.isActive, unreleased] using inactive)
  · exact congrArg Reply.input (Stream.read_of_going going).1

/-- A session whose peer begins a message, and whose handler sends headers at once, perhaps as its whole reply, and reads
    nothing. -/
def hasty (whole : Bool) : Session :=
  start .spdy3 {} { others := [.act (.headers [] whole)] } .atOnce
    { arrivals := [{ bytes := (Frame.headers 1 [] false none 0).encode 1 }] }

/-- Where the reply is not whole, the stream is reset, and a handle on it is of no use. -/
theorem inert_handles_reset :
    let t := (hasty false).runToEnd.drop
    ∃ stream, t.stream? 1 = some stream ∧ stream.isActive = false ∧ Mute t stream ∧ Deaf t stream := by
  intro t
  obtain ⟨-, later⟩ := inert_handles .spdy3 {} { others := [.act (.headers [] false)] } .atOnce
    { arrivals := [{ bytes := (Frame.headers 1 [] false none 0).encode 1 }] }
  have ran : Outlives (hasty false) (hasty false).runToEnd := outlives_of_reaches (reaches_runToEnd _)
  obtain ⟨stream, found⟩ : ∃ stream, (hasty false).runToEnd.stream? 1 = some stream :=
    Option.isSome_iff_exists.mp (by decide +kernel)
  have unreleased : ((hasty false).runToEnd.stream? 1).any (·.finalReleased) = false := by decide +kernel
  rw [found] at unreleased
  obtain ⟨stream', found', inactive, mute, aborted, deaf, -⟩ :=
    later _ t 1 stream ran found (.inr (by decide +kernel)) (.single (.dropped _))
  exact ⟨stream', found', inactive, mute, deaf.mpr (.inl (aborted unreleased))⟩

/-- Where the reply is whole, the stream has completed, the session has finished and was dropped, a handle still
    gives the request, and makes a reader wait for what follows. -/
theorem inert_handles_unread :
    let t := (hasty true).runToEnd.drop
    (t.stream? 1).any (·.finalReleased) ∧ t.status = .stopped .finished ∧ t.outbox.closed ∧
      (t.use 1 (.read true)).2 = some (.input (some (.headers [] false))) ∧
      ((t.use 1 (.read true)).1.stream? 1).any (·.mustWait) := by
  decide +kernel

end Session

end Multiplex
