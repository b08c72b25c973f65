import Multiplex.Proofs.Session.Lanes
import Multiplex.Proofs.Stream.Calls

/-! # The calls on a stream of a session

Whatever a session does, it calls its streams and nothing more: what it holds of an identifier starts as nothing,
becomes a new stream once, and from then on changes by calls alone (`Becomes`). -/

namespace Multiplex

/-- What may become of the stream of an identifier, if there is one. -/
inductive Becomes (version : Version) (config : Config) (id : Nat) : Option Stream → Option Stream → Prop
  | unopened : Becomes version config id none none
  | opened {window parent priority : Nat} {t : Stream}
      (calls : (Stream.new version config window id parent priority).Calls t) :
      Becomes version config id none (some t)
  | called {s t : Stream} (calls : s.Calls t) : Becomes version config id (some s) (some t)

variable {version : Version} {config : Config} {id : Nat}

namespace Becomes
variable {a b c : Option Stream}

theorem refl (a : Option Stream) : Becomes version config id a a := by
  cases a with
  | none => exact .unopened
  | some => exact .called .refl

theorem trans (first : Becomes version config id a b) (second : Becomes version config id b c) :
    Becomes version config id a c := by
  cases first with
  | unopened => exact second
  | opened before =>
    cases second with
    | called after => exact .opened (before.trans after)
  | called before =>
    cases second with
    | called after => exact .called (before.trans after)

/-- One call, if there is a stream. -/
theorem map {f : Stream → Stream} (call : ∀ s : Stream, s.Call (f s)) (a : Option Stream) :
    Becomes version config id a (a.map f) := by
  cases a with
  | none => exact .unopened
  | some s => exact .called (.single (call s))

theorem calls {s : Stream} (h : Becomes version config id (some s) a) : ∃ t, a = some t ∧ s.Calls t := by
  cases h with
  | called calls => exact ⟨_, rfl, calls⟩

theorem of_none {t : Stream} (h : Becomes version config id none (some t)) :
    ∃ window parent priority, (Stream.new version config window id parent priority).Calls t := by
  cases h with
  | opened calls => exact ⟨_, _, _, calls⟩

end Becomes

namespace Lane
variable {l l' : Lane}

theorem becomes_calls {s t : Stream} (found : l.stream = some s) (found' : l'.stream = some t) (calls : s.Calls t) :
    Becomes version config id l.stream l'.stream := by
  rw [found, found']
  exact .called calls

theorem becomes_call {s t : Stream} (found : l.stream = some s) (found' : l'.stream = some t) (call : s.Call t) :
    Becomes version config id l.stream l'.stream := becomes_calls found found' (.single call)

/-- A step calls the stream of a lane, opens one, or leaves it alone. -/
theorem Step.becomes (h : Step version config id l l') (blank : l.fresh → l.Blank) :
    Becomes version config id l.stream l'.stream := by
  cases h with
  | noted | outdated | left | taken | pruned => exact .refl _
  | announced | refused | promised =>
    rw [queue_rest]
    exact .refl _
  | opened fresh =>
    rw [(blank fresh).stream]
    exact .opened (.single (.tookHeaders ..))
  | trailed found => exact becomes_call found rfl (.tookHeaders ..)
  | received found active going fits => exact becomes_call found rfl (.tookData fits)
  | granted found active positive fits => exact becomes_call found (stream_put ..) (.granted fits)
  | reset found code => exact becomes_call found (stream_put ..) (.reset _ code)
  | hungUp found => exact becomes_call found rfl (.aborted _)
  | read found => exact becomes_call found (stream_put ..) (.read _)
  | readAll found => exact becomes_calls found (stream_put ..) (.readUpTo _ _)
  | sentHeaders found index allowed => exact becomes_call found (stream_put ..) (.sentHeaders allowed)
  | sentData found index allowed => exact becomes_call found (stream_put ..) (.sentData allowed)
  | cancelled => exact .map .aborted _
  | closed =>
    dsimp only
    split
    · exact .map .aborted _
    · exact .refl _

theorem Steps.becomes (h : Steps version config id l l') (blank : l.fresh → l.Blank) :
    Becomes version config id l.stream l'.stream :=
  h.keeps (P := fun u => Becomes version config id l.stream u.stream) (.refl _) fun earlier last before =>
    before.trans (last.becomes (earlier.blank blank))

/-- No step takes back a flag of a stream. -/
theorem Step.ages (h : Step version config id l l') (blank : l.fresh → l.Blank) {s : Stream}
    (found : l.stream = some s) : ∃ t, l'.stream = some t ∧ s.Ages t := by
  obtain ⟨t, found', calls⟩ := (found ▸ h.becomes blank).calls
  exact ⟨t, found', calls.ages⟩

theorem Steps.ages (h : Steps version config id l l') (blank : l.fresh → l.Blank) {s : Stream}
    (found : l.stream = some s) : ∃ t, l'.stream = some t ∧ s.Ages t := by
  obtain ⟨t, found', calls⟩ := (found ▸ h.becomes blank).calls
  exact ⟨t, found', calls.ages⟩

end Lane

end Multiplex
