import Multiplex.Proofs.Session.Calls

/-! # Orderly lanes

The stream of a lane is well-formed, the session looks after it as long as it goes on, and none goes on
once the outbox is closed. -/

namespace Multiplex.Lane

/-- What holds of every lane. -/
structure Orderly (id : Nat) (l : Lane) : Prop where
  blank : l.fresh → l.Blank
  own : ∀ stream, l.stream = some stream → stream.id = id
  well : ∀ stream, l.stream = some stream → stream.WellFormed
  listed : ∀ stream, l.stream = some stream → stream.isActive → l.listed
  closed : l.closed → ∀ stream, l.stream = some stream → stream.isActive = false

variable {version : Version} {config : Config} {id : Nat} {l l' : Lane}

theorem orderly_empty (id : Nat) : (empty id).Orderly id :=
  ⟨fun _ => ⟨rfl, rfl, rfl, nofun⟩, nofun, nofun, nofun, nofun⟩

/-- The stream of an orderly lane, or the one that is opened there, is its own and well-formed after any calls. -/
theorem Orderly.whole (orderly : l.Orderly id) (becomes : Becomes version config id l.stream l'.stream) {t : Stream}
    (present : l'.stream = some t) : t.id = id ∧ t.WellFormed := by
  rw [present] at becomes
  cases found : l.stream with
  | none =>
    rw [found] at becomes
    obtain ⟨window, parent, priority, calls⟩ := becomes.of_none
    exact ⟨calls.id, calls.wellFormed (Stream.wellFormed_new id parent priority _ _)⟩
  | some s =>
    rw [found] at becomes
    obtain ⟨t', same, calls⟩ := becomes.calls
    obtain rfl : t = t' := Option.some.inj same
    exact ⟨calls.id.trans (orderly.own s found), calls.wellFormed (orderly.well s found)⟩

/-- Where no stream is opened, and the session neither lets go of one nor closes its outbox. -/
theorem Orderly.kept (orderly : l.Orderly id) (blank : l'.fresh → l'.Blank)
    (becomes : Becomes version config id l.stream l'.stream) (absent : l.stream = none → l'.stream = none)
    (listed : l'.listed = l.listed) (closed : l'.closed = l.closed) : l'.Orderly id := by
  have earlier {t : Stream} (present : l'.stream = some t) : ∃ s, l.stream = some s ∧ s.Calls t := by
    cases found : l.stream with
    | none =>
      rw [absent found] at present
      cases present
    | some s =>
      rw [found, present] at becomes
      obtain ⟨t', same, calls⟩ := becomes.calls
      exact ⟨s, rfl, Option.some.inj same ▸ calls⟩
  refine ⟨blank, fun t present => (orderly.whole becomes present).1, fun t present => (orderly.whole becomes present).2,
    fun t present active => ?_, fun shut t present => ?_⟩
  · obtain ⟨s, found, calls⟩ := earlier present
    rw [listed]
    exact orderly.listed s found (calls.ages.active active)
  · obtain ⟨s, found, calls⟩ := earlier present
    exact calls.inactive (orderly.closed (closed ▸ shut) s found)

theorem isActive_abort (stream : Stream) : stream.abort.isActive = false := by
  unfold Stream.abort
  split
  · next gone => simp [Stream.isActive, gone]
  · simp [Stream.isActive]

/-- Every step keeps a lane orderly. -/
theorem Step.orderly (h : Step version config id l l') (orderly : l.Orderly id) : l'.Orderly id := by
  have blank := h.blank orderly.blank
  have becomes := h.becomes orderly.blank
  have whole {t : Stream} (present : l'.stream = some t) := orderly.whole becomes present
  cases h with
  | noted | outdated | left | taken => exact orderly.kept blank becomes (fun none => none) rfl rfl
  | announced | refused | promised =>
    rw [queue_rest] at blank becomes ⊢
    exact orderly.kept blank becomes (fun none => none) rfl rfl
  | opened fresh going =>
    exact ⟨blank, fun t present => (whole present).1, fun t present => (whole present).2, fun _ _ _ => rfl,
      fun closed => absurd closed (Bool.eq_false_iff.mp going)⟩
  | trailed found | received found | hungUp found =>
    exact orderly.kept blank becomes (by simp [found]) rfl rfl
  | granted found | reset found | read found | readAll found | sentHeaders found | sentData found =>
    exact orderly.kept blank becomes (by simp [found]) (listed_put ..) (closed_put ..)
  | cancelled => exact orderly.kept blank becomes (by simp) rfl rfl
  | pruned inactive =>
    refine ⟨blank, orderly.own, orderly.well, fun stream found active => ?_, orderly.closed⟩
    exact absurd active (Bool.eq_false_iff.mp (inactive stream found))
  | closed =>
    -- A stream that the session looks after is aborted, and one that it does not is over.
    have ended {t : Stream} (present : (if l.listed then l.stream.map Stream.abort else l.stream) = some t) :
        t.isActive = false := by
      split at present
      · obtain ⟨s, -, rfl⟩ := Option.map_eq_some_iff.mp present
        exact isActive_abort s
      · next unlisted => exact Bool.eq_false_iff.mpr (mt (orderly.listed t present) unlisted)
    exact ⟨blank, fun t present => (whole present).1, fun t present => (whole present).2,
      fun t present active => absurd active (Bool.eq_false_iff.mp (ended present)), fun _ t present => ended present⟩

end Multiplex.Lane
