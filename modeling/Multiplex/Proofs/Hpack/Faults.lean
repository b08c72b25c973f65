import Multiplex.Header

/-! # Blocks that crash their reader

A change of the table's capacity is the only item whose number is taken for granted. A block crashes its reader
exactly if the items at its front can be read and are followed by such a change whose number does not end
(`Hpack.Trips`); every other block is read, or is refused with an error. -/

namespace Multiplex.Hpack

/-! ### Numbers that do not end -/

namespace Integer

theorem readGroups_error_iff (value scale taken : Nat) (bytes : Bytes) (early : taken < maxOctets) :
    (∃ e, readGroups value scale taken bytes = .error e) ↔
      ∀ b ∈ bytes.take (maxOctets - taken), 0x80 ≤ b.toNat := by
  obtain ⟨more, room⟩ : ∃ more, maxOctets - taken = more + 1 := ⟨maxOctets - taken - 1, by omega⟩
  fun_induction readGroups value scale taken bytes generalizing more with
  | case1 => simp
  | case2 value scale taken b rest value' last =>
    rw [room, List.take_succ_cons]
    refine iff_of_false (by simp) fun groups => ?_
    exact Nat.not_le.mpr last (groups b List.mem_cons_self)
  | case3 value scale taken b rest goesOn full =>
    obtain rfl : more = 0 := by omega
    rw [room, List.take_succ_cons, List.take_zero]
    exact iff_of_true ⟨_, rfl⟩ (List.forall_mem_singleton.mpr (Nat.not_lt.mp goesOn))
  | case4 value scale taken b rest value' goesOn roomy ih =>
    obtain ⟨less, rfl⟩ : ∃ less, more = less + 1 := ⟨more - 1, by omega⟩
    rw [ih (by omega) less (by omega), room, List.take_succ_cons, List.forall_mem_cons,
      show maxOctets - (taken + 1) = less + 1 by omega]
    exact (and_iff_right (Nat.not_lt.mp goesOn)).symm

/-- A number cannot be read if it fills its first byte and its groups go on for as long as they may. -/
theorem decode_error_iff (full : Nat) (b : UInt8) (rest : Bytes) :
    (∃ e, decode full (b :: rest) = .error e) ↔
      full ≤ b.toNat % (full + 1) ∧ ∀ c ∈ rest.take 4, 0x80 ≤ c.toNat := by
  unfold decode
  dsimp only
  split
  · next small => exact iff_of_false (by simp) fun filled => Nat.not_le.mpr small filled.1
  · next filled =>
    rw [readGroups_error_iff _ _ _ _ (by decide)]
    exact (and_iff_right (Nat.not_lt.mp filled)).symm

end Integer

/-! ### Items -/

section Safe
variable {α β : Type}

/-- A reading that may be refused, but does not crash. -/
def Safe (result : Except Fault α) : Prop := result ≠ .error .crash

theorem Safe.bind {first : Except Fault α} {next : α → Except Fault β} (safe : Safe first) (then_ : ∀ a, Safe (next a)) :
    Safe (first >>= next) := by
  cases first with
  | ok a => exact then_ a
  | error fault => exact fun crash => safe (congrArg Except.error (Except.error.inj crash))

theorem safe_readInteger (full : Nat) (bytes : Bytes) : Safe (readInteger full bytes) := by
  unfold readInteger
  split <;> nofun

theorem safe_readString (bytes : Bytes) : Safe (readString bytes) := by
  refine (safe_readInteger 127 bytes).bind fun ⟨length, rest⟩ => ?_
  dsimp only
  split
  · nofun
  · split
    · nofun
    · split <;> nofun

theorem safe_readName (t : Table) (i : Nat) (bytes : Bytes) : Safe (readName t i bytes) := by
  unfold readName
  split
  · exact safe_readString bytes
  · split <;> nofun

theorem safe_readLiteral (t : Table) (full : Nat) (bytes : Bytes) : Safe (readLiteral t full bytes) :=
  (safe_readInteger full bytes).bind fun _ => (safe_readName t _ _).bind fun _ => (safe_readString _).bind nofun

end Safe

/-- An item crashes its reader if it is a change of capacity whose number does not end. -/
theorem readItem_crash_iff (t : Table) (bytes : Bytes) :
    readItem t bytes = .error .crash ↔ ∃ rest, bytes = 0x3f :: rest ∧ ∀ b ∈ rest.take 4, 0x80 ≤ b.toNat := by
  cases bytes with
  | nil => exact iff_of_false nofun nofun
  | cons b rest =>
    unfold readItem
    rw [List.headD_cons]
    dsimp only
    split
    · next indexed =>
      refine iff_of_false ((safe_readInteger 127 _).bind fun ⟨i, rest⟩ => ?_) ?_
      · dsimp only
        split <;> nofun
      · rintro ⟨_, same, -⟩
        cases same
        exact absurd indexed (by decide)
    · split
      · next inserted =>
        refine iff_of_false ((safe_readLiteral t 63 _).bind nofun) ?_
        rintro ⟨_, same, -⟩
        cases same
        exact absurd inserted (by decide)
      · split
        · next small large change =>
          have endless := Integer.decode_error_iff 31 b rest
          -- Only with all five bits of its prefix set does the size go on into the bytes that follow.
          have filled : 31 ≤ b.toNat % (31 + 1) ↔ b = 0x3f := by
            rw [← UInt8.toNat_inj]
            show 31 ≤ b.toNat % 32 ↔ b.toNat = 63
            omega
          rw [filled] at endless
          split
          · next result read =>
            refine iff_of_false nofun ?_
            rintro ⟨_, same, groups⟩
            cases same
            obtain ⟨e, unread⟩ := endless.mpr ⟨rfl, groups⟩
            rw [read] at unread
            cases unread
          · next e unread =>
            obtain ⟨rfl, groups⟩ := endless.mp ⟨e, unread⟩
            exact iff_of_true rfl ⟨rest, rfl, groups⟩
        · next other =>
          refine iff_of_false ((safe_readLiteral t 15 _).bind nofun) ?_
          rintro ⟨_, same, -⟩
          cases same
          exact absurd (by decide) other

/-! ### Blocks -/

namespace Table

/-- The table after an item. -/
def after (t : Table) : Item → Table
  | .field _ => t
  | .insertion f => t.insert f
  | .capacity n => t.resize n

end Table

/-- A block in which a change of capacity whose number does not end follows items that can be read. -/
inductive Trips : Table → Bytes → Prop where
  | here (t : Table) {rest : Bytes} (endless : ∀ b ∈ rest.take 4, 0x80 ≤ b.toNat) : Trips t (0x3f :: rest)
  | later {t : Table} {bytes rest : Bytes} {item : Item} (read : readItem t bytes = .ok (item, rest))
      (trips : Trips (t.after item) rest) : Trips t bytes

/-- Behind an item that can be read, a block crashes its reader if what follows does. -/
theorem trips_of_read {t : Table} {bytes rest : Bytes} {item : Item} (read : readItem t bytes = .ok (item, rest)) :
    Trips t bytes ↔ Trips (t.after item) rest := by
  refine ⟨fun trips => ?_, fun trips => .later read trips⟩
  cases trips with
  | here _ endless =>
    rw [(readItem_crash_iff t _).mpr ⟨_, rfl, endless⟩] at read
    cases read
  | later read' trips =>
    rw [read] at read'
    cases read'
    exact trips

/-- Where an item cannot be read, the block crashes its reader if the item does. -/
theorem trips_of_error {t : Table} {bytes : Bytes} {fault : Fault} (failed : readItem t bytes = .error fault) :
    Trips t bytes ↔ fault = .crash := by
  constructor
  · intro trips
    cases trips with
    | here _ endless =>
      rw [(readItem_crash_iff t _).mpr ⟨_, rfl, endless⟩] at failed
      cases failed
      rfl
    | later read =>
      rw [failed] at read
      cases read
  · rintro rfl
    obtain ⟨rest, rfl, endless⟩ := (readItem_crash_iff t bytes).mp failed
    exact .here t endless

theorem not_trips_nil (t : Table) : ¬ Trips t [] := by
  rw [trips_of_error (show readItem t [] = .error (.malformed (.integer .notEnoughOctets)) from rfl)]
  nofun

theorem readItems_crash_iff (t : Table) (done : List Field) (bytes : Bytes) :
    (t.readItems done bytes).2 = .error .crash ↔ Trips t bytes := by
  fun_induction Table.readItems t done bytes with
  | case1 t done bytes none =>
    rw [List.isEmpty_iff.mp none]
    exact iff_of_false nofun (not_trips_nil t)
  | case2 t done bytes some fault failed =>
    rw [trips_of_error failed]
    exact ⟨Except.error.inj, congrArg Except.error⟩
  | case3 t done bytes some f rest read ih | case4 t done bytes some f rest read ih =>
    exact ih.trans (trips_of_read read).symm
  | case5 t done bytes some n rest read last =>
    rw [trips_of_read read, List.isEmpty_iff.mp last]
    exact iff_of_false nofun (not_trips_nil _)
  | case6 t done bytes some n rest read more ih => exact ih.trans (trips_of_read read).symm

/-- A block crashes its reader, whatever the state of the table, exactly if it trips it. -/
theorem decode_crash_iff (t : Table) (block : Bytes) : (t.decode block).2 = .error .crash ↔ Trips t block :=
  readItems_crash_iff t [] block

end Multiplex.Hpack

namespace Multiplex.Header

/-- The headers of a block are read as its fields are. -/
theorem decodeBlock_crash_iff (t : Hpack.Table) (block : Bytes) :
    (decodeBlock t block).2 = .error .crash ↔ Hpack.Trips t block := by
  rw [← Hpack.decode_crash_iff]
  show (t.decode block).2.map _ = .error .crash ↔ _
  cases (t.decode block).2 with
  | ok => exact iff_of_false (by nofun) (by nofun)
  | error fault => exact ⟨fun same => congrArg _ (Except.error.inj same), fun same => congrArg _ (Except.error.inj same)⟩

end Multiplex.Header
