import Mathlib.Algebra.Group.Nat.Defs
import Multiplex.Header
import Multiplex.Proofs.Text.Utf8

/-! # Reading header blocks back

A receiver whose table is the sender's reads a block as it was written, and its table is the sender's again
after it (`Header.decodeBlock_encodeBlock`): so the two stay in step over any number of blocks
(`Header.tableAfter_encodeBlocks`). Numbers are read back if they are not too large for the bytes that an
integer may take, which no index is in a table that keeps to its capacity (`Table.Moderate`). -/

namespace Multiplex

namespace Hpack

/-! ### Integers -/

namespace Integer

/-- The least number that takes too many bytes behind low bits that hold numbers up to `full`. -/
def bound (full : Nat) : Nat := full + 128 ^ (maxOctets - 1)

theorem readGroups_groups (n value scale taken : Nat) (taken_lt : taken < maxOctets)
    (small : n < 128 ^ (maxOctets - taken)) (rest : Bytes) :
    readGroups value scale taken (groups n ++ rest) = .ok (value + n * scale, rest) := by
  fun_induction groups n generalizing value scale taken with
  | case1 n last =>
    have byte : (UInt8.ofNat n).toNat = n := UInt8.toNat_ofNat_of_lt' (show n < 256 by omega)
    rw [List.singleton_append, readGroups, byte, if_pos last, Nat.mod_eq_of_lt last]
  | case2 n more ih =>
    have byte : (UInt8.ofNat (n % 128 + 128)).toNat = n % 128 + 128 :=
      UInt8.toNat_ofNat_of_lt' (show n % 128 + 128 < 256 by omega)
    obtain ⟨left, room⟩ : ∃ left, maxOctets - taken = left + 1 := ⟨maxOctets - taken - 1, by omega⟩
    rw [room, Nat.pow_succ] at small
    have further : left ≠ 0 := by
      rintro rfl
      omega
    have fits : n / 128 < 128 ^ (maxOctets - (taken + 1)) := by
      rw [show maxOctets - (taken + 1) = left by omega]
      exact Nat.div_lt_of_lt_mul (by rwa [Nat.mul_comm])
    rw [List.cons_append, readGroups, byte, if_neg (by omega), if_neg (by omega), ih _ _ _ (by omega) fits]
    congr 2
    have parts : n = n % 128 + 128 * (n / 128) := (Nat.mod_add_div n 128).symm
    calc value + (n % 128 + 128) % 128 * scale + n / 128 * (scale * 128)
        = value + (n % 128 + 128 * (n / 128)) * scale := by
          rw [Nat.add_mod_right, Nat.mod_mod, Nat.add_mul, Nat.add_assoc]
          congr 2
          rw [Nat.mul_comm scale 128, ← Nat.mul_assoc, Nat.mul_comm (n / 128)]
      _ = value + n * scale := by rw [← parts]

section Encode
variable (high full : Nat) (narrow : high + full < 256)
include narrow

/-- The first byte of an integer. -/
theorem headD_encode (n : Nat) (rest : Bytes) :
    ((encode high full n ++ rest).headD 0).toNat = high + min n full := by
  unfold encode
  split
  · next small =>
    rw [List.singleton_append, List.headD_cons, UInt8.toNat_ofNat_of_lt' (show high + n < 256 by omega),
      Nat.min_eq_left (Nat.le_of_lt small)]
  · next large =>
    rw [List.cons_append, List.headD_cons, UInt8.toNat_ofNat_of_lt' narrow, Nat.min_eq_right (Nat.le_of_not_lt large)]

/-- An integer that was written is read back, whatever precedes and follows it. -/
theorem decode_encode (aligned : high % (full + 1) = 0) {n : Nat} (small : n < bound full) (rest : Bytes) :
    decode full (encode high full n ++ rest) = .ok (n, rest) := by
  have low {k : Nat} (inside : k ≤ full) : (high + k) % (full + 1) = k := by
    rw [Nat.add_mod, aligned, Nat.zero_add, Nat.mod_mod, Nat.mod_eq_of_lt (Nat.lt_succ_of_le inside)]
  unfold encode
  split
  · next short =>
    have byte : (UInt8.ofNat (high + n)).toNat = high + n :=
      UInt8.toNat_ofNat_of_lt' (show high + n < 256 by omega)
    rw [List.singleton_append, decode, byte, low (Nat.le_of_lt short), if_pos short]
  · next long =>
    have byte : (UInt8.ofNat (high + full)).toNat = high + full := UInt8.toNat_ofNat_of_lt' narrow
    rw [List.cons_append, decode, byte, low (Nat.le_refl _), if_neg (Nat.lt_irrefl _),
      readGroups_groups (n - full) full 1 1 (by decide) (by unfold bound at small; omega)]
    congr 2
    omega

end Encode

end Integer

theorem readInteger_encode (high full : Nat) (narrow : high + full < 256) (aligned : high % (full + 1) = 0)
    {n : Nat} (small : n < Integer.bound full) (rest : Bytes) :
    readInteger full (Integer.encode high full n ++ rest) = .ok (n, rest) := by
  rw [readInteger, Integer.decode_encode high full narrow aligned small]

/-! ### Strings -/

theorem readString_encodeString {s : Bytes} (short : s.length < Integer.bound 127) (rest : Bytes) :
    readString (encodeString s ++ rest) = .ok (s, rest) := by
  have first := Integer.headD_encode 0 127 (by decide) s.length (s ++ rest)
  have counted := readInteger_encode 0 127 (by decide) (by decide) short (s ++ rest)
  have plain : ((Integer.encode 0 127 s.length ++ (s ++ rest)).headD 0).toNat < 0x80 := by omega
  unfold readString encodeString
  rw [List.append_assoc, counted]
  simp only [bind, Except.bind, pure, Except.pure, List.take_left, List.drop_left, Nat.lt_irrefl, if_false, if_pos plain]

/-! ### Items -/

section Items
variable {t : Table} {bytes rest : Bytes} {f : Field}

theorem readLiteral_eq {full i : Nat} {named valued : Bytes} (index : readInteger full bytes = .ok (i, named))
    (name : readName t i named = .ok (f.name, valued)) (value : readString valued = .ok (f.value, rest)) :
    readLiteral t full bytes = .ok (f, rest) := by
  simp only [readLiteral, index, name, value, bind, Except.bind, pure, Except.pure]

theorem readItem_indexed {i : Nat} (first : 0x80 ≤ (bytes.headD 0).toNat)
    (index : readInteger 127 bytes = .ok (i, rest)) (got : t.get? i = some f) :
    readItem t bytes = .ok (.field f, rest) := by
  simp only [readItem, if_pos first, index, got, bind, Except.bind, pure, Except.pure]

theorem readItem_insertion (least : 0x40 ≤ (bytes.headD 0).toNat) (greatest : (bytes.headD 0).toNat < 0x80)
    (literal : readLiteral t 63 bytes = .ok (f, rest)) : readItem t bytes = .ok (.insertion f, rest) := by
  simp only [readItem, if_neg (Nat.not_le.mpr greatest), if_pos least, literal, bind, Except.bind, pure, Except.pure]

theorem readItem_literal (greatest : (bytes.headD 0).toNat < 0x20)
    (literal : readLiteral t 15 bytes = .ok (f, rest)) : readItem t bytes = .ok (.field f, rest) := by
  simp only [readItem, if_neg (show ¬ 0x80 ≤ (bytes.headD 0).toNat by omega),
    if_neg (show ¬ 0x40 ≤ (bytes.headD 0).toNat by omega), if_neg (Nat.not_le.mpr greatest), literal, bind,
    Except.bind, pure, Except.pure]

end Items

/-! ### Fields -/

/-- A field whose strings are short enough for the integers that count them. -/
def Field.IsShort (f : Field) : Prop := f.name.length < Integer.bound 127 ∧ f.value.length < Integer.bound 127

instance (f : Field) : Decidable f.IsShort := inferInstanceAs (Decidable (_ ∧ _))

namespace Table

/-- A table that keeps to its capacity, which is no more than a word holds. -/
structure Moderate (t : Table) : Prop where
  held : 32 * t.inserted.length ≤ t.capacity
  capacity : t.capacity < 2 ^ 32

theorem length_newest (room : Nat) (fields : List Field) : 32 * (newest room fields).length ≤ room := by
  induction fields generalizing room with
  | nil => exact Nat.zero_le _
  | cons f rest ih =>
    unfold newest
    split
    · next fits =>
      have later := ih (room - f.size)
      have least : 32 ≤ f.size := Nat.le_add_left ..
      rw [List.length_cons]
      omega
    · exact Nat.zero_le _

theorem Moderate.insert {t : Table} (moderate : t.Moderate) (f : Field) : (t.insert f).Moderate :=
  ⟨length_newest .., moderate.capacity⟩

theorem moderate_empty : ({} : Table).Moderate := ⟨by decide, by decide⟩

theorem Moderate.length_fields {t : Table} (moderate : t.Moderate) : t.fields.length < Integer.bound 15 := by
  have held := moderate.held
  have capacity := moderate.capacity
  have static : staticFields.length = 61 := rfl
  simp only [fields, List.length_append, Integer.bound, Integer.maxOctets]
  omega

variable {t : Table} {f : Field} {i : Nat}

theorem get?_of_indexOf? (found : t.indexOf? f = some i) : t.get? i = some f ∧ i ≤ t.fields.length := by
  obtain ⟨j, first, rfl⟩ := Option.map_eq_some_iff.mp found
  obtain ⟨inside, same, -⟩ := List.findIdx?_eq_some_iff_getElem.mp first
  exact ⟨List.getElem?_eq_some_iff.mpr ⟨inside, by simpa using same⟩, inside⟩

theorem get?_of_lastNamed? (found : t.lastNamed? f.name = some i) :
    ∃ g, t.get? i = some g ∧ g.name = f.name ∧ i ≠ 0 ∧ i ≤ t.fields.length := by
  obtain ⟨⟨g, j⟩, last, rfl⟩ := Option.map_eq_some_iff.mp found
  obtain ⟨member, named⟩ := List.mem_filter.mp (List.mem_of_getLast? last)
  obtain ⟨least, greatest, same⟩ := List.mem_zipIdx member
  obtain ⟨k, rfl⟩ : ∃ k, j = k + 1 := ⟨j - 1, by omega⟩
  refine ⟨g, ?_, by simpa using named, by omega, by omega⟩
  exact List.getElem?_eq_some_iff.mpr ⟨by omega, by simp [same]⟩

/-- A field that was written is read back, and the tables of both ends change alike. -/
theorem readItem_encodeField (moderate : t.Moderate) (short : f.IsShort) (rest : Bytes) :
    readItem t ((t.encodeField f).2 ++ rest) = .ok (.field f, rest) ∧ (t.encodeField f).1 = t ∨
      readItem t ((t.encodeField f).2 ++ rest) = .ok (.insertion f, rest) ∧ (t.encodeField f).1 = t.insert f := by
  have bounded := moderate.length_fields
  have wider : Integer.bound 15 ≤ Integer.bound 127 := by decide
  unfold encodeField
  cases held : t.indexOf? f with
  | some i =>
    obtain ⟨got, inside⟩ := get?_of_indexOf? held
    have first := Integer.headD_encode 0x80 127 (by decide) i rest
    have read := readInteger_encode 0x80 127 (n := i) (by decide) (by decide) (by omega) rest
    refine .inl ⟨?_, rfl⟩
    dsimp only
    exact readItem_indexed (by omega) read got
  | none =>
    have value := readString_encodeString short.2 rest
    -- A name that the table holds is sent by index and the field is not entered; a new name enters it.
    cases named : t.lastNamed? f.name with
    | some i =>
      obtain ⟨g, got, same, positive, inside⟩ := get?_of_lastNamed? named
      have first := Integer.headD_encode 0 15 (by decide) i (encodeString f.value ++ rest)
      have read := readInteger_encode 0 15 (n := i) (by decide) (by decide) (by omega)
        (encodeString f.value ++ rest)
      have name : readName t i (encodeString f.value ++ rest) = .ok (f.name, encodeString f.value ++ rest) := by
        simp only [readName, if_neg positive, got, same]
      refine .inl ⟨?_, rfl⟩
      dsimp only
      rw [List.append_assoc]
      exact readItem_literal (by omega) (readLiteral_eq read name value)
    | none =>
      have name := readString_encodeString short.1 (encodeString f.value ++ rest)
      refine .inr ⟨?_, rfl⟩
      dsimp only
      rw [List.append_assoc]
      have first : (0x40 : UInt8).toNat = 0x40 := rfl
      exact readItem_insertion (Nat.le_of_eq first.symm) (first ▸ by decide) (readLiteral_eq (i := 0) rfl name value)

/-! ### Blocks -/

/-- What was written before a block stands before it. -/
theorem encode_behind (t : Table) (before : Bytes) (fields : List Field) :
    fields.foldl
        (fun (t, block) f =>
          let (t, bytes) := t.encodeField f
          (t, block ++ bytes))
        (t, before) =
      ((t.encode fields).1, before ++ (t.encode fields).2) := by
  unfold encode
  induction fields generalizing t before with
  | nil => simp
  | cons f rest ih =>
    rw [List.foldl_cons, List.foldl_cons]
    dsimp only
    rw [ih, ih _ ([] ++ _), List.nil_append, List.append_assoc]

theorem encode_cons (t : Table) (f : Field) (rest : List Field) :
    t.encode (f :: rest) =
      (((t.encodeField f).1.encode rest).1, (t.encodeField f).2 ++ ((t.encodeField f).1.encode rest).2) := by
  rw [← encode_behind]
  rfl

theorem Moderate.encodeField {t : Table} (moderate : t.Moderate) (f : Field) : (t.encodeField f).1.Moderate := by
  unfold Table.encodeField
  split
  · exact moderate
  · exact moderate
  · exact moderate.insert f

theorem Moderate.encode {t : Table} (moderate : t.Moderate) (fields : List Field) : (t.encode fields).1.Moderate := by
  induction fields generalizing t with
  | nil => exact moderate
  | cons f rest ih =>
    rw [encode_cons]
    exact ih (moderate.encodeField f)

theorem not_isEmpty_of_readItem {t : Table} {bytes : Bytes} {result : Item × Bytes}
    (read : readItem t bytes = .ok result) : ¬ bytes.isEmpty := by
  intro empty
  have shorter := length_readItem read
  rw [List.isEmpty_iff.mp empty] at shorter
  cases shorter

theorem readItems_field {t : Table} {bytes rest : Bytes} {f : Field}
    (read : readItem t bytes = .ok (.field f, rest)) (done : List Field) :
    t.readItems done bytes = t.readItems (f :: done) rest := by
  rw [readItems, if_neg (not_isEmpty_of_readItem read)]
  split <;> next same => cases read.symm.trans same <;> rfl

theorem readItems_insertion {t : Table} {bytes rest : Bytes} {f : Field}
    (read : readItem t bytes = .ok (.insertion f, rest)) (done : List Field) :
    t.readItems done bytes = (t.insert f).readItems (f :: done) rest := by
  rw [readItems, if_neg (not_isEmpty_of_readItem read)]
  split <;> next same => cases read.symm.trans same <;> rfl

theorem readItems_encode {t : Table} (moderate : t.Moderate) (done : List Field) {fields : List Field}
    (short : ∀ f ∈ fields, f.IsShort) :
    t.readItems done (t.encode fields).2 = ((t.encode fields).1, .ok (done.reverse ++ fields)) := by
  induction fields generalizing t done with
  | nil =>
    rw [readItems]
    simp [encode]
  | cons f rest ih =>
    obtain ⟨first, others⟩ := List.forall_mem_cons.mp short
    have item := readItem_encodeField moderate first ((t.encodeField f).1.encode rest).2
    have later := ih (moderate.encodeField f) (f :: done) others
    rw [List.reverse_cons, List.append_assoc] at later
    rw [encode_cons]
    rcases item with ⟨read, same⟩ | ⟨read, same⟩
    · rw [readItems_field read]
      rwa [same] at later ⊢
    · rw [readItems_insertion read]
      rwa [same] at later ⊢

/-- A block that was written is read back, and the tables of both ends are the same again. -/
theorem decode_encode {t : Table} (moderate : t.Moderate) {fields : List Field} (short : ∀ f ∈ fields, f.IsShort) :
    t.decode (t.encode fields).2 = ((t.encode fields).1, .ok fields) :=
  readItems_encode moderate [] short

end Table

end Hpack

/-! ### Headers -/

namespace Header

/-- A header whose texts are short enough for the integers that count their bytes. -/
def IsShort (h : Header) : Prop := h.field.IsShort

instance (h : Header) : Decidable h.IsShort := inferInstanceAs (Decidable h.field.IsShort)

theorem ofField_field (h : Header) : ofField h.field = h := by
  simp only [ofField, field, Hpack.Field.ofStrings, Text.decode_encode]

/-- The headers of a message are read as they were written, and the tables of both ends are the same again. -/
theorem decodeBlock_encodeBlock {t : Hpack.Table} (moderate : t.Moderate) {list : List Header}
    (short : ∀ h ∈ list, h.IsShort) :
    decodeBlock t (encodeBlock t list).2 = ((encodeBlock t list).1, .ok list) := by
  have fields : ∀ f ∈ list.map field, f.IsShort := List.forall_mem_map.mpr short
  have back : (list.map field).map ofField = list := by
    rw [List.map_map]
    exact List.map_id'' ofField_field list
  simp only [decodeBlock, encodeBlock, Hpack.Table.decode_encode moderate fields, Except.map, back]

/-! ### Several messages -/

/-- Writes the header blocks of messages in order, and gives the sender's table after them. -/
def encodeBlocks (t : Hpack.Table) : List (List Header) → Hpack.Table × List Bytes
  | [] => (t, [])
  | list :: rest =>
    let (t, block) := encodeBlock t list
    let (t, blocks) := encodeBlocks t rest
    (t, block :: blocks)

/-- The receiver's table after header blocks that it has read in order. -/
def tableAfter (t : Hpack.Table) (blocks : List Bytes) : Hpack.Table :=
  blocks.foldl (fun t block => (decodeBlock t block).1) t

theorem tableAfter_append (t : Hpack.Table) (blocks : List Bytes) (block : Bytes) :
    tableAfter t (blocks ++ [block]) = (decodeBlock (tableAfter t blocks) block).1 := by
  rw [tableAfter, List.foldl_append]
  rfl

theorem encodeBlocks_append (t : Hpack.Table) (front back : List (List Header)) :
    encodeBlocks t (front ++ back) =
      ((encodeBlocks (encodeBlocks t front).1 back).1,
        (encodeBlocks t front).2 ++ (encodeBlocks (encodeBlocks t front).1 back).2) := by
  induction front generalizing t with
  | nil => rfl
  | cons list rest ih =>
    simp only [List.cons_append, encodeBlocks, ih]

theorem length_encodeBlocks (t : Hpack.Table) (lists : List (List Header)) :
    (encodeBlocks t lists).2.length = lists.length := by
  induction lists generalizing t with
  | nil => rfl
  | cons list rest ih => simp only [encodeBlocks, List.length_cons, ih]

theorem moderate_encodeBlocks {t : Hpack.Table} (moderate : t.Moderate) (lists : List (List Header)) :
    (encodeBlocks t lists).1.Moderate := by
  induction lists generalizing t with
  | nil => exact moderate
  | cons list rest ih => exact ih (moderate.encode _)

/-- A receiver that has read all blocks has the sender's table. -/
theorem tableAfter_encodeBlocks {t : Hpack.Table} (moderate : t.Moderate) {lists : List (List Header)}
    (short : ∀ list ∈ lists, ∀ h ∈ list, h.IsShort) :
    tableAfter t (encodeBlocks t lists).2 = (encodeBlocks t lists).1 := by
  induction lists generalizing t with
  | nil => rfl
  | cons list rest ih =>
    obtain ⟨first, others⟩ := List.forall_mem_cons.mp short
    have step := decodeBlock_encodeBlock moderate first
    simp only [encodeBlocks, tableAfter, List.foldl_cons, step]
    exact ih (moderate.encode _) others

section Prefix
variable {t : Hpack.Table} {lists : List (List Header)} {blocks : List Bytes}

/-- The first blocks of messages are those of the first messages. -/
theorem eq_encodeBlocks_take (early : blocks <+: (encodeBlocks t lists).2) :
    blocks = (encodeBlocks t (lists.take blocks.length)).2 := by
  have whole := encodeBlocks_append t (lists.take blocks.length) (lists.drop blocks.length)
  rw [List.take_append_drop] at whole
  rw [whole] at early
  have length : blocks.length ≤ lists.length := by
    have bounded := early.length_le
    rw [← congrArg (·.2.length) whole, length_encodeBlocks] at bounded
    exact bounded
  have same : blocks.length = (encodeBlocks t (lists.take blocks.length)).2.length := by
    rw [length_encodeBlocks, List.length_take, Nat.min_eq_left length]
  exact (List.prefix_of_prefix_length_le early (List.prefix_append ..) (Nat.le_of_eq same)).eq_of_length same

variable (moderate : t.Moderate) (short : ∀ list ∈ lists, ∀ h ∈ list, h.IsShort)
include moderate short

/-- A receiver that has read the first blocks has the table that the sender had after them. -/
theorem tableAfter_of_early (early : blocks <+: (encodeBlocks t lists).2) :
    tableAfter t blocks = (encodeBlocks t (lists.take blocks.length)).1 := by
  calc tableAfter t blocks
      = tableAfter t (encodeBlocks t (lists.take blocks.length)).2 :=
        congrArg (tableAfter t) (eq_encodeBlocks_take early)
    _ = (encodeBlocks t (lists.take blocks.length)).1 :=
        tableAfter_encodeBlocks moderate fun list member => short list (List.mem_of_mem_take member)

/-- The block that comes next is read as the message that was written. -/
theorem decodeBlock_of_early {block : Bytes} (early : blocks ++ [block] <+: (encodeBlocks t lists).2) :
    ∃ list, lists[blocks.length]? = some list ∧ (decodeBlock (tableAfter t blocks) block).2 = .ok list := by
  have front : blocks <+: (encodeBlocks t lists).2 := (List.prefix_append ..).trans early
  have inside : blocks.length < lists.length := by
    have bounded := early.length_le
    rwa [List.length_append, length_encodeBlocks] at bounded
  have last : lists.take (blocks.length + 1) = lists.take blocks.length ++ [lists[blocks.length]] :=
    (List.take_append_getElem inside).symm
  have split := eq_encodeBlocks_take early
  rw [List.length_append, List.length_singleton, last, encodeBlocks_append] at split
  obtain ⟨-, own⟩ := List.append_inj split (by
    rw [length_encodeBlocks, List.length_take, Nat.min_eq_left (Nat.le_of_lt inside)])
  obtain rfl : block = (encodeBlock (encodeBlocks t (lists.take blocks.length)).1 lists[blocks.length]).2 :=
    (List.cons.inj own).1
  have read := decodeBlock_encodeBlock (moderate_encodeBlocks moderate (lists.take blocks.length))
    (short _ (List.getElem_mem inside))
  refine ⟨lists[blocks.length], List.getElem?_eq_getElem inside, ?_⟩
  rw [tableAfter_of_early moderate short front, read]

end Prefix

/-! ### A whole connection -/

/-- Reads header blocks in order, and gives the receiver's table after them. -/
def decodeBlocks (t : Hpack.Table) : List Bytes → Hpack.Table × List (Except Hpack.Fault (List Header))
  | [] => (t, [])
  | block :: rest =>
    let (t, list) := decodeBlock t block
    let (t, lists) := decodeBlocks t rest
    (t, list :: lists)

/-- From one table, all messages are read as they were written. -/
theorem decodeBlocks_encodeBlocks {t : Hpack.Table} (moderate : t.Moderate) {lists : List (List Header)}
    (short : ∀ list ∈ lists, ∀ h ∈ list, h.IsShort) :
    decodeBlocks t (encodeBlocks t lists).2 = ((encodeBlocks t lists).1, lists.map .ok) := by
  induction lists generalizing t with
  | nil => rfl
  | cons list rest ih =>
    obtain ⟨first, others⟩ := List.forall_mem_cons.mp short
    have read := decodeBlock_encodeBlock moderate first
    have more := ih (t := (encodeBlock t list).1) (moderate.encode _) others
    simp only [encodeBlocks, decodeBlocks, read, more, List.map_cons]

/-- The first blocks are those of the first messages. -/
theorem take_encodeBlocks (t : Hpack.Table) (lists : List (List Header)) (n : Nat) :
    (encodeBlocks t lists).2.take n = (encodeBlocks t (lists.take n)).2 := by
  induction lists generalizing t n with
  | nil => simp [encodeBlocks]
  | cons list rest ih =>
    cases n with
    | zero => rfl
    | succ n => simp only [encodeBlocks, List.take_succ_cons, ih]

/-- Over a connection, each message is read as it was written, and after each block both ends have the same table. -/
theorem connection_round_trip {lists : List (List Header)} (short : ∀ list ∈ lists, ∀ h ∈ list, h.IsShort) :
    (decodeBlocks {} (encodeBlocks {} lists).2).2 = lists.map .ok ∧
      ∀ n, (decodeBlocks {} ((encodeBlocks {} lists).2.take n)).1 = (encodeBlocks {} (lists.take n)).1 := by
  refine ⟨congrArg (·.2) (decodeBlocks_encodeBlocks Hpack.Table.moderate_empty short), fun n => ?_⟩
  have early : ∀ list ∈ lists.take n, ∀ h ∈ list, h.IsShort := fun list member => short list (List.mem_of_mem_take member)
  rw [take_encodeBlocks, decodeBlocks_encodeBlocks Hpack.Table.moderate_empty early]

/-- Repeated headers, a message without headers, and a header that is larger than the table. -/
def varied : List (List Header) :=
  [[⟨"a", "1"⟩, ⟨":method", "GET"⟩, ⟨"a", "1"⟩], [], [⟨"b", String.ofList (List.replicate 5000 'x')⟩],
   [⟨"a", "2"⟩, ⟨"a", "1"⟩]]

theorem connection_round_trip_varied :
    (∀ list ∈ varied, ∀ h ∈ list, h.IsShort) ∧
      (decodeBlocks {} (encodeBlocks {} varied).2).2 = varied.map .ok := by
  have length (n : Nat) : (Text.encode (String.ofList (List.replicate n 'x'))).length = n := by
    have single : 'x'.utf8Size = 1 := by decide
    simp [Text.encode, List.length_flatMap, single]
  have large : (⟨"b", String.ofList (List.replicate 5000 'x')⟩ : Header).IsShort := by
    refine ⟨by decide, ?_⟩
    rw [field, Hpack.Field.ofStrings, length]
    decide
  have short : ∀ list ∈ varied, ∀ h ∈ list, h.IsShort :=
    List.forall_mem_cons.mpr ⟨by decide, List.forall_mem_cons.mpr ⟨List.forall_mem_nil _,
      List.forall_mem_cons.mpr ⟨List.forall_mem_singleton.mpr large, List.forall_mem_singleton.mpr (by decide)⟩⟩⟩
  exact ⟨short, (connection_round_trip short).1⟩

end Header

end Multiplex
