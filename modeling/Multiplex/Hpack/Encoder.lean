import Multiplex.Hpack.Integer
import Multiplex.Hpack.Table

/-! # Writing header blocks

A field that the table holds is written as its index. One whose name alone the table holds is written
as the index of the name and a literal value, and is not inserted. Any other is written in full and
inserted. Strings are written as they are, without the prefix code. -/

namespace Multiplex.Hpack

/-- A string behind its length. -/
def encodeString (s : Bytes) : Bytes := Integer.encode 0 127 s.length ++ s

namespace Table

/-- Writes one field, and gives the table after it. -/
def encodeField (t : Table) (f : Field) : Table × Bytes :=
  match t.indexOf? f, t.lastNamed? f.name with
  | some i, _ => (t, Integer.encode 0x80 127 i)
  | none, some i => (t, Integer.encode 0 15 i ++ encodeString f.value)
  | none, none => (t.insert f, 0x40 :: encodeString f.name ++ encodeString f.value)

/-- Writes a header block, and gives the table after it. -/
def encode (t : Table) (fields : List Field) : Table × Bytes :=
  fields.foldl
    (fun (t, block) f =>
      let (t, bytes) := t.encodeField f
      (t, block ++ bytes))
    (t, [])

end Table

end Multiplex.Hpack
