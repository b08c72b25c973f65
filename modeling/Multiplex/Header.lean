import Multiplex.Hpack.Decoder
import Multiplex.Hpack.Encoder

/-! # Headers

Handlers see headers as pairs of texts. A sender and a receiver keep one table each, and both go
through all header blocks in the order of the wire. -/

namespace Multiplex

/-- A header of a message. -/
structure Header where
  name : String
  value : String
  deriving DecidableEq

namespace Header

/-- A header as it stands in a header block. -/
def field (h : Header) : Hpack.Field := .ofStrings h.name h.value

/-- The header that a field of a header block stands for. -/
def ofField (f : Hpack.Field) : Header := { name := Text.decode f.name, value := Text.decode f.value }

/-- The value of the first header called `name`. -/
def find? (headers : List Header) (name : String) : Option String :=
  (headers.find? (·.name == name)).map (·.value)

/-- Writes the header block of a message, and gives the sender's table after it. -/
def encodeBlock (t : Hpack.Table) (headers : List Header) : Hpack.Table × Bytes :=
  t.encode (headers.map field)

/-- Reads the header block of a message, and gives the receiver's table after it. -/
def decodeBlock (t : Hpack.Table) (block : Bytes) : Hpack.Table × Except Hpack.Fault (List Header) :=
  let (t, fields) := t.decode block
  (t, fields.map (·.map ofField))

end Header

end Multiplex
