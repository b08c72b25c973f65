import Multiplex.Text.Utf8

/-! # Header tables

The two ends of a connection keep the same table of header fields, so that a field can be sent as an
index. The first indices stand for a fixed list of common fields; after them come the fields that
were inserted, the newest first, of which the oldest give way when their total size exceeds the
capacity (`Table.insert`, `Table.resize`). Indices start at 1. -/

namespace Multiplex.Hpack

/-- A header field as it stands in a header block. -/
structure Field where
  name : Bytes
  value : Bytes
  deriving DecidableEq

namespace Field

/-- What a field counts for in the table. -/
def size (f : Field) : Nat := f.name.length + f.value.length + 32

/-- The field of two texts. -/
def ofStrings (name value : String) : Field := { name := Text.encode name, value := Text.encode value }

end Field

/-- The fields that every table begins with. -/
def staticFields : List Field :=
  [.ofStrings ":authority" "",
   .ofStrings ":method" "GET",
   .ofStrings ":method" "POST",
   .ofStrings ":path" "/",
   .ofStrings ":path" "/index.html",
   .ofStrings ":scheme" "http",
   .ofStrings ":scheme" "https",
   .ofStrings ":status" "200",
   .ofStrings ":status" "204",
   .ofStrings ":status" "206",
   .ofStrings ":status" "304",
   .ofStrings ":status" "400",
   .ofStrings ":status" "404",
   .ofStrings ":status" "500",
   .ofStrings "accept-charset" "",
   .ofStrings "accept-encoding" "gzip, deflate",
   .ofStrings "accept-language" "",
   .ofStrings "accept-ranges" "",
   .ofStrings "accept" "",
   .ofStrings "access-control-allow-origin" "",
   .ofStrings "age" "",
   .ofStrings "allow" "",
   .ofStrings "authorization" "",
   .ofStrings "cache-control" "",
   .ofStrings "content-disposition" "",
   .ofStrings "content-encoding" "",
   .ofStrings "content-language" "",
   .ofStrings "content-length" "",
   .ofStrings "content-location" "",
   .ofStrings "content-range" "",
   .ofStrings "content-type" "",
   .ofStrings "cookie" "",
   .ofStrings "date" "",
   .ofStrings "etag" "",
   .ofStrings "expect" "",
   .ofStrings "expires" "",
   .ofStrings "from" "",
   .ofStrings "host" "",
   .ofStrings "if-match" "",
   .ofStrings "if-modified-since" "",
   .ofStrings "if-none-match" "",
   .ofStrings "if-range" "",
   .ofStrings "if-unmodified-since" "",
   .ofStrings "last-modified" "",
   .ofStrings "link" "",
   .ofStrings "location" "",
   .ofStrings "max-forwards" "",
   .ofStrings "proxy-authenticate" "",
   .ofStrings "proxy-authorization" "",
   .ofStrings "range" "",
   .ofStrings "referer" "",
   .ofStrings "refresh" "",
   .ofStrings "retry-after" "",
   .ofStrings "server" "",
   .ofStrings "set-cookie" "",
   .ofStrings "strict-transport-security" "",
   .ofStrings "transfer-encoding" "",
   .ofStrings "user-agent" "",
   .ofStrings "vary" "",
   .ofStrings "via" "",
   .ofStrings "www-authenticate" ""]

/-- The fields inserted so far, the newest first, and the total size that they may have. -/
structure Table where
  capacity : Nat := 4096
  inserted : List Field := []
  deriving DecidableEq

namespace Table

/-- The newest of `fields` whose total size is within `room`. -/
def newest (room : Nat) : List Field → List Field
  | [] => []
  | f :: rest => if f.size ≤ room then f :: newest (room - f.size) rest else []

/-- Inserts a field and drops the oldest fields over the capacity, the new one included. -/
def insert (t : Table) (f : Field) : Table :=
  { t with inserted := newest t.capacity (f :: t.inserted) }

/-- Changes the capacity and drops the oldest fields over it. -/
def resize (t : Table) (capacity : Nat) : Table :=
  { capacity, inserted := newest capacity t.inserted }

/-- All fields in the order of their indices. -/
def fields (t : Table) : List Field := staticFields ++ t.inserted

/-- The field at an index. -/
def get? (t : Table) : Nat → Option Field
  | 0 => none
  | i + 1 => t.fields[i]?

/-- The least index of a field. -/
def indexOf? (t : Table) (f : Field) : Option Nat :=
  (t.fields.findIdx? (· == f)).map (· + 1)

/-- The greatest index of a field called `name`. -/
def lastNamed? (t : Table) (name : Bytes) : Option Nat :=
  ((t.fields.zipIdx 1).filter (·.1.name == name)).getLast?.map (·.2)

end Table

end Multiplex.Hpack
