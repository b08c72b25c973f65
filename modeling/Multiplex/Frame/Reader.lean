import Multiplex.Frame.Decoder

/-! # Frames that have been read

A reader keeps the frames that its decoder has completed until they are taken, also those before an
error. -/

namespace Multiplex.Frame

/-- A decoder and the frames it has completed, the oldest first. -/
structure Reader where
  decoder : Decoder
  ready : List Frame := []

namespace Reader

def feed (r : Reader) (bytes : Bytes) : Reader :=
  let (decoder, frames) := r.decoder.feed bytes
  { decoder, ready := r.ready ++ frames }

def next? (r : Reader) : Option (Frame × Reader) :=
  match r.ready with
  | [] => none
  | frame :: ready => some (frame, { r with ready })

end Reader

end Multiplex.Frame
