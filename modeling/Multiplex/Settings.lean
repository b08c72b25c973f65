import Multiplex.Frame.Decoder

/-! # Settings

Each end announces limits to the other in SETTINGS frames. `Config.params` is what this end announces
at the start of a session; `PeerSettings.apply` takes in what the peer announces, one parameter at a
time, and refuses values outside their range. -/

namespace Multiplex

/-- The revision of the protocol that was agreed on. -/
inductive Version where
  /-- Without flow control. -/
  | spdy2
  /-- With a window for each stream. -/
  | spdy3
  deriving DecidableEq

/-- Whether streams have windows. -/
def Version.hasFlowControl : Version → Bool
  | .spdy2 => false
  | .spdy3 => true

def maxWindow : Nat := 0x7fffffff

/-! ### What this end announces -/

structure Config where
  maxStreams : UInt32 := 100
  /-- The receive window of each stream. -/
  window : UInt32 := 65535
  /-- The largest payload that is read. -/
  maxFrame : UInt32 := 16384
  deriving DecidableEq

/-- The parameters of the first SETTINGS frame. The window is announced only where there are windows,
    and the frame limit only where it is not the usual one. -/
def Config.params (c : Config) (version : Version) : List Setting :=
  { id := Setting.maxConcurrentStreams, value := c.maxStreams } ::
    (if version.hasFlowControl then
      [{ id := Setting.initialWindow, value := UInt32.ofNat (min c.window.toNat maxWindow) }]
    else []) ++
    (if c.maxFrame.toNat = Frame.Decoder.leastLimit then []
    else [{ id := Setting.maxFrameSize, value := c.maxFrame }])

/-! ### What the peer announces -/

/-- Why a parameter is refused. -/
inductive SettingsError where
  | flowControlUnsupported
  | invalidInitialWindow (value : UInt32)
  | invalidEnablePush (value : UInt32)
  | invalidMaxFrameSize (value : UInt32)
  deriving DecidableEq

def SettingsError.message : SettingsError → String
  | flowControlUnsupported =>
    "INITIAL_WINDOW_SIZE sent on a protocol version without flow control"
  | invalidInitialWindow value =>
    s!"INITIAL_WINDOW_SIZE {Text.hex value.toNat} outside (0, 0x7fffffff]"
  | invalidEnablePush value => s!"ENABLE_PUSH must be 0 or 1, got {value.toNat}"
  | invalidMaxFrameSize value => s!"MAX_FRAME_SIZE {value.toNat} outside [16384, 16777215]"

/-- The limits of the peer. -/
structure PeerSettings where
  enablePush : Bool := true
  /-- The send window of streams opened from now on. -/
  window : Nat := 65535
  /-- The largest payload that the peer reads. -/
  maxFrame : Nat := 16384
  deriving DecidableEq

namespace PeerSettings

/-- Takes in one parameter. Parameters that are not known are passed over. -/
def apply (s : PeerSettings) (version : Version) (p : Setting) : Except SettingsError PeerSettings :=
  if p.id = Setting.initialWindow then
    if !version.hasFlowControl then .error .flowControlUnsupported
    else if p.value.toNat = 0 ∨ maxWindow < p.value.toNat then .error (.invalidInitialWindow p.value)
    else .ok { s with window := p.value.toNat }
  else if p.id = Setting.enablePush then
    if 1 < p.value.toNat then .error (.invalidEnablePush p.value)
    else .ok { s with enablePush := p.value.toNat = 1 }
  else if p.id = Setting.maxFrameSize then
    if p.value.toNat < Frame.Decoder.leastLimit ∨ Frame.Decoder.greatestLimit < p.value.toNat then
      .error (.invalidMaxFrameSize p.value)
    else .ok { s with maxFrame := p.value.toNat }
  else .ok s

/-- Takes in all parameters in order, or stops at the first that is refused. -/
def applyAll (s : PeerSettings) (version : Version) :
    List Setting → Except SettingsError PeerSettings
  | [] => .ok s
  | p :: rest =>
    match s.apply version p with
    | .ok s => s.applyAll version rest
    | .error e => .error e

end PeerSettings

end Multiplex
