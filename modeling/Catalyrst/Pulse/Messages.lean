import Catalyrst.Lib.Word

/-!
# Messages of the presence service (`proto/decentraland/pulse`, `messages.rs`)

The protocol buffers as records. A 32-bit signed field is an integer, a text is a
list of characters, and the code of a quantised field is kept as it stands on the
wire: the server relays codes and never decodes them, except for the positions
that the area of interest looks at.
-/

namespace Catalyrst.Pulse
open Catalyrst.Lib

abbrev Text := List Char

/-! ### Shared -/

structure PlayerState where
  parcelIndex : ℤ
  positionX : U32
  positionY : U32
  positionZ : U32
  velocityX : U32
  velocityY : U32
  velocityZ : U32
  rotationY : U32
  movementBlend : U32
  slideBlend : U32
  headYaw : Option U32
  headPitch : Option U32
  stateFlags : U32
  glideState : ℤ
  jumpCount : ℤ
  pointAtX : Option U32
  pointAtY : Option U32
  pointAtZ : Option U32
  deriving DecidableEq

/-- `PlayerAnimationFlags`: the two flags the server itself reads or writes. -/
def GROUNDED : U32 := 1
def POINTING_AT : U32 := 128

/-- `GlideState::PropClosed`. -/
def PROP_CLOSED : ℤ := 0

/-! ### From the server -/

structure HandshakeResponse where
  success : Bool
  error : Option Text
  protocolFeatures : U32
  deriving DecidableEq

structure PlayerStateFull where
  subjectId : U32
  sequence : U32
  serverTick : U32
  state : PlayerState
  deriving DecidableEq

structure PlayerStateDeltaTier0 where
  subjectId : U32
  baselineSeq : U32
  newSeq : U32
  serverTick : U32
  parcelIndex : Option ℤ
  positionX : Option U32
  positionY : Option U32
  positionZ : Option U32
  velocityX : Option U32
  velocityY : Option U32
  velocityZ : Option U32
  rotationY : Option U32
  movementBlend : Option U32
  slideBlend : Option U32
  headYaw : Option U32
  headPitch : Option U32
  stateFlags : Option U32
  glideState : Option ℤ
  jumpCount : Option ℤ
  pointAtX : Option U32
  pointAtY : Option U32
  pointAtZ : Option U32
  deriving DecidableEq

structure PlayerJoined where
  userId : Text
  profileVersion : ℤ
  state : PlayerStateFull
  realm : Text
  deriving DecidableEq

structure PlayerProfileVersionsAnnounced where
  subjectId : U32
  version : ℤ
  deriving DecidableEq

inductive EmoteStopReason where
  | completed
  | cancelled
  deriving DecidableEq

structure EmoteStarted where
  subjectId : U32
  sequence : U32
  serverTick : U32
  emoteId : Text
  playerState : PlayerState
  mask : Option ℤ
  deriving DecidableEq

structure EmoteStopped where
  subjectId : U32
  serverTick : U32
  reason : EmoteStopReason
  sequence : U32
  playerState : PlayerState
  deriving DecidableEq

structure TeleportPerformed where
  subjectId : U32
  sequence : U32
  serverTick : U32
  state : PlayerState
  realm : Text
  deriving DecidableEq

structure PlayerStateDeltaBatch where
  serverTick : U32
  subjectCount : U32
  payload : Bytes
  deriving DecidableEq

inductive ServerMessage where
  | handshake (response : HandshakeResponse)
  | playerStateFull (full : PlayerStateFull)
  | playerStateDelta (delta : PlayerStateDeltaTier0)
  | playerJoined (joined : PlayerJoined)
  | playerLeft (subjectId : U32)
  | playerProfileVersionAnnounced (announced : PlayerProfileVersionsAnnounced)
  | emoteStarted (started : EmoteStarted)
  | emoteStopped (stopped : EmoteStopped)
  | teleported (teleport : TeleportPerformed)
  | playerStateDeltaBatch (batch : PlayerStateDeltaBatch)
  deriving DecidableEq

/-! ### From a client -/

structure PlayerInitialState where
  state : Option PlayerState
  emoteId : Option Text
  emoteDurationMs : Option U32
  emoteStartOffsetMs : Option U32

structure HandshakeRequest where
  authChain : Bytes
  initialState : Option PlayerInitialState
  protocolFeatures : U32

structure ParcelRect where
  minX : ℤ
  minZ : ℤ
  maxX : ℤ
  maxZ : ℤ

structure SceneListenerHandshakeRequest where
  authChain : Bytes
  realm : Text
  parcelRects : List ParcelRect
  protocolFeatures : U32

structure TeleportRequest where
  parcelIndex : ℤ
  positionX : U32
  positionY : U32
  positionZ : U32
  realm : Text

structure EmoteStart where
  emoteId : Text
  durationMs : Option U32
  playerState : Option PlayerState

inductive ClientMessage where
  | handshake (request : HandshakeRequest)
  | input (state : Option PlayerState)
  | resync (subjectId knownSeq : U32)
  | profileAnnouncement (version : ℤ)
  | emoteStart (start : EmoteStart)
  | emoteStop
  | teleport (request : TeleportRequest)
  | sceneListenerHandshake (request : SceneListenerHandshakeRequest)

/-! ### Quantised fields -/

namespace Spec

/-- The widths, in bits, of the quantised fields. -/
def POSITION_X : ℕ := 8
def POSITION_Y : ℕ := 13
def POSITION_Z : ℕ := 8
def VELOCITY_X : ℕ := 8
def VELOCITY_Y : ℕ := 8
def VELOCITY_Z : ℕ := 8
def ROTATION_Y : ℕ := 7
def MOVEMENT_BLEND : ℕ := 5
def SLIDE_BLEND : ℕ := 4
def HEAD_YAW : ℕ := 7
def HEAD_PITCH : ℕ := 7
def POINT_AT_X : ℕ := 17
def POINT_AT_Y : ℕ := 7
def POINT_AT_Z : ℕ := 17

end Spec

/-- A code of a field of `bits` bits. -/
def codeFits (bits : ℕ) (code : U32) : Bool := decide (code.val ≤ 2 ^ bits - 1)

def optionalCodeFits (bits : ℕ) (code : Option U32) : Bool := code.all (codeFits bits)

def PlayerState.areQuantizedFieldsInRange (s : PlayerState) : Bool :=
  codeFits Spec.POSITION_X s.positionX && codeFits Spec.POSITION_Y s.positionY &&
  codeFits Spec.POSITION_Z s.positionZ && codeFits Spec.VELOCITY_X s.velocityX &&
  codeFits Spec.VELOCITY_Y s.velocityY && codeFits Spec.VELOCITY_Z s.velocityZ &&
  codeFits Spec.ROTATION_Y s.rotationY && codeFits Spec.MOVEMENT_BLEND s.movementBlend &&
  codeFits Spec.SLIDE_BLEND s.slideBlend && optionalCodeFits Spec.HEAD_YAW s.headYaw &&
  optionalCodeFits Spec.HEAD_PITCH s.headPitch && optionalCodeFits Spec.POINT_AT_X s.pointAtX &&
  optionalCodeFits Spec.POINT_AT_Y s.pointAtY && optionalCodeFits Spec.POINT_AT_Z s.pointAtZ

def TeleportRequest.areQuantizedFieldsInRange (t : TeleportRequest) : Bool :=
  codeFits Spec.POSITION_X t.positionX && codeFits Spec.POSITION_Y t.positionY &&
  codeFits Spec.POSITION_Z t.positionZ

/-! ### Parcels (`interest.rs`, `ParcelEncoder`) -/

structure ParcelEncoder where
  minX : ℤ
  minZ : ℤ
  width : ℤ
  height : ℤ
  deriving DecidableEq

namespace ParcelEncoder

/-- The encoder of the default options: parcels (-150, -150) to (163, 158) with a
padding of two parcels around. -/
def default : ParcelEncoder := ⟨-150 - 2, -150 - 2, 163 + 2 - (-150 - 2) + 1, 158 + 2 - (-150 - 2) + 1⟩

def maxIndexExclusive (encoder : ParcelEncoder) : ℤ := encoder.width * encoder.height

/-- The comparison is made on the two values read as unsigned 32-bit words. -/
def isValidIndex (encoder : ParcelEncoder) (index : ℤ) : Bool :=
  decide (index % 4294967296 < encoder.maxIndexExclusive % 4294967296)

def encode (encoder : ParcelEncoder) (x z : ℤ) : ℤ :=
  x - encoder.minX + (z - encoder.minZ) * encoder.width

def isValidCoordinate (encoder : ParcelEncoder) (x z : ℤ) : Bool :=
  decide (encoder.minX ≤ x ∧ x < encoder.minX + encoder.width ∧
    encoder.minZ ≤ z ∧ z < encoder.minZ + encoder.height)

end ParcelEncoder

end Catalyrst.Pulse
