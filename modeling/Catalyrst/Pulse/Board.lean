import Catalyrst.Lib.OrdMap
import Catalyrst.Pulse.Messages

/-!
# Snapshot, identity and profile boards (`snapshot.rs`)

Every peer slot has a ring of its latest snapshots. The decoded world position of
a snapshot is a function of its parcel and its position codes and is left out; the
boards are sparse maps in which a slot that was never written reads as its initial
value.
-/

namespace Catalyrst.Pulse
open Catalyrst.Lib

/-- The sequence of a slot that has published nothing. -/
def NO_SEQ : U32 := u32Max

structure EmoteState where
  emoteId : Option Text
  startSeq : U32
  startTick : U32
  durationMs : Option U32
  stopReason : Option EmoteStopReason
  deriving DecidableEq

structure PeerSnapshot where
  seq : U32
  serverTick : U32
  parcel : ℤ
  positionX : U32
  positionY : U32
  positionZ : U32
  velocityX : U32
  velocityY : U32
  velocityZ : U32
  rotationY : U32
  jumpCount : ℤ
  movementBlend : U32
  slideBlend : U32
  headYaw : Option U32
  headPitch : Option U32
  pointAtX : Option U32
  pointAtY : Option U32
  pointAtZ : Option U32
  /-- The bit pattern of the flags. -/
  animationFlags : U32
  glideState : ℤ
  isTeleport : Bool
  emote : Option EmoteState
  realm : Option Text
  lastTeleportSeq : U32
  deriving DecidableEq

namespace PeerSnapshot

def default : PeerSnapshot where
  seq := 0
  serverTick := 0
  parcel := 0
  positionX := 0
  positionY := 0
  positionZ := 0
  velocityX := 0
  velocityY := 0
  velocityZ := 0
  rotationY := 0
  jumpCount := 0
  movementBlend := 0
  slideBlend := 0
  headYaw := none
  headPitch := none
  pointAtX := none
  pointAtY := none
  pointAtZ := none
  animationFlags := 0
  glideState := 0
  isTeleport := false
  emote := none
  realm := none
  lastTeleportSeq := 0

/-- The emote that is running, if any. -/
def runningEmote (s : PeerSnapshot) : Option EmoteState := s.emote.filter fun e => e.emoteId.isSome

def isEmoting (s : PeerSnapshot) : Bool := s.runningEmote.isSome

end PeerSnapshot

/-! ### The board -/

structure PeerRing where
  ring : List PeerSnapshot
  lastSeq : U32
  active : Bool

def PeerRing.new (ringCapacity : ℕ) : PeerRing :=
  ⟨List.replicate ringCapacity PeerSnapshot.default, NO_SEQ, false⟩

structure SnapshotBoard where
  ringCapacity : ℕ
  peers : OrdMap U32 PeerRing
  parcelIndex : OrdMap ℤ (List U32)
  peerParcel : OrdMap U32 ℤ

/-- `Vec::swap_remove` of the first occurrence. -/
def swapRemove (bucket : List U32) (id : U32) : List U32 :=
  match bucket.findIdx? (· = id) with
  | none => bucket
  | some pos => (bucket.set pos (bucket.getLastD id)).dropLast

namespace SnapshotBoard

def new (ringCapacity : ℕ) : SnapshotBoard := ⟨ringCapacity, ∅, ∅, ∅⟩

def ring (board : SnapshotBoard) (id : U32) : PeerRing :=
  board.peers[id]?.getD (PeerRing.new board.ringCapacity)

/-- The ring's snapshot at the slot of `seq`. -/
def slot (board : SnapshotBoard) (p : PeerRing) (seq : U32) : PeerSnapshot :=
  p.ring.getD (seq.val % board.ringCapacity) PeerSnapshot.default

def lastSeq (board : SnapshotBoard) (id : U32) : U32 := (board.ring id).lastSeq

/-- The last snapshot a slot published, active or not. -/
def last (board : SnapshotBoard) (id : U32) : Option PeerSnapshot :=
  let p := board.ring id
  if p.lastSeq = NO_SEQ then none else some (board.slot p p.lastSeq)

def tryRead (board : SnapshotBoard) (id : U32) : Option PeerSnapshot :=
  let p := board.ring id
  if !p.active || decide (p.lastSeq = NO_SEQ) then none else some (board.slot p p.lastSeq)

def tryReadSeq (board : SnapshotBoard) (id seq : U32) : Option PeerSnapshot :=
  let p := board.ring id
  if !p.active || decide (p.lastSeq = NO_SEQ) then none
  else
    let snap := board.slot p seq
    if snap.seq = seq then some snap else none

def inheritEmoteState (board : SnapshotBoard) (id : U32) : Option EmoteState :=
  (board.last id).bind fun prev => prev.emote.filter fun e => e.stopReason.isNone

def inheritRealm (board : SnapshotBoard) (id : U32) : Option Text :=
  (board.last id).bind PeerSnapshot.realm

def inheritLastTeleportSeq (board : SnapshotBoard) (id : U32) : U32 :=
  (board.last id).elim 0 PeerSnapshot.lastTeleportSeq

def clearParcel (board : SnapshotBoard) (id : U32) : SnapshotBoard :=
  match board.peerParcel[id]? with
  | none => board
  | some parcel =>
    let parcelIndex := match board.parcelIndex[parcel]? with
      | none => board.parcelIndex
      | some bucket =>
        let bucket := swapRemove bucket id
        if bucket = [] then board.parcelIndex.erase parcel
        else board.parcelIndex.insert parcel bucket
    { board with peerParcel := board.peerParcel.erase id, parcelIndex := parcelIndex }

def setParcel (board : SnapshotBoard) (id : U32) (parcel : ℤ) : SnapshotBoard :=
  if board.peerParcel[id]? = some parcel then board
  else
    let board := board.clearParcel id
    { board with
      parcelIndex := board.parcelIndex.insert parcel (board.parcelIndex[parcel]?.getD [] ++ [id])
      peerParcel := board.peerParcel.insert id parcel }

def peersInParcel (board : SnapshotBoard) (parcel : ℤ) : List U32 :=
  board.parcelIndex[parcel]?.getD []

/-- What `publish` writes: emote, realm and teleport sequence are inherited when the
snapshot has none of its own. -/
def inherited (board : SnapshotBoard) (id : U32) (snapshot : PeerSnapshot) : PeerSnapshot :=
  { snapshot with
    emote := snapshot.emote.or (board.inheritEmoteState id)
    realm := snapshot.realm.or (board.inheritRealm id)
    lastTeleportSeq :=
      if snapshot.isTeleport then snapshot.seq else board.inheritLastTeleportSeq id }

def publish (board : SnapshotBoard) (id : U32) (snapshot : PeerSnapshot) : SnapshotBoard :=
  let written := board.inherited id snapshot
  let p := board.ring id
  let ring := { p with
    lastSeq := written.seq
    ring := p.ring.set (written.seq.val % board.ringCapacity) written }
  { board with peers := board.peers.insert id ring }.setParcel id written.parcel

def setActive (board : SnapshotBoard) (id : U32) : SnapshotBoard :=
  { board with peers := board.peers.insert id { board.ring id with active := true } }

def clearActive (board : SnapshotBoard) (id : U32) : SnapshotBoard :=
  { board with peers := board.peers.insert id (PeerRing.new board.ringCapacity) }.clearParcel id

/-! Which slots are active. Parcels and snapshots do not matter for it. -/

theorem ring_clearParcel (board : SnapshotBoard) (id x : U32) :
    (board.clearParcel id).ring x = board.ring x := by
  unfold clearParcel
  split
  · rfl
  · rfl

theorem ring_setParcel (board : SnapshotBoard) (id x : U32) (parcel : ℤ) :
    (board.setParcel id parcel).ring x = board.ring x := by
  unfold setParcel
  split
  · rfl
  · exact ring_clearParcel board id x

@[simp] theorem active_publish (board : SnapshotBoard) (id x : U32) (snapshot : PeerSnapshot) :
    ((board.publish id snapshot).ring x).active = (board.ring x).active := by
  rw [publish, ring_setParcel]
  simp only [ring, OrdMap.find_insert]
  split
  · rename_i h
    rw [h]
    rfl
  · rfl

@[simp] theorem active_setActive (board : SnapshotBoard) (id x : U32) :
    ((board.setActive id).ring x).active = (decide (id = x) || (board.ring x).active) := by
  simp only [setActive, ring, OrdMap.find_insert]
  split
  · rename_i h
    simp [h]
  · rename_i h
    simp [h]

@[simp] theorem active_clearActive (board : SnapshotBoard) (id x : U32) :
    ((board.clearActive id).ring x).active = (decide (id ≠ x) && (board.ring x).active) := by
  rw [clearActive, ring_clearParcel]
  simp only [ring, OrdMap.find_insert]
  split
  · rename_i h
    simp [h, PeerRing.new]
  · rename_i h
    simp [h]

end SnapshotBoard

/-! ### Publishing -/

structure EmoteInput where
  emoteId : Text
  durationMs : Option U32
  startTick : Option U32

def pointing (state : PlayerState) : Bool := state.stateFlags.val &&& POINTING_AT.val ≠ 0

def publishFromPlayerState (board : SnapshotBoard) (peer now : U32) (state : PlayerState)
    (emote : Option EmoteInput) : SnapshotBoard :=
  let seq := board.lastSeq peer + 1
  board.publish peer
    { seq := seq
      serverTick := now
      parcel := state.parcelIndex
      positionX := state.positionX
      positionY := state.positionY
      positionZ := state.positionZ
      velocityX := state.velocityX
      velocityY := state.velocityY
      velocityZ := state.velocityZ
      rotationY := state.rotationY
      jumpCount := state.jumpCount
      movementBlend := state.movementBlend
      slideBlend := state.slideBlend
      headYaw := state.headYaw
      headPitch := state.headPitch
      pointAtX := state.pointAtX.filter fun _ => pointing state
      pointAtY := state.pointAtY.filter fun _ => pointing state
      pointAtZ := state.pointAtZ.filter fun _ => pointing state
      animationFlags := state.stateFlags
      glideState := state.glideState
      isTeleport := false
      emote := emote.map fun e => ⟨some e.emoteId, seq, e.startTick.getD now, e.durationMs, none⟩
      realm := none
      lastTeleportSeq := 0 }

/-- Orientation and pointing are kept, everything else starts afresh. -/
def publishTeleport (board : SnapshotBoard) (peer now : U32) (t : TeleportRequest) : SnapshotBoard :=
  let prev := (board.tryRead peer).getD PeerSnapshot.default
  board.publish peer
    { seq := board.lastSeq peer + 1
      serverTick := now
      parcel := t.parcelIndex
      positionX := t.positionX
      positionY := t.positionY
      positionZ := t.positionZ
      velocityX := 0
      velocityY := 0
      velocityZ := 0
      rotationY := prev.rotationY
      jumpCount := 0
      movementBlend := 0
      slideBlend := 0
      headYaw := prev.headYaw
      headPitch := prev.headPitch
      pointAtX := prev.pointAtX
      pointAtY := prev.pointAtY
      pointAtZ := prev.pointAtZ
      animationFlags := GROUNDED
      glideState := PROP_CLOSED
      isTeleport := true
      emote := none
      realm := some t.realm
      lastTeleportSeq := 0 }

/-- `publish_emote_stop`: only a running emote is stopped. -/
def publishEmoteStop (board : SnapshotBoard) (peer now : U32) : SnapshotBoard :=
  match board.tryRead peer with
  | none => board
  | some current =>
    match current.runningEmote with
    | none => board
    | some active => board.publish peer { current with
        seq := board.lastSeq peer + 1
        serverTick := now
        emote := some ⟨none, active.startSeq, active.startTick, none, some .cancelled⟩ }

@[simp] theorem active_publishFromPlayerState (board : SnapshotBoard) (peer now x : U32)
    (state : PlayerState) (emote : Option EmoteInput) :
    ((publishFromPlayerState board peer now state emote).ring x).active =
      (board.ring x).active := by
  simp only [publishFromPlayerState, SnapshotBoard.active_publish]

@[simp] theorem active_publishTeleport (board : SnapshotBoard) (peer now x : U32)
    (t : TeleportRequest) :
    ((publishTeleport board peer now t).ring x).active = (board.ring x).active := by
  simp only [publishTeleport, SnapshotBoard.active_publish]

@[simp] theorem active_publishEmoteStop (board : SnapshotBoard) (peer now x : U32) :
    ((publishEmoteStop board peer now).ring x).active = (board.ring x).active := by
  unfold publishEmoteStop
  split
  · rfl
  · split
    · rfl
    · exact SnapshotBoard.active_publish _ _ _ _

/-! ### Identities and profiles -/

structure IdentityBoard where
  walletsByPeer : OrdMap U32 Text
  peersByWallet : OrdMap Text U32

namespace IdentityBoard

def new : IdentityBoard := ⟨∅, ∅⟩

variable (toLowercase : Text → Text)

def set (identity : IdentityBoard) (id : U32) (wallet : Text) : IdentityBoard :=
  ⟨identity.walletsByPeer.insert id wallet, identity.peersByWallet.insert (toLowercase wallet) id⟩

def walletByPeer (identity : IdentityBoard) (id : U32) : Option Text := identity.walletsByPeer[id]?

def peerByWallet (identity : IdentityBoard) (wallet : Text) : Option U32 :=
  identity.peersByWallet[toLowercase wallet]?

/-- The forward mapping goes only if it still names this peer. -/
def remove (identity : IdentityBoard) (id : U32) : IdentityBoard :=
  match identity.walletsByPeer[id]? with
  | none => identity
  | some w =>
    let key := toLowercase w
    ⟨identity.walletsByPeer.erase id,
      if identity.peersByWallet[key]? = some id then identity.peersByWallet.erase key
      else identity.peersByWallet⟩

@[simp] theorem walletByPeer_set (identity : IdentityBoard) (id x : U32) (wallet : Text) :
    (identity.set toLowercase id wallet).walletByPeer x =
      if id = x then some wallet else identity.walletByPeer x := by
  simp only [set, walletByPeer, OrdMap.find_insert]

@[simp] theorem walletByPeer_remove (identity : IdentityBoard) (id x : U32) :
    (identity.remove toLowercase id).walletByPeer x =
      if id = x then none else identity.walletByPeer x := by
  unfold remove walletByPeer
  split
  · rename_i h
    split
    · rename_i hx
      rw [← hx, h]
    · rfl
  · simp only [OrdMap.find_erase]

end IdentityBoard

structure ProfileBoard where
  versions : OrdMap U32 ℤ

namespace ProfileBoard

def new : ProfileBoard := ⟨∅⟩

def get (profiles : ProfileBoard) (id : U32) : ℤ := profiles.versions[id]?.getD 0

def set (profiles : ProfileBoard) (id : U32) (version : ℤ) : ProfileBoard :=
  ⟨profiles.versions.insert id version⟩

def remove (profiles : ProfileBoard) (id : U32) : ProfileBoard := ⟨profiles.versions.erase id⟩

end ProfileBoard

end Catalyrst.Pulse
