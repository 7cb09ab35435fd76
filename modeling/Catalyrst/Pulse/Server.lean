import Catalyrst.Pulse.Hardening
import Catalyrst.Pulse.Simulation

/-!
# The server (`server/mod.rs`)

The event loop: connects, packets, corrupt packets, disconnects and ticks. Every
event yields the messages handed to the transport, in order, and the server after.
Lower-casing of a text and the verification of a handshake's auth chain are
parameters; a packet arrives as the message it decodes to.
-/

namespace Catalyrst.Pulse
open Catalyrst.Lib

structure VerifiedHandshake where
  userAddress : Text
  timestamp : Text

structure Env where
  toLowercase : Text → Text
  /-- `verify_handshake_bytes` at a wall-clock time; an error is its message. -/
  verifyHandshake : Bytes → ℤ → Except Text VerifiedHandshake

/-- An environment for examples: an auth chain is one character of a wallet and one
of a timestamp. -/
def Env.sample : Env where
  toLowercase := List.map Char.toLower
  verifyHandshake chain _ := match chain with
    | [wallet, timestamp] => .ok ⟨[Char.ofNat wallet.val], [Char.ofNat timestamp.val]⟩
    | _ => .error []

inductive PeerConnectionState where
  | none
  | pendingAuth
  | authenticated
  | pendingDisconnect
  | disconnecting
  deriving DecidableEq

structure PeerState where
  walletId : Option Text
  connectionState : PeerConnectionState
  connectionTime : U32
  disconnectionTime : U32
  handshakeAttempts : ℕ
  ip : Option Text
  features : U32
  sceneListener : Option SceneListenerState
  /-- Subject and last known sequence of the resyncs asked for since the last tick. -/
  resyncRequests : OrdMap U32 U32

namespace PeerState

def new (connectionState : PeerConnectionState) (now : U32) : PeerState :=
  ⟨none, connectionState, now, 0, 0, none, 0, none, ∅⟩

def isListener (s : PeerState) : Bool := s.sceneListener.isSome

def isAuthenticated (s : PeerState) : Bool := decide (s.connectionState = .authenticated)

end PeerState

def ENET_CAPACITY : ℕ := 4095
def WT_CAPACITY : ℕ := 4096
def DEFAULT_MAX_PEERS : ℕ := ENET_CAPACITY + WT_CAPACITY
def FEATURE_DELTA_BATCH : ℕ := 1
def SERVER_FEATURES : ℕ := FEATURE_DELTA_BATCH

structure PulseConfig where
  ringCapacity : ℕ
  /-- `simulation_steps[i] / simulation_steps[0]`. -/
  tierDivisors : List ℕ
  resyncWithDelta : Bool
  selfMirrorEnabled : Bool
  seqEncoding : SeqEncoding
  pendingAuthCleanTimeoutMs : U32
  disconnectionCleanTimeoutMs : U32
  maxHandshakeAttempts : ℕ
  maxEmoteIdLength : ℕ
  maxEmoteDurationMs : ℕ
  maxRealmLength : ℕ
  maxSceneListenerParcels : ℕ

def PulseConfig.default : PulseConfig where
  ringCapacity := 10
  tierDivisors := [50 / 50, 100 / 50, 200 / 50]
  resyncWithDelta := false
  selfMirrorEnabled := false
  seqEncoding := .absolute
  pendingAuthCleanTimeoutMs := 30000
  disconnectionCleanTimeoutMs := 5000
  maxHandshakeAttempts := 2
  maxEmoteIdLength := 512
  maxEmoteDurationMs := 60000
  maxRealmLength := 255
  maxSceneListenerParcels := 256

structure PulseServer where
  config : PulseConfig
  encoder : ParcelEncoder
  peers : OrdMap U32 PeerState
  board : SnapshotBoard
  identity : IdentityBoard
  profiles : ProfileBoard
  observerViews : OrdMap U32 (OrdMap U32 PeerToPeerView)
  replayPolicy : HandshakeReplayPolicy
  banList : BanList
  preAuthEnet : PreAuthAdmission
  preAuthWt : PreAuthAdmission
  corruptedLimiter : CorruptedPacketLimiter
  gameplayLimiter : GameplayRateLimiter
  sceneListenerForbiddenDrops : ℕ
  tickCounter : U32

structure Admitted where
  wallet : Text
  duplicateOf : Option U32

inductive Action where
  | reply (message : ServerMessage)
  | authenticated (admitted : Admitted) (initialState : Option PlayerInitialState) (features : U32)
  | authenticatedListener (admitted : Admitted) (listener : SceneListenerState) (features : U32)
  | applied
  | reject (reply : Option ServerMessage) (reason : DisconnectReason)
  | ignore

def handshakeResponse (success : Bool) (error : Option Text) : ServerMessage :=
  .handshake ⟨success, error, Fin.ofNat 4294967296 SERVER_FEATURES⟩

/-- `protocol_features & SERVER_FEATURES`. -/
def commonFeatures (protocolFeatures : U32) : U32 :=
  Fin.ofNat 4294967296 (protocolFeatures.val &&& SERVER_FEATURES)

namespace Validate

def playerState (encoder : ParcelEncoder) (state : PlayerState) : Bool :=
  encoder.isValidIndex state.parcelIndex && state.areQuantizedFieldsInRange

def teleport (encoder : ParcelEncoder) (t : TeleportRequest) : Bool :=
  decide (t.realm ≠ []) && encoder.isValidIndex t.parcelIndex && t.areQuantizedFieldsInRange

/-- A maximum of zero disables its check. -/
def emoteCaps (emoteId : Option Text) (durationMs : Option U32) (maxIdLen maxDurationMs : ℕ) :
    Bool :=
  !(decide (0 < maxIdLen) && emoteId.any fun id => decide (maxIdLen < id.length)) &&
  !(decide (0 < maxDurationMs) && durationMs.any fun d => decide (maxDurationMs < d.val))

end Validate

namespace PulseServer

def new (config : PulseConfig) : PulseServer where
  config := config
  encoder := ParcelEncoder.default
  peers := ∅
  board := SnapshotBoard.new config.ringCapacity
  identity := IdentityBoard.new
  profiles := ProfileBoard.new
  observerViews := ∅
  replayPolicy := HandshakeReplayPolicy.new true 30000 DEFAULT_MAX_PEERS
  banList := BanList.new
  preAuthEnet := PreAuthAdmission.new 32 512
  preAuthWt := PreAuthAdmission.new 32 512
  corruptedLimiter := ⟨BucketParams.perMinute 5 5, ∅⟩
  gameplayLimiter := ⟨BucketParams.perSecond 20 16, BucketParams.perSecond 5 10, ∅⟩
  sceneListenerForbiddenDrops := 0
  tickCounter := 0

def modifyPeer (server : PulseServer) (peer : U32) (f : PeerState → PeerState) : PulseServer :=
  { server with peers := server.peers.modify peer f }

def setPendingDisconnect (server : PulseServer) (peer : U32) : PulseServer :=
  server.modifyPeer peer fun s => { s with connectionState := .pendingDisconnect }

def isAuthenticated (server : PulseServer) (peer : U32) : Bool :=
  server.peers[peer]?.any PeerState.isAuthenticated

def isSceneListener (server : PulseServer) (peer : U32) : Bool :=
  server.peers[peer]?.any fun s => s.isAuthenticated && s.isListener

/-- `pre_auth_for(peer).release_on_…`. -/
def releasePreAuth (server : PulseServer) (peer : U32) : PulseServer :=
  if ENET_CAPACITY ≤ peer.val then { server with preAuthWt := server.preAuthWt.release peer }
  else { server with preAuthEnet := server.preAuthEnet.release peer }

/-! ### Handshakes -/

/-- The checks shared by both handshakes; a refusal is the action to take. -/
def verifyAndAdmit (env : Env) (server : PulseServer) (peer : U32) (authChain : Bytes) (now : U32)
    (nowMs : ℤ) : Except Action Admitted × PulseServer :=
  match server.peers[peer]? with
  | none => (.error .ignore, server)
  | some state =>
    match tryRecordAttempt server.config.maxHandshakeAttempts state.handshakeAttempts with
    | none => (.error (.reject none .authFailed), server.setPendingDisconnect peer)
    | some next =>
      let server := server.modifyPeer peer fun s => { s with handshakeAttempts := next }
      match env.verifyHandshake authChain nowMs with
      | .error message => (.error (.reply (handshakeResponse false (some message))), server)
      | .ok verified =>
        if server.banList.isBanned env.toLowercase verified.userAddress then
          (.error (.reject (some (handshakeResponse false (some ['b', 'a', 'n', 'n', 'e', 'd'])))
            .banned), server.setPendingDisconnect peer)
        else
          let r := server.replayPolicy.tryAdmit env.toLowercase now verified.userAddress
            verified.timestamp
          let server := { server with replayPolicy := r.2 }
          if !r.1 then
            (.error (.reject none .handshakeReplayRejected), server.setPendingDisconnect peer)
          else
            let duplicateOf := (server.identity.peerByWallet env.toLowercase
              verified.userAddress).filter fun p => decide (p ≠ peer)
            (.ok ⟨verified.userAddress, duplicateOf⟩, server)

def validateHandshakeInitialState (server : PulseServer) (init : PlayerInitialState) : Bool :=
  init.state.any (Validate.playerState server.encoder) &&
  Validate.emoteCaps init.emoteId init.emoteDurationMs server.config.maxEmoteIdLength
    server.config.maxEmoteDurationMs

def handleHandshake (env : Env) (server : PulseServer) (peer : U32) (req : HandshakeRequest)
    (nowMs : ℤ) (now : U32) : Action × PulseServer :=
  if server.isAuthenticated peer then (.ignore, server)
  else
    match verifyAndAdmit env server peer req.authChain now nowMs with
    | (.error action, server) => (action, server)
    | (.ok admitted, server) =>
      if req.initialState.any fun init => !server.validateHandshakeInitialState init then
        (.reject (some (handshakeResponse false (some "Invalid initial state".toList)))
          .invalidHandshakeField, server.setPendingDisconnect peer)
      else (.authenticated admitted req.initialState (commonFeatures req.protocolFeatures), server)

/-- The parcels of a rectangle, row by row. -/
def rectParcels (encoder : ParcelEncoder) (r : ParcelRect) : List ℤ :=
  (List.range (r.maxZ - r.minZ + 1).toNat).flatMap fun (dz : ℕ) =>
    (List.range (r.maxX - r.minX + 1).toNat).map fun (dx : ℕ) =>
      encoder.encode (r.minX + dx) (r.minZ + dz)

/-- The nominal area so far, or `none` when a rectangle is out of place or the area
is too large. -/
def nominalArea (server : PulseServer) : ℤ → List ParcelRect → Option ℤ
  | nominal, [] => some nominal
  | nominal, r :: rects =>
    if r.maxX < r.minX ∨ r.maxZ < r.minZ then none
    else if !(server.encoder.isValidCoordinate r.minX r.minZ &&
        server.encoder.isValidCoordinate r.maxX r.maxZ) then none
    else
      let nominal := nominal + (r.maxX - r.minX + 1) * (r.maxZ - r.minZ + 1)
      if (server.config.maxSceneListenerParcels : ℤ) < nominal then none
      else nominalArea server nominal rects

def buildListener (server : PulseServer) (req : SceneListenerHandshakeRequest) :
    Option SceneListenerState :=
  if req.realm = [] ∨ server.config.maxRealmLength < req.realm.length then none
  else if req.parcelRects = [] then none
  else (nominalArea server 0 req.parcelRects).map fun _ =>
    ⟨req.realm, (req.parcelRects.flatMap (rectParcels server.encoder)).dedup⟩

def handleSceneListenerHandshake (env : Env) (server : PulseServer) (peer : U32)
    (req : SceneListenerHandshakeRequest) (nowMs : ℤ) (now : U32) : Action × PulseServer :=
  if server.peers[peer]?.map PeerState.connectionState ≠ some .pendingAuth then (.ignore, server)
  else
    match verifyAndAdmit env server peer req.authChain now nowMs with
    | (.error action, server) => (action, server)
    | (.ok admitted, server) =>
      match server.buildListener req with
      | none => (.reject none .invalidHandshakeField, server.setPendingDisconnect peer)
      | some listener =>
        (.authenticatedListener admitted listener (commonFeatures req.protocolFeatures), server)

/-- How a handshake that has passed its gate comes out, by what `verify_and_admit` says. -/
inductive Handshaken (peer : U32) (initialState : Option PlayerInitialState) :
    Except Action Admitted × PulseServer → Action × PulseServer → Prop
  | denied (action : Action) (server : PulseServer) :
      Handshaken peer initialState (.error action, server) (action, server)
  | invalid (admitted : Admitted) (server : PulseServer) (response : Option HandshakeResponse) :
      Handshaken peer initialState (.ok admitted, server)
        (.reject (response.map .handshake) .invalidHandshakeField,
          server.setPendingDisconnect peer)
  | player (admitted : Admitted) (server : PulseServer) (features : U32)
      (hinit : ∀ init ∈ initialState, server.validateHandshakeInitialState init = true) :
      Handshaken peer initialState (.ok admitted, server)
        (.authenticated admitted initialState features, server)
  | listener (admitted : Admitted) (server : PulseServer) (listener : SceneListenerState)
      (features : U32) (hnone : initialState = none) :
      Handshaken peer initialState (.ok admitted, server)
        (.authenticatedListener admitted listener features, server)

theorem handleHandshake_cases (env : Env) (server : PulseServer) (peer : U32)
    (req : HandshakeRequest) (nowMs : ℤ) (now : U32) :
    (server.isAuthenticated peer = true ∧
      handleHandshake env server peer req nowMs now = (.ignore, server)) ∨
    (server.isAuthenticated peer = false ∧
      Handshaken peer req.initialState (verifyAndAdmit env server peer req.authChain now nowMs)
        (handleHandshake env server peer req nowMs now)) := by
  unfold handleHandshake
  split
  · rename_i hauth
    exact Or.inl ⟨hauth, rfl⟩
  · rename_i hauth
    refine Or.inr ⟨Bool.eq_false_iff.mpr hauth, ?_⟩
    generalize verifyAndAdmit env server peer req.authChain now nowMs = v
    obtain ⟨outcome, server'⟩ := v
    cases outcome with
    | error action => exact .denied action server'
    | ok admitted =>
      dsimp only
      split
      · exact .invalid admitted server' (some _)
      · rename_i hvalid
        refine .player admitted server' _ fun init hinit => ?_
        rw [Option.mem_def] at hinit
        simpa [hinit] using hvalid

theorem handleSceneListenerHandshake_cases (env : Env) (server : PulseServer) (peer : U32)
    (req : SceneListenerHandshakeRequest) (nowMs : ℤ) (now : U32) :
    (server.peers[peer]?.map PeerState.connectionState ≠ some .pendingAuth ∧
      handleSceneListenerHandshake env server peer req nowMs now = (.ignore, server)) ∨
    (server.peers[peer]?.map PeerState.connectionState = some .pendingAuth ∧
      server.isAuthenticated peer = false ∧
      Handshaken peer none (verifyAndAdmit env server peer req.authChain now nowMs)
        (handleSceneListenerHandshake env server peer req nowMs now)) := by
  unfold handleSceneListenerHandshake
  split
  · rename_i hgate
    exact Or.inl ⟨hgate, rfl⟩
  · rename_i hgate
    rw [not_not] at hgate
    obtain ⟨st, hst, hstate⟩ := Option.map_eq_some_iff.mp hgate
    have hauth : server.isAuthenticated peer = false := by
      rw [PulseServer.isAuthenticated, hst]
      simp [PeerState.isAuthenticated, hstate]
    refine Or.inr ⟨hgate, hauth, ?_⟩
    generalize verifyAndAdmit env server peer req.authChain now nowMs = v
    obtain ⟨outcome, server'⟩ := v
    cases outcome with
    | error action => exact .denied action server'
    | ok admitted =>
      dsimp only
      split
      · exact .invalid admitted server' none
      · exact .listener admitted server' _ _ rfl

/-! ### Gameplay -/

/-- The rate limit of a message's kind. -/
def acceptGameplay (server : PulseServer) (peer now : U32) (msg : ClientMessage) :
    Bool × PulseServer :=
  match msg with
  | .input _ =>
    let r := server.gameplayLimiter.tryAcceptInput peer now
    (r.1, { server with gameplayLimiter := r.2 })
  | .teleport _ | .emoteStart _ | .emoteStop | .profileAnnouncement _ =>
    let r := server.gameplayLimiter.tryAcceptDiscrete peer now
    (r.1, { server with gameplayLimiter := r.2 })
  | .resync _ _ | .handshake _ | .sceneListenerHandshake _ => (true, server)

def playGameplay (server : PulseServer) (peer now : U32) (msg : ClientMessage) :
    Action × PulseServer :=
  match msg with
  | .input none => (.ignore, server)
  | .input (some state) =>
    if !Validate.playerState server.encoder state then (.ignore, server)
    else (.applied,
      { server with board := publishFromPlayerState server.board peer now state none })
  | .teleport t =>
    if !Validate.teleport server.encoder t then (.ignore, server)
    else (.applied, { server with board := publishTeleport server.board peer now t })
  | .emoteStart e =>
    if !Validate.emoteCaps (some e.emoteId) e.durationMs server.config.maxEmoteIdLength
        server.config.maxEmoteDurationMs then (.reject none .invalidEmoteField, server)
    else
      match e.playerState with
      | none => (.ignore, server)
      | some state =>
        if !Validate.playerState server.encoder state then (.ignore, server)
        else (.applied, { server with
          board := publishFromPlayerState server.board peer now state
            (some ⟨e.emoteId, e.durationMs, none⟩) })
  | .emoteStop => (.applied, { server with board := publishEmoteStop server.board peer now })
  | .profileAnnouncement version =>
    if 0 ≤ version ∧ server.profiles.get peer < version then
      (.applied, { server with profiles := server.profiles.set peer version })
    else (.applied, server)
  | .resync subjectId knownSeq =>
    (.applied, server.modifyPeer peer fun s =>
      { s with resyncRequests := s.resyncRequests.insert subjectId knownSeq })
  | .handshake _ | .sceneListenerHandshake _ => (.ignore, server)

def applyGameplay (server : PulseServer) (peer now : U32) (msg : ClientMessage) :
    Action × PulseServer :=
  let r := server.acceptGameplay peer now msg
  if r.1 then r.2.playGameplay peer now msg else (.ignore, r.2)

/-- A packet that decodes to no message at all is `none`, one without content is
`some none`. -/
def dispatch (env : Env) (server : PulseServer) (peer : U32)
    (decoded : Option (Option ClientMessage)) (nowMs : ℤ) (now : U32) : Action × PulseServer :=
  match decoded with
  | none =>
    let r := server.corruptedLimiter.registerAndCheckExhausted peer now
    let server := { server with corruptedLimiter := r.2 }
    (if r.1 then .reject none .packetCorrupted else .ignore, server)
  | some none => (.ignore, server)
  | some (some msg) =>
    match server.isSceneListener peer, msg with
    | true, .resync subjectId knownSeq =>
      server.applyGameplay peer now (.resync subjectId knownSeq)
    | true, _ =>
      (.ignore, { server with
        sceneListenerForbiddenDrops := server.sceneListenerForbiddenDrops + 1 })
    | false, .handshake req => handleHandshake env server peer req nowMs now
    | false, .sceneListenerHandshake req =>
      handleSceneListenerHandshake env server peer req nowMs now
    | false, msg =>
      if server.isAuthenticated peer then server.applyGameplay peer now msg else (.ignore, server)

/-! ### Sessions -/

/-- `cleanup_peer`: everything about the slot goes, and every authenticated peer is
told, unless the slot was a scene listener's. -/
def cleanupPeer (env : Env) (server : PulseServer) (peer : U32) :
    List OutgoingMessage × PulseServer :=
  let wasListener := server.isSceneListener peer
  let server := { server with
    board := server.board.clearActive peer
    identity := server.identity.remove env.toLowercase peer
    profiles := server.profiles.remove peer
    observerViews := server.observerViews.erase peer
    gameplayLimiter := server.gameplayLimiter.release peer
    peers := server.peers.erase peer }
  if wasListener then ([], server)
  else
    let targets := (server.peers.toList.filter fun e => e.2.isAuthenticated).map Prod.fst
    (targets.map fun target => ⟨target, .playerLeft peer, .reliable⟩, server)

/-- The session the wallet already had goes first. -/
def evictDuplicate (env : Env) (server : PulseServer) (duplicateOf : Option U32) :
    List OutgoingMessage × PulseServer :=
  match duplicateOf with
  | none => ([], server)
  | some dup => cleanupPeer env (server.releasePreAuth dup) dup

def seedInitialState (server : PulseServer) (peer now : U32) (init : PlayerInitialState) :
    PulseServer :=
  match init.state with
  | none => server
  | some state =>
    let emote := (init.emoteId.filter fun id => decide (id ≠ [])).map fun id =>
      let offset := init.emoteStartOffsetMs.getD 0
      EmoteInput.mk id init.emoteDurationMs
        (some (if offset ≤ now then now - offset else 0))
    { server with board := publishFromPlayerState server.board peer now state emote }

def admitPlayer (env : Env) (server : PulseServer) (peer : U32) (wallet : Text)
    (initialState : Option PlayerInitialState) (features now : U32) : PulseServer :=
  let server := server.modifyPeer peer fun s => { s with
    walletId := some wallet
    connectionState := .authenticated
    features := features }
  let server := server.releasePreAuth peer
  let server := { server with
    identity := server.identity.set env.toLowercase peer wallet
    board := server.board.setActive peer }
  match initialState with
  | none => server
  | some init => server.seedInitialState peer now init

def admitListener (env : Env) (server : PulseServer) (peer : U32) (wallet : Text)
    (listener : SceneListenerState) (features : U32) : PulseServer :=
  let server := server.modifyPeer peer fun s => { s with
    walletId := some wallet
    connectionState := .authenticated
    features := features
    sceneListener := some listener }
  let server := server.releasePreAuth peer
  { server with identity := server.identity.set env.toLowercase peer wallet }

def reliable (target : U32) (message : ServerMessage) : OutgoingMessage := ⟨target, message, .reliable⟩

/-- Carry out an action. -/
def apply (env : Env) (server : PulseServer) (peer : U32) (action : Action) (now : U32) :
    List OutgoingMessage × PulseServer :=
  match action with
  | .reply message => ([reliable peer message], server)
  | .reject reply _ => (reply.toList.map (reliable peer), server.releasePreAuth peer)
  | .authenticated admitted initialState features =>
    if server.peers[peer]?.isNone then ([], server)
    else
      let r := evictDuplicate env server admitted.duplicateOf
      (r.1 ++ [reliable peer (handshakeResponse true none)],
        r.2.admitPlayer env peer admitted.wallet initialState features now)
  | .authenticatedListener admitted listener features =>
    if server.peers[peer]?.isNone then ([], server)
    else
      let r := evictDuplicate env server admitted.duplicateOf
      (r.1 ++ [reliable peer (handshakeResponse true none)],
        r.2.admitListener env peer admitted.wallet listener features)
  | .applied | .ignore => ([], server)

/-- How an action is carried out; a session that is gone is not admitted. -/
inductive Applied (env : Env) (server : PulseServer) (peer now : U32) :
    Action → List OutgoingMessage × PulseServer → Prop
  | silent (action : Action) : Applied env server peer now action ([], server)
  | reply (message : ServerMessage) :
      Applied env server peer now (.reply message) ([reliable peer message], server)
  | reject (reply : Option ServerMessage) (reason : DisconnectReason) :
      Applied env server peer now (.reject reply reason)
        (reply.toList.map (reliable peer), server.releasePreAuth peer)
  | player (admitted : Admitted) (initialState : Option PlayerInitialState) (features : U32)
      (hsome : server.peers[peer]?.isSome = true) :
      Applied env server peer now (.authenticated admitted initialState features)
        ((evictDuplicate env server admitted.duplicateOf).1 ++
            [reliable peer (handshakeResponse true none)],
          (evictDuplicate env server admitted.duplicateOf).2.admitPlayer env peer admitted.wallet
            initialState features now)
  | listener (admitted : Admitted) (listener : SceneListenerState) (features : U32)
      (hsome : server.peers[peer]?.isSome = true) :
      Applied env server peer now (.authenticatedListener admitted listener features)
        ((evictDuplicate env server admitted.duplicateOf).1 ++
            [reliable peer (handshakeResponse true none)],
          (evictDuplicate env server admitted.duplicateOf).2.admitListener env peer
            admitted.wallet listener features)

theorem apply_cases (env : Env) (server : PulseServer) (peer : U32) (action : Action) (now : U32) :
    Applied env server peer now action (server.apply env peer action now) := by
  cases action with
  | reply message => exact .reply message
  | reject reply reason => exact .reject reply reason
  | applied => exact .silent _
  | ignore => exact .silent _
  | authenticated admitted initialState features =>
    unfold apply
    dsimp only
    split
    · exact .silent _
    · rename_i hsome
      exact .player admitted initialState features (by simpa [Option.isSome_iff_ne_none] using hsome)
  | authenticatedListener admitted listener features =>
    unfold apply
    dsimp only
    split
    · exact .silent _
    · rename_i hsome
      exact .listener admitted listener features (by simpa [Option.isSome_iff_ne_none] using hsome)

/-- A connect that the pre-authentication budget refuses leaves no session. -/
def connect (server : PulseServer) (peer : U32) (ip : Text) (now : U32) : Bool × PulseServer :=
  let r := if ENET_CAPACITY ≤ peer.val then server.preAuthWt.tryAdmit peer ip
    else server.preAuthEnet.tryAdmit peer ip
  let server := if ENET_CAPACITY ≤ peer.val then { server with preAuthWt := r.2 }
    else { server with preAuthEnet := r.2 }
  if r.1 ≠ .ok then (false, server.releasePreAuth peer)
  else
    let state := { PeerState.new .pendingAuth now with ip := some ip }
    (true, { server with peers := server.peers.insert peer state })

def corrupt (server : PulseServer) (peer now : U32) : PulseServer :=
  let r := server.corruptedLimiter.registerAndCheckExhausted peer now
  let server := { server with corruptedLimiter := r.2 }
  if r.1 then server.releasePreAuth peer else server

def onDisconnect (env : Env) (server : PulseServer) (peer : U32) :
    List OutgoingMessage × PulseServer :=
  let server := server.releasePreAuth peer
  cleanupPeer env { server with corruptedLimiter := server.corruptedLimiter.release peer } peer

/-! ### Ticks -/

/-- What the tick takes from outside the modelled state: the order in which the
observers are served, the subjects of a player's area of interest, and the order
in which a listener's parcels are visited. -/
structure TickInput where
  order : List U32
  visible : U32 → List InterestEntry
  parcels : U32 → List ℤ

inductive ExpiredReason where
  | authTimeout
  | disconnectCleanTimeout
  deriving DecidableEq

/-- What a tick accumulates over the observers. -/
structure TickState where
  peers : OrdMap U32 PeerState
  observerViews : OrdMap U32 (OrdMap U32 PeerToPeerView)
  outbox : List OutgoingMessage
  expired : List (U32 × ExpiredReason)
  scanCache : OrdMap (U32 ×ₗ U32) IntermediateScan
  deltaCache : OrdMap (U32 ×ₗ U32 ×ₗ ℕ) PlayerStateDeltaTier0

def observerCtx (server : PulseServer) (observer : U32) (state : PeerState) : ObserverCtx where
  observer := observer
  board := server.board
  identity := server.identity
  profiles := server.profiles
  tickCounter := server.tickCounter
  positionalOnly := state.isListener
  deltaBatch := decide (state.features.val &&& FEATURE_DELTA_BATCH ≠ 0)
  tierDivisors := server.config.tierDivisors
  selfMirrorEnabled := server.config.selfMirrorEnabled
  resyncWithDelta := server.config.resyncWithDelta

/-- The entries of the collector. A player that has published nothing is not served
(`none`). -/
def collect (server : PulseServer) (input : TickInput) (observer : U32) (state : PeerState) :
    Option (List InterestEntry) :=
  match state.sceneListener with
  | some listener =>
    some (collectSceneListenerSubjects server.board listener.realm (input.parcels observer) observer)
  | none => (server.board.tryRead observer).map fun _ =>
      input.visible observer ++
        if server.config.selfMirrorEnabled then [⟨observer, TIER_0⟩] else []

/-- Serve one observer, from an empty outbox of its own; `process` goes through the entries. -/
def serveWith (process : ObserverCtx → Serving → List InterestEntry → Serving) (server : PulseServer)
    (now : U32) (observer : U32) (state : PeerState) (entries : List InterestEntry) (t : TickState) :
    Serving :=
  let ctx := server.observerCtx observer state
  let s : Serving :=
    { views := t.observerViews[observer]?.getD ∅
      sent := []
      resync := state.resyncRequests
      batch := []
      scanCache := t.scanCache
      deltaCache := t.deltaCache }
  let s := process ctx s entries
  let s := s.flushDeltaBatch now server.config.seqEncoding
  if server.tickCounter.val % SWEEP_INTERVAL = 0 then ctx.sweepStaleViews s else s

abbrev serve := serveWith ObserverCtx.processVisibleSubjects

def tickObserverWith (process : ObserverCtx → Serving → List InterestEntry → Serving)
    (server : PulseServer) (now : U32) (input : TickInput) (t : TickState) (observer : U32) :
    TickState :=
  match t.peers[observer]? with
  | none => t
  | some state =>
    match state.connectionState with
    | .pendingAuth =>
      if server.config.pendingAuthCleanTimeoutMs ≤ now - state.connectionTime then
        { t with expired := t.expired ++ [(observer, .authTimeout)] }
      else t
    | .disconnecting =>
      if server.config.disconnectionCleanTimeoutMs ≤ now - state.disconnectionTime then
        { t with expired := t.expired ++ [(observer, .disconnectCleanTimeout)] }
      else t
    | .authenticated =>
      match server.collect input observer state with
      | none => t
      | some entries =>
        let s := serveWith process server now observer state entries t
        { t with
          peers := t.peers.insert observer { state with resyncRequests := ∅ }
          observerViews := t.observerViews.insert observer s.views
          outbox := t.outbox ++ s.sent.map fun m => ⟨observer, m.1, m.2⟩
          scanCache := s.scanCache
          deltaCache := s.deltaCache }
    | _ => t

abbrev tickObserver := tickObserverWith ObserverCtx.processVisibleSubjects

def simulateTick (server : PulseServer) (now : U32) (input : TickInput) : TickState :=
  input.order.foldl (server.tickObserver now input)
    ⟨server.peers, server.observerViews, [], [], ∅, ∅⟩

def reap (env : Env) (r : List OutgoingMessage × PulseServer) (e : U32 × ExpiredReason) :
    List OutgoingMessage × PulseServer :=
  let server := if e.2 = .authTimeout then r.2.releasePreAuth e.1 else r.2
  let c := cleanupPeer env server e.1
  (r.1 ++ c.1, c.2)

/-- The outbox is flushed before the expired peers are cleaned up. -/
def runTick (env : Env) (server : PulseServer) (now : U32) (input : TickInput) :
    List OutgoingMessage × PulseServer :=
  let server := { server with tickCounter := server.tickCounter + 1 }
  let t := server.simulateTick now input
  let server := { server with peers := t.peers, observerViews := t.observerViews }
  t.expired.foldl (reap env) (t.outbox, server)

/-- Every peer is served once, and every parcel of a listener is visited once. -/
def TickInput.Valid (input : TickInput) (server : PulseServer) : Prop :=
  input.order.Perm server.peers.keys ∧
  ∀ e ∈ server.peers.toList, match e.2.sceneListener with
    | some listener => (input.parcels e.1).Perm listener.parcels
    | none => True

instance (input : TickInput) (server : PulseServer) : Decidable (input.Valid server) :=
  have : DecidablePred fun e : U32 × PeerState => match e.2.sceneListener with
      | some listener => (input.parcels e.1).Perm listener.parcels
      | none => True := fun e =>
    match h : e.2.sceneListener with
    | some listener =>
      decidable_of_iff ((input.parcels e.1).Perm listener.parcels) (by simp only [h])
    | none => isTrue (by simp only [h])
  inferInstanceAs (Decidable (_ ∧ ∀ e ∈ _, _))

end PulseServer

inductive Event where
  | connect (peer : U32) (ip : Text) (now : U32)
  | receive (peer : U32) (decoded : Option (Option ClientMessage)) (nowMs : ℤ) (now : U32)
  | corrupt (peer now : U32)
  | disconnect (peer : U32)
  | tick (now : U32) (input : PulseServer.TickInput)

/-- What an event sends and the server after; `none` is
an event that cannot occur: a slot beyond the boards, or a tick that does not serve
every peer once. -/
def step (env : Env) (server : PulseServer) (e : Event) :
    Option (List OutgoingMessage × PulseServer) :=
  match e with
  | .connect peer ip now =>
    if peer.val < DEFAULT_MAX_PEERS then some ([], (server.connect peer ip now).2) else none
  | .receive peer decoded nowMs now =>
    if peer.val < DEFAULT_MAX_PEERS then
      let r := server.dispatch env peer decoded nowMs now
      some (r.2.apply env peer r.1 now)
    else none
  | .corrupt peer now =>
    if peer.val < DEFAULT_MAX_PEERS then some ([], server.corrupt peer now) else none
  | .disconnect peer =>
    if peer.val < DEFAULT_MAX_PEERS then some (server.onDisconnect env peer) else none
  | .tick now input => if input.Valid server then some (server.runTick env now input) else none

/-- What an event that can occur does. -/
inductive Happens (env : Env) (server : PulseServer) :
    Event → List OutgoingMessage × PulseServer → Prop
  | connect (peer : U32) (ip : Text) (now : U32) (hlt : peer.val < DEFAULT_MAX_PEERS) :
      Happens env server (.connect peer ip now) ([], (server.connect peer ip now).2)
  | receive (peer : U32) (decoded : Option (Option ClientMessage)) (nowMs : ℤ) (now : U32)
      (hlt : peer.val < DEFAULT_MAX_PEERS) :
      Happens env server (.receive peer decoded nowMs now)
        ((server.dispatch env peer decoded nowMs now).2.apply env peer
          (server.dispatch env peer decoded nowMs now).1 now)
  | corrupt (peer now : U32) (hlt : peer.val < DEFAULT_MAX_PEERS) :
      Happens env server (.corrupt peer now) ([], server.corrupt peer now)
  | disconnect (peer : U32) (hlt : peer.val < DEFAULT_MAX_PEERS) :
      Happens env server (.disconnect peer) (server.onDisconnect env peer)
  | tick (now : U32) (input : PulseServer.TickInput) (hvalid : input.Valid server) :
      Happens env server (.tick now input) (server.runTick env now input)

theorem step_happens {env : Env} {server : PulseServer} {e : Event}
    {r : List OutgoingMessage × PulseServer} (hstep : step env server e = some r) :
    Happens env server e r := by
  cases e with
  | connect peer ip now =>
    obtain ⟨hlt, hr⟩ := Option.ite_none_right_eq_some.mp hstep
    exact Option.some.inj hr ▸ .connect peer ip now hlt
  | receive peer decoded nowMs now =>
    obtain ⟨hlt, hr⟩ := Option.ite_none_right_eq_some.mp hstep
    exact Option.some.inj hr ▸ .receive peer decoded nowMs now hlt
  | corrupt peer now =>
    obtain ⟨hlt, hr⟩ := Option.ite_none_right_eq_some.mp hstep
    exact Option.some.inj hr ▸ .corrupt peer now hlt
  | disconnect peer =>
    obtain ⟨hlt, hr⟩ := Option.ite_none_right_eq_some.mp hstep
    exact Option.some.inj hr ▸ .disconnect peer hlt
  | tick now input =>
    obtain ⟨hvalid, hr⟩ := Option.ite_none_right_eq_some.mp hstep
    exact Option.some.inj hr ▸ .tick now input hvalid

/-! Events for examples: a player connects, shakes hands and teleports to parcel (0, 0). -/

def stillState : PlayerState :=
  ⟨0, 0, 0, 0, 0, 0, 0, 0, 0, 0, none, none, 0, 0, 0, none, none, none⟩

def playerJoins (peer : U32) (chain : Bytes) (initialState : Option PlayerInitialState) :
    List Event :=
  [.connect peer [] 0, .receive peer (some (some (.handshake ⟨chain, initialState, 0⟩))) 0 1,
    .receive peer (some (some (.teleport
      ⟨ParcelEncoder.default.encode 0 0, 0, 0, 0, ['r']⟩))) 0 1]

end Catalyrst.Pulse
