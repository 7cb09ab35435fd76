import Catalyrst.Pulse.Sessions

/-!
# What is published

Every change of the snapshot board, event by event: a slot is cleared or made
active, or a validated message of its player is published on it. Configuration
and parcel encoder never change.
-/

namespace Catalyrst.Pulse
open Catalyrst.Lib

/-- A value of a signed 32-bit field. -/
def IsI32 (v : ℤ) : Prop := -2147483648 ≤ v ∧ v < 2147483648

structure PlayerState.Typed (s : PlayerState) : Prop where
  parcelIndex : IsI32 s.parcelIndex
  glideState : IsI32 s.glideState
  jumpCount : IsI32 s.jumpCount

/-- The signed fields of a message are signed 32-bit values. -/
def ClientMessage.Typed : ClientMessage → Prop
  | .handshake req => ∀ init, req.initialState = some init → ∀ s, init.state = some s → s.Typed
  | .input state => ∀ s, state = some s → s.Typed
  | .emoteStart start => ∀ s, start.playerState = some s → s.Typed
  | .teleport req => IsI32 req.parcelIndex
  | _ => True

def Event.Typed : Event → Prop
  | .receive _ decoded _ _ => ∀ msg, decoded = some (some msg) → msg.Typed
  | _ => True

/-- One change of the board. -/
inductive BoardStep (encoder : ParcelEncoder) : SnapshotBoard → SnapshotBoard → Prop
  | clear (board : SnapshotBoard) (x : U32) : BoardStep encoder board (board.clearActive x)
  | activate (board : SnapshotBoard) (x : U32) : BoardStep encoder board (board.setActive x)
  | state (board : SnapshotBoard) (peer now : U32) (state : PlayerState) (emote : Option EmoteInput)
      (typed : state.Typed) (valid : Validate.playerState encoder state = true) :
      BoardStep encoder board (publishFromPlayerState board peer now state emote)
  | teleport (board : SnapshotBoard) (peer now : U32) (t : TeleportRequest)
      (typed : IsI32 t.parcelIndex) (valid : Validate.teleport encoder t = true) :
      BoardStep encoder board (publishTeleport board peer now t)
  | emoteStop (board : SnapshotBoard) (peer now : U32) :
      BoardStep encoder board (publishEmoteStop board peer now)

abbrev BoardSteps (encoder : ParcelEncoder) := Relation.ReflTransGen (BoardStep encoder)

namespace PulseServer

/-- The settings stay and the board changes step by step. -/
structure Publishes (server server' : PulseServer) : Prop where
  config : server'.config = server.config
  encoder : server'.encoder = server.encoder
  board : BoardSteps server.encoder server.board server'.board

namespace Publishes

variable {server server' server'' : PulseServer}

theorem refl (server : PulseServer) : Publishes server server :=
  ⟨rfl, rfl, Relation.ReflTransGen.refl⟩

theorem trans (h : Publishes server server') (h' : Publishes server' server'') :
    Publishes server server'' :=
  ⟨h'.config.trans h.config, h'.encoder.trans h.encoder,
    h.board.trans (h.encoder ▸ h'.board)⟩

theorem of_eq (hconfig : server'.config = server.config) (hencoder : server'.encoder = server.encoder)
    (hboard : server'.board = server.board) : Publishes server server' :=
  ⟨hconfig, hencoder, hboard ▸ Relation.ReflTransGen.refl⟩

theorem congr_right (h : Publishes server server') (hconfig : server''.config = server'.config)
    (hencoder : server''.encoder = server'.encoder) (hboard : server''.board = server'.board) :
    Publishes server server'' := h.trans (of_eq hconfig hencoder hboard)

theorem congr_left (h : Publishes server' server'') (hconfig : server'.config = server.config)
    (hencoder : server'.encoder = server.encoder) (hboard : server'.board = server.board) :
    Publishes server server'' := (of_eq hconfig hencoder hboard).trans h

theorem single (hconfig : server'.config = server.config)
    (hencoder : server'.encoder = server.encoder)
    (hboard : BoardStep server.encoder server.board server'.board) : Publishes server server' :=
  ⟨hconfig, hencoder, Relation.ReflTransGen.single hboard⟩

theorem releasePreAuth (server : PulseServer) (peer : U32) :
    Publishes server (server.releasePreAuth peer) := by
  unfold PulseServer.releasePreAuth
  split
  · exact of_eq rfl rfl rfl
  · exact of_eq rfl rfl rfl

theorem cleanup (env : Env) (server : PulseServer) (peer : U32) :
    Publishes server (cleanupPeer env server peer).2 := by
  rw [cleanupPeer_server]
  exact single rfl rfl (BoardStep.clear server.board peer)

theorem evict (env : Env) (server : PulseServer) (duplicateOf : Option U32) :
    Publishes server (evictDuplicate env server duplicateOf).2 := by
  cases duplicateOf with
  | none => exact refl server
  | some dup => exact (releasePreAuth server dup).trans (cleanup env _ dup)

theorem verifyAndAdmit (env : Env) (server : PulseServer) (peer : U32) (authChain : Bytes)
    (now : U32) (nowMs : ℤ) :
    Publishes server (PulseServer.verifyAndAdmit env server peer authChain now nowMs).2 := by
  unfold PulseServer.verifyAndAdmit
  split
  · exact refl server
  · split
    · exact of_eq rfl rfl rfl
    · dsimp only
      split
      · exact of_eq rfl rfl rfl
      · split
        · exact of_eq rfl rfl rfl
        · split
          · exact of_eq rfl rfl rfl
          · exact of_eq rfl rfl rfl

end Publishes

/-- The initial state of an admitted player was validated. -/
def ValidInitial (encoder : ParcelEncoder) : Action → Prop
  | .authenticated _ (some init) _ =>
    ∃ s, init.state = some s ∧ s.Typed ∧ Validate.playerState encoder s = true
  | _ => True

theorem ValidInitial.of_admits {encoder : ParcelEncoder} {action : Action}
    (h : admits action = none) : ValidInitial encoder action := by
  cases action with
  | authenticated admitted init features => cases h
  | _ => exact trivial

theorem Handshaken.publishes {env : Env} {server : PulseServer} {peer now : U32}
    {authChain : Bytes} {nowMs : ℤ} {initialState : Option PlayerInitialState}
    {r : Action × PulseServer} (h : server.isAuthenticated peer = false)
    (hr : Handshaken peer initialState (PulseServer.verifyAndAdmit env server peer authChain now
      nowMs) r)
    (htyped : ∀ init, initialState = some init → ∀ s, init.state = some s → s.Typed) :
    Publishes server r.2 ∧ ValidInitial server.encoder r.1 := by
  have hverify := Publishes.verifyAndAdmit env server peer authChain now nowMs
  have hspec := (verifyAndAdmit_spec env server peer authChain now nowMs h).2
  generalize PulseServer.verifyAndAdmit env server peer authChain now nowMs = v
    at hr hverify hspec
  cases hr with
  | denied action server' => exact ⟨hverify, ValidInitial.of_admits hspec.2⟩
  | invalid admitted server' response =>
    exact ⟨hverify.trans (Publishes.of_eq rfl rfl rfl), trivial⟩
  | player admitted server' features hinit =>
    refine ⟨hverify, ?_⟩
    cases initialState with
    | none => exact trivial
    | some init =>
      have hvalid := hinit init rfl
      dsimp only at hverify
      rw [validateHandshakeInitialState, hverify.encoder, Bool.and_eq_true] at hvalid
      obtain ⟨s, hs, hstate⟩ := (Option.any_eq_true _ _).mp hvalid.1
      exact ⟨s, hs, htyped init rfl s hs, hstate⟩
  | listener admitted server' listener features _ => exact ⟨hverify, trivial⟩

theorem handleHandshake_publishes (env : Env) (server : PulseServer) (peer : U32)
    {req : HandshakeRequest} (htyped : (ClientMessage.handshake req).Typed) (nowMs : ℤ) (now : U32) :
    Publishes server (handleHandshake env server peer req nowMs now).2 ∧
      ValidInitial server.encoder (handleHandshake env server peer req nowMs now).1 := by
  rcases handleHandshake_cases env server peer req nowMs now with ⟨-, heq⟩ | ⟨hauth, hr⟩
  · rw [heq]
    exact ⟨Publishes.refl server, trivial⟩
  · exact hr.publishes hauth htyped

theorem handleSceneListenerHandshake_publishes (env : Env) (server : PulseServer) (peer : U32)
    (req : SceneListenerHandshakeRequest) (nowMs : ℤ) (now : U32) :
    Publishes server (handleSceneListenerHandshake env server peer req nowMs now).2 ∧
      ValidInitial server.encoder (handleSceneListenerHandshake env server peer req nowMs now).1 := by
  rcases handleSceneListenerHandshake_cases env server peer req nowMs now with
    ⟨-, heq⟩ | ⟨-, hauth, hr⟩
  · rw [heq]
    exact ⟨Publishes.refl server, trivial⟩
  · exact hr.publishes hauth fun _ h => nomatch h

theorem playGameplay_publishes (server : PulseServer) (peer now : U32) {msg : ClientMessage}
    (htyped : msg.Typed) : Publishes server (server.playGameplay peer now msg).2 := by
  cases msg with
  | handshake req => exact Publishes.refl server
  | sceneListenerHandshake req => exact Publishes.refl server
  | input state =>
    cases state with
    | none => exact Publishes.refl server
    | some state =>
      unfold playGameplay
      dsimp only
      split
      · exact Publishes.refl server
      · rename_i hvalid
        rw [Bool.not_eq_true', Bool.not_eq_false] at hvalid
        exact Publishes.single rfl rfl (BoardStep.state _ peer now state none (htyped state rfl) hvalid)
  | teleport t =>
    unfold playGameplay
    dsimp only
    split
    · exact Publishes.refl server
    · rename_i hvalid
      rw [Bool.not_eq_true', Bool.not_eq_false] at hvalid
      exact Publishes.single rfl rfl (BoardStep.teleport _ peer now t htyped hvalid)
  | emoteStart e =>
    unfold playGameplay
    dsimp only
    split
    · exact Publishes.refl server
    · split
      · exact Publishes.refl server
      · rename_i state hstate
        split
        · exact Publishes.refl server
        · rename_i hvalid
          rw [Bool.not_eq_true', Bool.not_eq_false] at hvalid
          exact Publishes.single rfl rfl
            (BoardStep.state _ peer now state _ (htyped state hstate) hvalid)
  | emoteStop => exact Publishes.single rfl rfl (BoardStep.emoteStop _ peer now)
  | profileAnnouncement version =>
    unfold playGameplay
    dsimp only
    split
    · exact Publishes.of_eq rfl rfl rfl
    · exact Publishes.refl server
  | resync subjectId knownSeq => exact Publishes.of_eq rfl rfl rfl

theorem applyGameplay_publishes (server : PulseServer) (peer now : U32) {msg : ClientMessage}
    (htyped : msg.Typed) : Publishes server (server.applyGameplay peer now msg).2 := by
  have haccept : Publishes server (server.acceptGameplay peer now msg).2 := by
    cases msg <;> exact Publishes.of_eq rfl rfl rfl
  unfold applyGameplay
  dsimp only
  generalize server.acceptGameplay peer now msg = r at haccept ⊢
  split
  · exact haccept.trans (playGameplay_publishes r.2 peer now htyped)
  · exact haccept

theorem dispatch_publishes (env : Env) (server : PulseServer) (peer : U32)
    {decoded : Option (Option ClientMessage)} (nowMs : ℤ) (now : U32)
    (htyped : (Event.receive peer decoded nowMs now).Typed) :
    Publishes server (server.dispatch env peer decoded nowMs now).2 ∧
      ValidInitial server.encoder (server.dispatch env peer decoded nowMs now).1 := by
  unfold dispatch
  split
  · dsimp only
    refine ⟨Publishes.of_eq rfl rfl rfl, ValidInitial.of_admits ?_⟩
    split <;> rfl
  · exact ⟨Publishes.refl server, trivial⟩
  · rename_i msg
    have hmsg : msg.Typed := htyped msg rfl
    split
    · exact ⟨applyGameplay_publishes server peer now hmsg,
        ValidInitial.of_admits (admits_applyGameplay _ _ _ _)⟩
    · exact ⟨Publishes.of_eq rfl rfl rfl, trivial⟩
    · exact handleHandshake_publishes env server peer hmsg nowMs now
    · exact handleSceneListenerHandshake_publishes env server peer _ nowMs now
    · split
      · exact ⟨applyGameplay_publishes server peer now hmsg,
          ValidInitial.of_admits (admits_applyGameplay _ _ _ _)⟩
      · exact ⟨Publishes.refl server, trivial⟩

theorem seedInitialState_publishes (server : PulseServer) (peer now : U32)
    {init : PlayerInitialState}
    (h : ∃ s, init.state = some s ∧ s.Typed ∧ Validate.playerState server.encoder s = true) :
    Publishes server (server.seedInitialState peer now init) := by
  obtain ⟨s, hs, htyped, hvalid⟩ := h
  unfold seedInitialState
  rw [hs]
  exact Publishes.single rfl rfl (BoardStep.state _ peer now s _ htyped hvalid)

theorem admitPlayer_publishes (env : Env) (server : PulseServer) (peer : U32) (wallet : Text)
    {initialState : Option PlayerInitialState} (features now : U32)
    (h : ∀ init, initialState = some init →
      ∃ s, init.state = some s ∧ s.Typed ∧ Validate.playerState server.encoder s = true) :
    Publishes server (server.admitPlayer env peer wallet initialState features now) := by
  have hrelease := Publishes.releasePreAuth (server.modifyPeer peer fun s => { s with
    walletId := some wallet
    connectionState := .authenticated
    features := features }) peer
  unfold admitPlayer
  dsimp only
  generalize (server.modifyPeer peer fun s => { s with
    walletId := some wallet
    connectionState := .authenticated
    features := features }).releasePreAuth peer = server1 at hrelease ⊢
  have hactive : Publishes server { server1 with
      identity := server1.identity.set env.toLowercase peer wallet
      board := server1.board.setActive peer } := by
    have hmodify : Publishes server server1 := hrelease.congr_left rfl rfl rfl
    exact hmodify.trans (Publishes.single rfl rfl (BoardStep.activate server1.board peer))
  cases initialState with
  | none => exact hactive
  | some init =>
    refine hactive.trans (seedInitialState_publishes _ peer now ?_)
    have hencoder := hactive.encoder
    dsimp only at hencoder ⊢
    rw [hencoder]
    exact h init rfl

theorem admitListener_publishes (env : Env) (server : PulseServer) (peer : U32) (wallet : Text)
    (listener : SceneListenerState) (features : U32) :
    Publishes server (server.admitListener env peer wallet listener features) := by
  have hrelease := Publishes.releasePreAuth (server.modifyPeer peer fun s => { s with
    walletId := some wallet
    connectionState := .authenticated
    features := features
    sceneListener := some listener }) peer
  have hmodify : Publishes server _ := hrelease.congr_left rfl rfl rfl
  exact hmodify.congr_right rfl rfl rfl

theorem apply_publishes (env : Env) (server : PulseServer) (peer : U32) {action : Action} (now : U32)
    (hinit : ValidInitial server.encoder action) :
    Publishes server (server.apply env peer action now).2 := by
  cases action with
  | reply message => exact Publishes.refl server
  | reject reply reason => exact Publishes.releasePreAuth server peer
  | applied => exact Publishes.refl server
  | ignore => exact Publishes.refl server
  | authenticated admitted initialState features =>
    unfold apply
    dsimp only
    split
    · exact Publishes.refl server
    · have hevict := Publishes.evict env server admitted.duplicateOf
      refine hevict.trans (admitPlayer_publishes env _ peer _ features now fun init hi => ?_)
      rw [hevict.encoder]
      subst hi
      exact hinit
  | authenticatedListener admitted listener features =>
    unfold apply
    dsimp only
    split
    · exact Publishes.refl server
    · exact (Publishes.evict env server admitted.duplicateOf).trans
        (admitListener_publishes env _ peer _ listener features)

theorem connect_publishes (server : PulseServer) (peer : U32) (ip : Text) (now : U32) :
    Publishes server (server.connect peer ip now).2 := by
  unfold connect releasePreAuth
  dsimp only
  by_cases hwt : ENET_CAPACITY ≤ peer.val
  · simp only [hwt, if_true]
    split <;> exact Publishes.of_eq rfl rfl rfl
  · simp only [hwt, if_false]
    split <;> exact Publishes.of_eq rfl rfl rfl

theorem corrupt_publishes (server : PulseServer) (peer now : U32) :
    Publishes server (server.corrupt peer now) := by
  unfold corrupt
  dsimp only
  generalize server.corruptedLimiter.registerAndCheckExhausted peer now = r
  split
  · exact (Publishes.releasePreAuth { server with corruptedLimiter := r.2 } peer).congr_left
      rfl rfl rfl
  · exact Publishes.of_eq rfl rfl rfl

theorem foldl_reap_publishes (env : Env) (expired : List (U32 × ExpiredReason))
    (r : List OutgoingMessage × PulseServer) :
    Publishes r.2 (expired.foldl (reap env) r).2 := by
  induction expired generalizing r with
  | nil => exact Publishes.refl _
  | cons e expired ih =>
    refine Publishes.trans ?_ (ih (reap env r e))
    unfold reap
    dsimp only
    split
    · exact (Publishes.releasePreAuth r.2 e.1).trans (Publishes.cleanup env _ e.1)
    · exact Publishes.cleanup env r.2 e.1

end PulseServer

/-- What an event does to the board. -/
theorem step_publishes {env : Env} {server : PulseServer} {e : Event}
    {r : List OutgoingMessage × PulseServer} (htyped : e.Typed)
    (h : step env server e = some r) : server.Publishes r.2 := by
  unfold step at h
  cases e with
  | connect peer ip now =>
    simp only [Option.ite_none_right_eq_some, Option.some.injEq] at h
    obtain ⟨_, rfl⟩ := h
    exact server.connect_publishes peer ip now
  | receive peer decoded nowMs now =>
    simp only [Option.ite_none_right_eq_some, Option.some.injEq] at h
    obtain ⟨_, rfl⟩ := h
    obtain ⟨hdispatch, hinit⟩ := server.dispatch_publishes env peer nowMs now htyped
    exact hdispatch.trans (PulseServer.apply_publishes env _ peer now (hdispatch.encoder ▸ hinit))
  | corrupt peer now =>
    simp only [Option.ite_none_right_eq_some, Option.some.injEq] at h
    obtain ⟨_, rfl⟩ := h
    exact server.corrupt_publishes peer now
  | disconnect peer =>
    simp only [Option.ite_none_right_eq_some, Option.some.injEq] at h
    obtain ⟨_, rfl⟩ := h
    have hrelease := PulseServer.Publishes.releasePreAuth server peer
    have hcleanup := PulseServer.Publishes.cleanup env { server.releasePreAuth peer with
      corruptedLimiter := (server.releasePreAuth peer).corruptedLimiter.release peer } peer
    exact hrelease.trans (hcleanup.congr_left rfl rfl rfl)
  | tick now input =>
    simp only [Option.ite_none_right_eq_some, Option.some.injEq] at h
    obtain ⟨_, rfl⟩ := h
    exact (PulseServer.foldl_reap_publishes env _ _).congr_left rfl rfl rfl

end Catalyrst.Pulse
